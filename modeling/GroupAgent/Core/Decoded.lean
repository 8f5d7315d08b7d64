import GroupAgent.Core.Checkpoint
import GroupAgent.Lib.Counted
import GroupAgent.Lib.Fairness
import GroupAgent.Lib.Keyed

/-!
# The cache of decoded checkpoints

Model of `DecodedCheckpoints` (`checkpoint.rs:1331-1334`, `remove_expired` 1344-1355) and of
`RecordCheckpointer::{cached, cache}` (1378-1396, 1398-1426) in `crates/group-agent-core/src`. The
cache keeps weak handles: a checkpoint stays decoded as long as somebody keeps it, and its entry
goes away with a later cleanup.

* The map is a list without repeated keys. Its capacity, which `shrink_to` bounds, is left out.
* The heap of shared checkpoints stands beside the map: a handle is alive while its count is
  positive, and `upgrade` of a dead one fails.
* `insertions_until_cleanup -= 1` panics where it underflows, and a panic under the lock poisons
  it. `removeExpired` is none there.
* A run is any sequence of calls and of handles that are made, cloned and dropped between them
  (`CacheOp`). `survivors` is what the last cleanup left.

Results:
* **`decoded_cache`** is what holds of every run: no call panics, the map is bounded by the
  survivors of the last cleanup, what is returned lives and stays the answer as long as it does,
  and a call fails on a conflict only.

`Caching` sets this cache into the checkpointer. Out of scope: the lock itself, since each call
holds it from its beginning to its end.
-/

namespace GroupAgent.Core

open GroupAgent.Lib

variable {τ π : Type}

/-! ## The cache -/

/-- Weak handles to decoded checkpoints, each with the record it was decoded from. -/
structure DecodedCheckpoints (τ π : Type) where
  entries : List (CheckpointId × CheckpointRecord × Arc (Checkpoint τ π))
  insertionsUntilCleanup : Nat

namespace DecodedCheckpoints

variable (self : DecodedCheckpoints τ π) (heap : StrongCounts)

def new : DecodedCheckpoints τ π := ⟨[], 64⟩

/-- `HashMap::get`. -/
def get? (id : CheckpointId) : Option (CheckpointRecord × Arc (Checkpoint τ π)) :=
  (lookup Prod.fst id self.entries).map Prod.snd

/-- `HashMap::insert`. -/
def insert (id : CheckpointId) (record : CheckpointRecord) (checkpoint : Arc (Checkpoint τ π)) :
    DecodedCheckpoints τ π :=
  { self with
    entries := (self.entries.filter fun entry => entry.1 ≠ id) ++ [(id, record, checkpoint)] }

/-- The entries whose checkpoint lives. -/
def living : List (CheckpointId × CheckpointRecord × Arc (Checkpoint τ π)) :=
  self.entries.filter fun entry => 0 < heap.strongCount entry.2.2

/-- Count an insertion, and clean up when it is time. -/
def removeExpired : Option (DecodedCheckpoints τ π) :=
  if self.insertionsUntilCleanup = 0 then none
  else
    let remaining := self.insertionsUntilCleanup - 1
    if 0 < remaining then some { self with insertionsUntilCleanup := remaining }
    else some ⟨self.living heap, max (self.living heap).length 64⟩

end DecodedCheckpoints

/-- What a call on the cache comes to. -/
inductive CacheReply (τ π : Type) where
  | returned (checkpoint : Option (Arc (Checkpoint τ π)))
  | failed (error : SourceError)
  | panicked

/-- The cache behind its lock, and the strong counts of the checkpoints. `survivors` is no part of
the source: it is the number of entries the last cleanup left. -/
structure CacheState (τ π : Type) where
  decoded : DecodedCheckpoints τ π
  poisoned : Bool
  heap : StrongCounts
  survivors : Nat

namespace CacheState

/-- The texts of the two errors. -/
def poisonedError : SourceError := .message "decoded checkpoint cache was poisoned"

section Calls

variable (display : CheckpointId → String)

def conflictError (id : CheckpointId) : SourceError :=
  .message s!"checkpoint store returned conflicting content for id `{display id}`"

/-- The decoded checkpoint of a record, if it lives. -/
def cached (record : CheckpointRecord) (self : CacheState τ π) :
    CacheReply τ π × CacheState τ π :=
  if self.poisoned then (.failed poisonedError, self)
  else
    match self.decoded.get? record.checkpointId with
    | some (cachedRecord, checkpoint) =>
      if cachedRecord = record then
        match self.heap.upgrade checkpoint with
        | some heap => (.returned (some checkpoint), { self with heap })
        | none => (.returned none, self)
      else (.failed (conflictError display record.checkpointId), self)
    | none => (.returned none, self)

/-- Keep a decoded checkpoint, or return the one that is kept already. -/
def cache (record : CheckpointRecord) (checkpoint : Arc (Checkpoint τ π)) (self : CacheState τ π) :
    CacheReply τ π × CacheState τ π :=
  if self.poisoned then
    (.failed poisonedError, { self with heap := self.heap.drop checkpoint })
  else
    match self.decoded.removeExpired self.heap with
    | none => (.panicked, { self with poisoned := true, heap := self.heap.drop checkpoint })
    | some decoded =>
      let survivors :=
        if self.decoded.insertionsUntilCleanup = 1 then decoded.entries.length else self.survivors
      let self := { self with decoded, survivors }
      let id := checkpoint.value.id
      match decoded.get? id with
      | none =>
        (.returned (some checkpoint), { self with decoded := decoded.insert id record checkpoint })
      | some (cachedRecord, existing) =>
        if cachedRecord = record then
          match self.heap.upgrade existing with
          | some heap => (.returned (some existing), { self with heap := heap.drop checkpoint })
          | none =>
            (.returned (some checkpoint),
              { self with decoded := decoded.insert id record checkpoint })
        else
          (.failed (conflictError display id), { self with heap := self.heap.drop checkpoint })

end Calls

end CacheState

/-! ## Runs -/

/-- A call on the cache, or what becomes of a handle between two calls. -/
inductive CacheOp (τ π : Type) where
  | cached (record : CheckpointRecord)
  | cache (record : CheckpointRecord) (checkpoint : Arc (Checkpoint τ π))
  | new (checkpoint : Checkpoint τ π)
  | clone (handle : Arc (Checkpoint τ π))
  | drop (handle : Arc (Checkpoint τ π))

namespace CacheOp

/-- A handle that is passed, cloned or dropped is a strong one. -/
def Allowed (heap : StrongCounts) : CacheOp τ π → Prop
  | .cached _ => True
  | .cache _ checkpoint => heap.Live checkpoint
  | .new _ => True
  | .clone handle => heap.Live handle
  | .drop handle => heap.Live handle

def run (display : CheckpointId → String) : CacheOp τ π → CacheState τ π →
    CacheReply τ π × CacheState τ π
  | .cached record, s => s.cached display record
  | .cache record checkpoint, s => s.cache display record checkpoint
  | .new checkpoint, s =>
    (.returned (some (s.heap.new checkpoint).1), { s with heap := (s.heap.new checkpoint).2 })
  | .clone handle, s => (.returned (some handle), { s with heap := s.heap.clone handle })
  | .drop handle, s => (.returned none, { s with heap := s.heap.drop handle })

/-- The identifier a call reads, and the record it reads it with. -/
def reads? : CacheOp τ π → Option (CheckpointId × CheckpointRecord)
  | .cached record => some (record.checkpointId, record)
  | .cache record checkpoint => some (checkpoint.value.id, record)
  | _ => none

end CacheOp

/-- The runs of a new cache. -/
def cacheRuns (τ π : Type) (display : CheckpointId → String) :
    System (CacheState τ π) (CacheOp τ π) where
  init s := s.decoded = .new ∧ s.poisoned = false ∧ s.survivors = 0
  step op s s' := op.Allowed s.heap ∧ s' = (op.run display s).2

/-! ## The map -/

namespace DecodedCheckpoints

variable {self decoded : DecodedCheckpoints τ π} {heap : StrongCounts} {id other : CheckpointId}
  {record : CheckpointRecord} {checkpoint : Arc (Checkpoint τ π)}

def KeysNodup (self : DecodedCheckpoints τ π) : Prop := (self.entries.map Prod.fst).Nodup

theorem get?_eq_some (hself : self.KeysNodup) :
    self.get? id = some (record, checkpoint) ↔ (id, record, checkpoint) ∈ self.entries := by
  unfold get?
  rw [Option.map_eq_some_iff]
  constructor
  · rintro ⟨⟨id', e⟩, h, rfl⟩
    obtain ⟨hmem, rfl⟩ := (lookup_iff hself).mp h
    exact hmem
  · intro h
    exact ⟨_, (lookup_iff hself).mpr ⟨h, rfl⟩, rfl⟩

theorem keysNodup_filter (hself : self.KeysNodup)
    (p : CheckpointId × CheckpointRecord × Arc (Checkpoint τ π) → Bool) (n : Nat) :
    KeysNodup ⟨self.entries.filter p, n⟩ :=
  hself.sublist (List.filter_sublist.map _)

theorem keysNodup_insert (hself : self.KeysNodup) :
    (self.insert id record checkpoint).KeysNodup := by
  refine nodup_snoc (keysNodup_filter hself _ 0) (lookup_eq_none.mpr fun entry h => ?_)
  simpa using (List.mem_filter.mp h).2

theorem length_insert_le :
    (self.insert id record checkpoint).entries.length ≤ self.entries.length + 1 := by
  rw [insert, List.length_append, List.length_singleton]
  exact Nat.succ_le_succ (List.length_filter_le _ _)

theorem get?_insert_self (hself : self.KeysNodup) :
    (self.insert id record checkpoint).get? id = some (record, checkpoint) :=
  (get?_eq_some (keysNodup_insert hself)).mpr (by simp [insert])

theorem get?_insert_of_ne (hself : self.KeysNodup) (hne : other ≠ id) {stored : CheckpointRecord}
    {arc : Arc (Checkpoint τ π)} (h : self.get? other = some (stored, arc)) :
    (self.insert id record checkpoint).get? other = some (stored, arc) := by
  rw [get?_eq_some (keysNodup_insert hself)]
  rw [get?_eq_some hself] at h
  simp [insert, h, hne]

/-- An insertion is counted, or it is the one that cleans up. -/
theorem removeExpired_cases (h : self.removeExpired heap = some decoded) :
    (1 < self.insertionsUntilCleanup ∧
      decoded = ⟨self.entries, self.insertionsUntilCleanup - 1⟩) ∨
    (self.insertionsUntilCleanup = 1 ∧
      decoded = ⟨self.living heap, max (self.living heap).length 64⟩) := by
  unfold removeExpired at h
  by_cases hzero : self.insertionsUntilCleanup = 0
  · rw [if_pos hzero] at h
    cases h
  · rw [if_neg hzero] at h
    by_cases hone : 0 < self.insertionsUntilCleanup - 1
    · rw [if_pos hone] at h
      exact .inl ⟨by omega, (Option.some.inj h).symm⟩
    · rw [if_neg hone] at h
      exact .inr ⟨by omega, (Option.some.inj h).symm⟩

theorem removeExpired_some (heap : StrongCounts) (h : 1 ≤ self.insertionsUntilCleanup) :
    ∃ decoded, self.removeExpired heap = some decoded := by
  unfold removeExpired
  rw [if_neg (by omega)]
  by_cases hone : 0 < self.insertionsUntilCleanup - 1
  · exact ⟨_, if_pos hone⟩
  · exact ⟨_, if_neg hone⟩

theorem keysNodup_removeExpired (hself : self.KeysNodup)
    (h : self.removeExpired heap = some decoded) : decoded.KeysNodup := by
  rcases removeExpired_cases h with ⟨-, rfl⟩ | ⟨-, rfl⟩
  · exact hself
  · exact keysNodup_filter hself _ _

/-- What is there after a cleanup was there before. -/
theorem get?_of_removeExpired (hself : self.KeysNodup)
    (h : self.removeExpired heap = some decoded)
    (hget : decoded.get? id = some (record, checkpoint)) :
    self.get? id = some (record, checkpoint) := by
  rw [get?_eq_some (keysNodup_removeExpired hself h)] at hget
  rw [get?_eq_some hself]
  rcases removeExpired_cases h with ⟨-, rfl⟩ | ⟨-, rfl⟩
  · exact hget
  · exact (List.mem_filter.mp hget).1

/-- A cleanup keeps what lives. -/
theorem get?_removeExpired (hself : self.KeysNodup) (h : self.removeExpired heap = some decoded)
    (hget : self.get? id = some (record, checkpoint)) (hlive : heap.Live checkpoint) :
    decoded.get? id = some (record, checkpoint) := by
  rw [get?_eq_some (keysNodup_removeExpired hself h)]
  rw [get?_eq_some hself] at hget
  rcases removeExpired_cases h with ⟨-, rfl⟩ | ⟨-, rfl⟩
  · exact hget
  · exact List.mem_filter.mpr ⟨hget, by simpa using hlive⟩

end DecodedCheckpoints

/-! ## One call -/

namespace CacheState

variable {display : CheckpointId → String} {s s' : CacheState τ π} {id : CheckpointId}
  {record stored : CheckpointRecord} {checkpoint arc : Arc (Checkpoint τ π)}

/-- What holds between two calls. The counter is what is left of the room above the survivors of the
last cleanup, less the entries that were added: an insertion adds at most one, and the one that
cleans up may add one to the survivors. -/
structure Inv (s : CacheState τ π) : Prop where
  counted : 1 ≤ s.decoded.insertionsUntilCleanup
  sound : s.poisoned = false
  keys : s.decoded.KeysNodup
  room : s.decoded.entries.length + s.decoded.insertionsUntilCleanup ≤
    s.survivors + max 64 s.survivors + 1

/-- The entry of an identifier is this one, as long as its checkpoint lives. -/
structure Serves (id : CheckpointId) (stored : CheckpointRecord) (arc : Arc (Checkpoint τ π))
    (s : CacheState τ π) : Prop where
  made : arc.address < s.heap.strong.length
  entry : s.heap.Live arc → s.decoded.get? id = some (stored, arc)

theorem cached_none (hsound : s.poisoned = false)
    (h : s.decoded.get? record.checkpointId = none) :
    s.cached display record = (.returned none, s) := by
  simp [cached, hsound, h]

theorem cached_conflict (hsound : s.poisoned = false)
    (h : s.decoded.get? record.checkpointId = some (stored, arc)) (hne : stored ≠ record) :
    s.cached display record = (.failed (conflictError display record.checkpointId), s) := by
  simp [cached, hsound, h, hne]

theorem cached_live (hsound : s.poisoned = false)
    (h : s.decoded.get? record.checkpointId = some (record, arc)) (hlive : s.heap.Live arc) :
    s.cached display record =
      (.returned (some arc), { s with heap := s.heap.clone arc }) := by
  have hup := StrongCounts.upgrade_eq_some.mpr ⟨hlive, rfl⟩
  simp [cached, hsound, h, hup]

theorem cached_dead (hsound : s.poisoned = false)
    (h : s.decoded.get? record.checkpointId = some (record, arc)) (hdead : ¬s.heap.Live arc) :
    s.cached display record = (.returned none, s) := by
  have hup := StrongCounts.upgrade_eq_none.mpr hdead
  simp [cached, hsound, h, hup]

/-- Everything a reading can do. -/
theorem cached_cases (display : CheckpointId → String) (record : CheckpointRecord)
    (hsound : s.poisoned = false) :
    (s.cached display record = (.returned none, s)) ∨
    (∃ arc, s.decoded.get? record.checkpointId = some (record, arc) ∧ s.heap.Live arc ∧
      s.cached display record = (.returned (some arc), { s with heap := s.heap.clone arc })) ∨
    (∃ stored arc, s.decoded.get? record.checkpointId = some (stored, arc) ∧ stored ≠ record ∧
      s.cached display record = (.failed (conflictError display record.checkpointId), s)) := by
  cases h : s.decoded.get? record.checkpointId with
  | none => exact .inl (cached_none hsound h)
  | some entry =>
    obtain ⟨stored, arc⟩ := entry
    by_cases hne : stored = record
    · subst hne
      by_cases hlive : s.heap.Live arc
      · exact .inr (.inl ⟨arc, rfl, hlive, cached_live hsound h hlive⟩)
      · exact .inl (cached_dead hsound h hlive)
    · exact .inr (.inr ⟨stored, arc, rfl, hne, cached_conflict hsound h hne⟩)

/-- What the last cleanup left, after one more insertion. -/
def survivorsAfter (s : CacheState τ π) (decoded : DecodedCheckpoints τ π) : Nat :=
  if s.decoded.insertionsUntilCleanup = 1 then decoded.entries.length else s.survivors

/-- Everything a caching can do: it files its checkpoint, it returns the one that lives, or it
finds another record. -/
theorem cache_cases (display : CheckpointId → String) (record : CheckpointRecord)
    (checkpoint : Arc (Checkpoint τ π)) (hinv : s.Inv) :
    ∃ decoded, s.decoded.removeExpired s.heap = some decoded ∧
    (((∀ stored arc, decoded.get? checkpoint.value.id = some (stored, arc) →
        stored = record ∧ ¬s.heap.Live arc) ∧
      s.cache display record checkpoint = (.returned (some checkpoint),
        ⟨decoded.insert checkpoint.value.id record checkpoint, s.poisoned, s.heap,
          s.survivorsAfter decoded⟩)) ∨
    (∃ arc, decoded.get? checkpoint.value.id = some (record, arc) ∧ s.heap.Live arc ∧
      s.cache display record checkpoint = (.returned (some arc),
        ⟨decoded, s.poisoned, (s.heap.clone arc).drop checkpoint, s.survivorsAfter decoded⟩)) ∨
    (∃ stored arc, decoded.get? checkpoint.value.id = some (stored, arc) ∧ stored ≠ record ∧
      s.cache display record checkpoint =
        (.failed (conflictError display checkpoint.value.id),
        ⟨decoded, s.poisoned, s.heap.drop checkpoint, s.survivorsAfter decoded⟩))) := by
  obtain ⟨decoded, hdecoded⟩ :=
    DecodedCheckpoints.removeExpired_some s.heap hinv.counted
  refine ⟨decoded, hdecoded, ?_⟩
  cases h : decoded.get? checkpoint.value.id with
  | none =>
    have hnone : ∀ stored (arc : Arc (Checkpoint τ π)), none = some (stored, arc) →
        stored = record ∧ ¬s.heap.Live arc := by
      intro stored arc h
      cases h
    refine .inl ⟨hnone, ?_⟩
    simp [cache, hinv.sound, hdecoded, h, survivorsAfter]
  | some entry =>
    obtain ⟨stored, arc⟩ := entry
    by_cases hne : stored = record
    · subst hne
      by_cases hlive : s.heap.Live arc
      · refine .inr (.inl ⟨arc, rfl, hlive, ?_⟩)
        have hup := StrongCounts.upgrade_eq_some.mpr ⟨hlive, rfl⟩
        simp [cache, hinv.sound, hdecoded, h, hup, survivorsAfter]
      · have hsame : ∀ stored' arc', some (stored, arc) = some (stored', arc') →
            stored' = stored ∧ ¬s.heap.Live arc' := by
          intro stored' arc' h
          cases h
          exact ⟨rfl, hlive⟩
        refine .inl ⟨hsame, ?_⟩
        have hup := StrongCounts.upgrade_eq_none.mpr hlive
        simp [cache, hinv.sound, hdecoded, h, hup, survivorsAfter]
    · refine .inr (.inr ⟨stored, arc, rfl, hne, ?_⟩)
      simp [cache, hinv.sound, hdecoded, h, hne, survivorsAfter]

/-- An insertion that is counted takes one of the room, and a cleanup makes room anew. -/
theorem Inv.counts (hinv : s.Inv) {decoded : DecodedCheckpoints τ π}
    (h : s.decoded.removeExpired s.heap = some decoded) :
    1 ≤ decoded.insertionsUntilCleanup ∧ decoded.KeysNodup ∧
      decoded.entries.length + 1 + decoded.insertionsUntilCleanup ≤
        s.survivorsAfter decoded + max 64 (s.survivorsAfter decoded) + 1 := by
  refine ⟨?_, DecodedCheckpoints.keysNodup_removeExpired hinv.keys h, ?_⟩
  · rcases DecodedCheckpoints.removeExpired_cases h with ⟨hlt, rfl⟩ | ⟨-, rfl⟩
    · exact Nat.le_sub_one_of_lt hlt
    · exact le_trans (by decide) (le_max_right _ 64)
  · have hroom := hinv.room
    unfold survivorsAfter
    rcases DecodedCheckpoints.removeExpired_cases h with ⟨hlt, rfl⟩ | ⟨hone, rfl⟩
    · rw [if_neg (by omega)]
      simp only at hroom ⊢
      omega
    · rw [if_pos hone]
      simp only
      omega

theorem Inv.cached (hinv : s.Inv) : (s.cached display record).2.Inv := by
  rcases cached_cases display record hinv.sound with
    h | ⟨arc, -, -, h⟩ | ⟨stored, arc, -, -, h⟩
  · rw [h]
    exact hinv
  · rw [h]
    exact ⟨hinv.counted, hinv.sound, hinv.keys, hinv.room⟩
  · rw [h]
    exact hinv

theorem Inv.cache (hinv : s.Inv) : (s.cache display record checkpoint).2.Inv := by
  obtain ⟨decoded, hdecoded, h⟩ :=
    cache_cases display record checkpoint hinv
  obtain ⟨hcounted, hkeys, hroom⟩ := hinv.counts hdecoded
  rcases h with ⟨-, h⟩ | ⟨arc, -, -, h⟩ | ⟨stored, arc, -, -, h⟩
  · rw [h]
    refine ⟨hcounted, hinv.sound, DecodedCheckpoints.keysNodup_insert hkeys, ?_⟩
    refine le_trans (Nat.add_le_add_right DecodedCheckpoints.length_insert_le _) hroom
  · rw [h]
    exact ⟨hcounted, hinv.sound, hkeys, by simp only; omega⟩
  · rw [h]
    exact ⟨hcounted, hinv.sound, hkeys, by simp only; omega⟩

/-! ## What is served -/

theorem Serves.same (h : Serves id stored arc s)
    (hheap : s'.heap.strong.length = s.heap.strong.length)
    (hlive : s'.heap.Live arc → s.heap.Live arc)
    (hentry : s.heap.Live arc → s.decoded.get? id = some (stored, arc) →
      s'.decoded.get? id = some (stored, arc)) : Serves id stored arc s' :=
  ⟨hheap ▸ h.made, fun hl => hentry (hlive hl) (h.entry (hlive hl))⟩

theorem Serves.cached (hinv : s.Inv) (h : Serves id stored arc s) :
    Serves id stored arc (s.cached display record).2 := by
  rcases cached_cases display record hinv.sound with
    hc | ⟨other, -, hlive, hc⟩ | ⟨_, _, -, -, hc⟩
  · rw [hc]
    exact h
  · rw [hc]
    exact h.same StrongCounts.length_clone (StrongCounts.live_clone hlive).mp fun _ h => h
  · rw [hc]
    exact h

/-- An insertion replaces no entry whose checkpoint lives. -/
theorem Serves.cache (hinv : s.Inv) (h : Serves id stored arc s) :
    Serves id stored arc (s.cache display record checkpoint).2 := by
  obtain ⟨decoded, hdecoded, hc⟩ :=
    cache_cases display record checkpoint hinv
  obtain ⟨-, hkeys, -⟩ := hinv.counts hdecoded
  have hkept : s.heap.Live arc → s.decoded.get? id = some (stored, arc) →
      decoded.get? id = some (stored, arc) := fun hlive hget =>
    DecodedCheckpoints.get?_removeExpired hinv.keys hdecoded hget hlive
  rcases hc with ⟨hfree, hc⟩ | ⟨other, -, hlive, hc⟩ | ⟨_, _, -, -, hc⟩
  · rw [hc]
    refine h.same rfl (fun hlive => hlive) fun hlive hget => ?_
    have hget := hkept hlive hget
    by_cases hid : id = checkpoint.value.id
    · subst hid
      exact absurd hlive (hfree stored arc hget).2
    · exact DecodedCheckpoints.get?_insert_of_ne hkeys hid hget
  · rw [hc]
    have hback (hl : ((s.heap.clone other).drop checkpoint).Live arc) : s.heap.Live arc :=
      (StrongCounts.live_clone hlive).mp (StrongCounts.live_of_drop hl)
    refine h.same ?_ hback hkept
    rw [StrongCounts.length_drop, StrongCounts.length_clone]
  · rw [hc]
    exact h.same StrongCounts.length_drop StrongCounts.live_of_drop hkept

/-- What a call returns is served from then on. -/
theorem serves_of_cached (hinv : s.Inv)
    (h : (s.cached display record).1 = .returned (some arc)) :
    s.heap.Live arc ∧ Serves record.checkpointId record arc (s.cached display record).2 := by
  rcases cached_cases display record hinv.sound with
    hc | ⟨other, hget, hlive, hc⟩ | ⟨_, _, -, -, hc⟩
  · rw [hc] at h
    cases h
  · rw [hc] at h ⊢
    cases h
    refine ⟨hlive, ?_, fun _ => hget⟩
    rw [StrongCounts.length_clone]
    exact hlive.lt
  · rw [hc] at h
    cases h

theorem serves_of_cache (hinv : s.Inv) (hallowed : s.heap.Live checkpoint)
    (h : (s.cache display record checkpoint).1 = .returned (some arc)) :
    s.heap.Live arc ∧
      Serves checkpoint.value.id record arc (s.cache display record checkpoint).2 := by
  obtain ⟨decoded, hdecoded, hc⟩ :=
    cache_cases display record checkpoint hinv
  obtain ⟨-, hkeys, -⟩ := hinv.counts hdecoded
  rcases hc with ⟨-, hc⟩ | ⟨other, hget, hlive, hc⟩ | ⟨_, _, -, -, hc⟩
  · rw [hc] at h ⊢
    cases h
    exact ⟨hallowed, hallowed.lt, fun _ => DecodedCheckpoints.get?_insert_self hkeys⟩
  · rw [hc] at h ⊢
    cases h
    refine ⟨hlive, ?_, fun _ => hget⟩
    rw [StrongCounts.length_drop, StrongCounts.length_clone]
    exact hlive.lt
  · rw [hc] at h
    cases h

/-- A reader of what is served and lives gets it, unless it comes with another record. -/
theorem Serves.read_cached (hinv : s.Inv) (h : Serves record.checkpointId stored arc s)
    (hlive : s.heap.Live arc) : (s.cached display record).1 =
      if record = stored then .returned (some arc)
      else .failed (conflictError display record.checkpointId) := by
  have hget := h.entry hlive
  by_cases hsame : record = stored
  · subst hsame
    rw [if_pos rfl, cached_live hinv.sound hget hlive]
  · rw [if_neg hsame, cached_conflict hinv.sound hget fun heq => hsame heq.symm]

theorem Serves.read_cache (hinv : s.Inv) (h : Serves checkpoint.value.id stored arc s)
    (hlive : s.heap.Live arc) : (s.cache display record checkpoint).1 =
      if record = stored then .returned (some arc)
      else .failed (conflictError display checkpoint.value.id) := by
  obtain ⟨decoded, hdecoded, hc⟩ :=
    cache_cases display record checkpoint hinv
  have hget := DecodedCheckpoints.get?_removeExpired hinv.keys hdecoded (h.entry hlive) hlive
  rcases hc with ⟨hfree, -⟩ | ⟨other, hother, -, hc⟩ | ⟨other, _, hother, hne, hc⟩
  · exact absurd hlive (hfree stored arc hget).2
  · rw [hget] at hother
    cases hother
    rw [hc, if_pos rfl]
  · rw [hget] at hother
    cases hother
    rw [hc, if_neg fun heq => hne heq.symm]

end CacheState

/-! ## Every run -/

namespace CacheOp

open CacheState

variable {display : CheckpointId → String} {s s' : CacheState τ π} {op : CacheOp τ π}
  {id : CheckpointId} {record stored : CheckpointRecord} {arc : Arc (Checkpoint τ π)}

theorem inv_run (hinv : s.Inv) : (op.run display s).2.Inv := by
  cases op with
  | cached record => exact hinv.cached
  | cache record checkpoint => exact hinv.cache
  | new checkpoint => exact ⟨hinv.counted, hinv.sound, hinv.keys, hinv.room⟩
  | clone handle => exact ⟨hinv.counted, hinv.sound, hinv.keys, hinv.room⟩
  | drop handle => exact ⟨hinv.counted, hinv.sound, hinv.keys, hinv.room⟩

theorem serves_run (hinv : s.Inv) (hallowed : op.Allowed s.heap) (h : Serves id stored arc s) :
    Serves id stored arc (op.run display s).2 := by
  cases op with
  | cached record => exact h.cached hinv
  | cache record checkpoint => exact h.cache hinv
  | new checkpoint =>
    have hlive := s.heap.live_new checkpoint h.made
    exact ⟨lt_of_lt_of_eq (Nat.lt_succ_of_lt h.made) (StrongCounts.length_new checkpoint).symm,
      fun hl => h.entry (hlive.mp hl)⟩
  | clone handle =>
    exact h.same StrongCounts.length_clone (StrongCounts.live_clone hallowed).mp fun _ h => h
  | drop handle => exact h.same StrongCounts.length_drop StrongCounts.live_of_drop fun _ h => h

theorem serves_steps (hinv : s.Inv) (h : Serves id stored arc s)
    (hsteps : (cacheRuns τ π display).Steps s s') : s'.Inv ∧ Serves id stored arc s' := by
  refine hsteps.invariant (I := fun s => s.Inv ∧ Serves id stored arc s) ?_ ⟨hinv, h⟩
  rintro op s s' ⟨hinv, h⟩ ⟨hallowed, rfl⟩
  exact ⟨inv_run hinv, serves_run hinv hallowed h⟩

theorem inv_reachable (h : (cacheRuns τ π display).Reachable s) : s.Inv := by
  refine h.induct ?_ ?_
  · rintro s ⟨hdecoded, hsound, hsurvivors⟩
    refine ⟨?_, hsound, ?_, ?_⟩
    · simp [hdecoded, DecodedCheckpoints.new]
    · simp [hdecoded, DecodedCheckpoints.KeysNodup, DecodedCheckpoints.new]
    · simp [hdecoded, hsurvivors, DecodedCheckpoints.new]
  · rintro op s s' hinv ⟨-, rfl⟩
    exact inv_run hinv

/-- What a reader gets while the checkpoint that is served lives. -/
theorem read (hinv : s.Inv) (h : Serves id stored arc s) (hlive : s.heap.Live arc)
    (hreads : op.reads? = some (id, record)) : (op.run display s).1 =
      if record = stored then .returned (some arc) else .failed (conflictError display id) := by
  cases op with
  | cached record => cases hreads; exact h.read_cached hinv hlive
  | cache record checkpoint => cases hreads; exact h.read_cache hinv hlive
  | new checkpoint => cases hreads
  | clone handle => cases hreads
  | drop handle => cases hreads

theorem serves_of_returned (hinv : s.Inv) (hallowed : op.Allowed s.heap)
    (hreads : op.reads? = some (id, record))
    (h : (op.run display s).1 = .returned (some arc)) :
    s.heap.Live arc ∧ Serves id record arc (op.run display s).2 := by
  cases op with
  | cached record => cases hreads; exact serves_of_cached hinv h
  | cache record checkpoint => cases hreads; exact serves_of_cache hinv hallowed h
  | new checkpoint => cases hreads
  | clone handle => cases hreads
  | drop handle => cases hreads

theorem not_panicked (hinv : s.Inv) : (op.run display s).1 ≠ .panicked := by
  intro h
  cases op with
  | cached record =>
    rcases cached_cases display record hinv.sound with
      hc | ⟨_, _, _, hc⟩ | ⟨_, _, _, _, hc⟩ <;>
      rw [run, hc] at h <;> cases h
  | cache record checkpoint =>
    obtain ⟨_, _, hc⟩ :=
      cache_cases display record checkpoint hinv
    rcases hc with ⟨_, hc⟩ | ⟨_, _, _, hc⟩ | ⟨_, _, _, _, hc⟩ <;> rw [run, hc] at h <;> cases h
  | new checkpoint => cases h
  | clone handle => cases h
  | drop handle => cases h

/-- A call fails on a conflict only, and a conflict is one. -/
theorem conflict (hinv : s.Inv) {error : SourceError} (hreads : op.reads? = some (id, record))
    (h : (op.run display s).1 = .failed error) : error = conflictError display id ∧
      ∃ stored arc, s.decoded.get? id = some (stored, arc) ∧ stored ≠ record := by
  cases op with
  | cached record =>
    cases hreads
    rcases cached_cases display record hinv.sound with
      hc | ⟨_, _, _, hc⟩ | ⟨stored, arc, hget, hne, hc⟩
    · rw [run, hc] at h
      cases h
    · rw [run, hc] at h
      cases h
    · rw [run, hc] at h
      cases h
      exact ⟨rfl, stored, arc, hget, hne⟩
  | cache record checkpoint =>
    cases hreads
    obtain ⟨decoded, hdecoded, hc⟩ :=
      cache_cases display record checkpoint hinv
    rcases hc with ⟨_, hc⟩ | ⟨_, _, _, hc⟩ | ⟨stored, arc, hget, hne, hc⟩
    · rw [run, hc] at h
      cases h
    · rw [run, hc] at h
      cases h
    · rw [run, hc] at h
      cases h
      exact ⟨rfl, stored, arc,
        DecodedCheckpoints.get?_of_removeExpired hinv.keys hdecoded hget, hne⟩
  | new checkpoint => cases hreads
  | clone handle => cases hreads
  | drop handle => cases hreads

end CacheOp

/-- The laws of the cache, in one state of a run. -/
structure CacheLaws (display : CheckpointId → String) (s : CacheState τ π) : Prop where
  /-- The counter can be decremented, and no call panics. -/
  counted : 1 ≤ s.decoded.insertionsUntilCleanup ∧
    ∀ op : CacheOp τ π, (op.run display s).1 ≠ .panicked
  bounded : s.decoded.entries.length ≤ s.survivors + max 64 s.survivors
  /-- What is returned lives. While it does, all who read its identifier later get it, or come with
  a record that differs from the one it was read with. -/
  served : ∀ (op : CacheOp τ π) id record arc, op.Allowed s.heap → op.reads? = some (id, record) →
    (op.run display s).1 = .returned (some arc) → s.heap.Live arc ∧
    ∀ s', (cacheRuns τ π display).Steps (op.run display s).2 s' → s'.heap.Live arc →
      ∀ (op' : CacheOp τ π) record', op'.reads? = some (id, record') → (op'.run display s').1 =
        if record' = record then .returned (some arc)
        else .failed (CacheState.conflictError display id)
  /-- A call fails on a conflict only, and the record that is kept differs from its own. -/
  conflicts : ∀ (op : CacheOp τ π) id record error, op.reads? = some (id, record) →
    (op.run display s).1 = .failed error → error = CacheState.conflictError display id ∧
      ∃ stored arc, s.decoded.get? id = some (stored, arc) ∧ stored ≠ record

/-- Every run of the cache keeps its laws. -/
theorem decoded_cache {display : CheckpointId → String} {s : CacheState τ π}
    (h : (cacheRuns τ π display).Reachable s) : CacheLaws display s := by
  have hinv := CacheOp.inv_reachable h
  refine ⟨⟨hinv.counted, fun op => CacheOp.not_panicked hinv⟩, ?_, ?_, ?_⟩
  · have hcounted := hinv.counted
    have hroom := hinv.room
    omega
  · intro op id record arc hallowed hreads hreturned
    obtain ⟨hlive, hserves⟩ := CacheOp.serves_of_returned hinv hallowed hreads hreturned
    refine ⟨hlive, fun s' hsteps hlive' op' record' hreads' => ?_⟩
    obtain ⟨hinv', hserves'⟩ := CacheOp.serves_steps (CacheOp.inv_run hinv) hserves hsteps
    exact CacheOp.read hinv' hserves' hlive' hreads'
  · intro op id record error hreads hfailed
    exact CacheOp.conflict hinv hreads hfailed

/-- A completed checkpoint without a state. -/
def finishedRecord : CheckpointRecord where
  formatVersion := CheckpointFormatVersion.CURRENT
  checkpointId := ⟨⟨1⟩⟩
  threadId := ⟨"t"⟩
  runId := ⟨⟨0⟩⟩
  parentId := none
  graphVersion := none
  superstep := 1
  step := 1
  snapshot := ⟨⟨"unit", 1, "json"⟩, []⟩
  nextFrontier := []
  completed := true
  interrupt := none
  sound := rfl

def finished : Checkpoint Unit Unit where
  id := finishedRecord.checkpointId
  threadId := finishedRecord.threadId
  runId := finishedRecord.runId
  parentId := none
  graphVersion := none
  superstep := 1
  step := 1
  snapshot := ()
  nextFrontier := []
  completed := true
  interrupt := none

/-- The handle of the checkpoint. -/
def handle : Arc (Checkpoint Unit Unit) := ⟨0, finished⟩

/-- The states of the cache while the checkpoint is made, cached, read again and dropped twice. -/
def afterNew : CacheState Unit Unit := ⟨.new, false, ⟨[1]⟩, 0⟩

def filled : CacheState Unit Unit := ((CacheOp.cache finishedRecord handle).run (fun _ => "1") afterNew).2

def reread : CacheState Unit Unit := ((CacheOp.cached finishedRecord).run (fun _ => "1") filled).2

def dropped : CacheState Unit Unit :=
  ((CacheOp.drop handle).run (fun _ => "1") ((CacheOp.drop handle).run (fun _ => "1") reread).2).2

theorem filled_reachable : (cacheRuns Unit Unit fun _ => "1").Reachable filled := by
  let empty : CacheState Unit Unit := ⟨.new, false, ⟨[]⟩, 0⟩
  have hnew : (cacheRuns Unit Unit fun _ => "1").Steps empty afterNew :=
    .tail (.refl empty) (l := .new finished) ⟨trivial, rfl⟩
  exact ⟨empty, ⟨rfl, rfl, rfl⟩, .tail hnew (l := .cache finishedRecord handle) ⟨Nat.one_pos, rfl⟩⟩

theorem reread_reachable : (cacheRuns Unit Unit fun _ => "1").Reachable reread := by
  obtain ⟨empty, hempty, hsteps⟩ := filled_reachable
  exact ⟨empty, hempty, .tail hsteps (l := .cached finishedRecord) ⟨trivial, rfl⟩⟩

theorem dropped_reachable : (cacheRuns Unit Unit fun _ => "1").Reachable dropped := by
  obtain ⟨empty, hempty, hsteps⟩ := reread_reachable
  have hone : (cacheRuns Unit Unit fun _ => "1").Steps empty
      ((CacheOp.drop handle).run (fun _ => "1") reread).2 :=
    .tail hsteps (l := .drop handle) ⟨Nat.two_pos, rfl⟩
  exact ⟨empty, hempty, .tail hone (l := .drop handle) ⟨Nat.one_pos, rfl⟩⟩

/-- A checkpoint is cached, read again while it lives, and no longer once its handles are dropped. -/
theorem decoded_cache_reread :
    ((CacheOp.cached finishedRecord).run (fun _ => "1") filled).1 = .returned (some handle) ∧
      ((CacheOp.cached finishedRecord).run (fun _ => "1") dropped).1 = .returned none ∧
      dropped.decoded.entries.length = 1 ∧
      CacheLaws (fun _ => "1") filled ∧ CacheLaws (fun _ => "1") reread ∧
      CacheLaws (fun _ => "1") dropped :=
  ⟨rfl, rfl, rfl, decoded_cache filled_reachable,
    decoded_cache reread_reachable, decoded_cache dropped_reachable⟩

end GroupAgent.Core
