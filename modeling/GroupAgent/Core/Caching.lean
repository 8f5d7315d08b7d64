import GroupAgent.Core.Decoded
import GroupAgent.Core.Serial

/-!
# The checkpointer with its cache

`RecordCheckpointer` (`checkpoint.rs:1320-1327`, its cache and conversions 1378-1440) of
`crates/group-agent-core/src` with the cache of `Decoded`, as an instance of the checkpointer of
`Backed`, where the two calls on the cache are fields.

* `ReachedCache`: a cache that some run of calls has come to. It stands beside the world.
* `RecordCheckpointer.caching`: `cached` and `cache` are those of `CacheState`. `Arc::new` of a
  checkpoint that is to be cached is a step before the call. Before each reading any run of other
  calls, clones and drops may take place (`lapse`).

Results:
* `filed_reachable`: an entry is filed under the identifier of its checkpoint.
* **`caching_keeps`**: what is remembered of a record has its identifier, which is what `Serial`
  asks of a checkpointer.

Out of scope: the lock around the map, which no modelled call holds while it calls another. A call
that panics is none: `CacheOp.not_panicked`.
-/

namespace GroupAgent.Core

open GroupAgent.Lib

variable {τ π : Type} {display : CheckpointId → String}

/-! ## A cache in use -/

/-- Every entry is under the identifier of its checkpoint. -/
def CacheState.Filed (s : CacheState τ π) : Prop :=
  ∀ entry ∈ s.decoded.entries, entry.2.2.value.id = entry.1

namespace CacheState

variable {s : CacheState τ π} {decoded : DecodedCheckpoints τ π}

theorem Filed.removeExpired (h : s.Filed) (hdecoded : s.decoded.removeExpired s.heap = some decoded) :
    ∀ entry ∈ decoded.entries, entry.2.2.value.id = entry.1 := by
  rcases DecodedCheckpoints.removeExpired_cases hdecoded with ⟨-, rfl⟩ | ⟨-, rfl⟩
  · exact h
  · exact fun entry hentry => h entry (List.mem_of_mem_filter hentry)

theorem Filed.run (hinv : s.Inv) (h : s.Filed) (op : CacheOp τ π) : (op.run display s).2.Filed := by
  cases op with
  | cached record =>
    show (s.cached display record).2.Filed
    rcases cached_cases display record hinv.sound with hc | ⟨arc, -, -, hc⟩ | ⟨_, _, -, -, hc⟩ <;>
      rw [hc] <;> exact h
  | cache record checkpoint =>
    show (s.cache display record checkpoint).2.Filed
    obtain ⟨decoded, hdecoded, hc⟩ := cache_cases display record checkpoint hinv
    have hkept := h.removeExpired hdecoded
    rcases hc with ⟨-, hc⟩ | ⟨arc, -, -, hc⟩ | ⟨_, _, -, -, hc⟩
    · rw [hc]
      intro entry hentry
      rcases List.mem_append.mp hentry with hentry | hentry
      · exact hkept entry (List.mem_of_mem_filter hentry)
      · rw [List.mem_singleton.mp hentry]
    · rw [hc]
      exact hkept
    · rw [hc]
      exact hkept
  | new checkpoint => exact h
  | clone handle => exact h
  | drop handle => exact h

theorem filed_reachable (h : (cacheRuns τ π display).Reachable s) : s.Inv ∧ s.Filed := by
  refine h.induct (I := fun s => s.Inv ∧ s.Filed) ?_ ?_
  · rintro s hinit
    refine ⟨CacheOp.inv_reachable ⟨s, hinit, .refl s⟩, fun entry hentry => ?_⟩
    rw [hinit.1] at hentry
    cases hentry
  · rintro op s s' ⟨hinv, hfiled⟩ ⟨-, rfl⟩
    exact ⟨CacheOp.inv_run hinv, hfiled.run hinv op⟩

theorem Filed.get? (hinv : s.Inv) (h : s.Filed) {id : CheckpointId} {record : CheckpointRecord}
    {arc : Arc (Checkpoint τ π)} (hget : s.decoded.get? id = some (record, arc)) :
    arc.value.id = id :=
  h _ ((DecodedCheckpoints.get?_eq_some hinv.keys).mp hget)

end CacheState

/-- A cache that some run has come to. -/
structure ReachedCache (τ π : Type) (display : CheckpointId → String) where
  state : CacheState τ π
  reached : (cacheRuns τ π display).Reachable state

namespace ReachedCache

variable (self : ReachedCache τ π display)

/-- The cache after one more call, or after a handle was made, cloned or dropped. -/
def after (op : CacheOp τ π) (h : op.Allowed self.state.heap) : ReachedCache τ π display where
  state := (op.run display self.state).2
  reached := by
    obtain ⟨s, hinit, hsteps⟩ := self.reached
    exact ⟨s, hinit, hsteps.tail ⟨h, rfl⟩⟩

/-- The cache after any more of its run. -/
def later (s : CacheState τ π) (h : (cacheRuns τ π display).Steps self.state s) :
    ReachedCache τ π display where
  state := s
  reached := by
    refine h.invariant (I := (cacheRuns τ π display).Reachable) ?_ self.reached
    rintro op s s' ⟨s₀, hinit, hsteps⟩ hstep
    exact ⟨s₀, hinit, hsteps.tail hstep⟩

theorem inv : self.state.Inv := (CacheState.filed_reachable self.reached).1

theorem filed : self.state.Filed := (CacheState.filed_reachable self.reached).2

theorem cached_ne_panicked (record : CheckpointRecord) :
    (self.state.cached display record).1 ≠ .panicked := by
  have h : ((CacheOp.cached record).run display self.state).1 ≠ .panicked :=
    CacheOp.not_panicked self.inv
  exact h

theorem cache_ne_panicked (record : CheckpointRecord) (checkpoint : Arc (Checkpoint τ π)) :
    (self.state.cache display record checkpoint).1 ≠ .panicked := by
  have h : ((CacheOp.cache record checkpoint).run display self.state).1 ≠ .panicked :=
    CacheOp.not_panicked self.inv
  exact h

/-- What a reading of the cache comes to. -/
def read (record : CheckpointRecord) : Except SourceError (Option (Checkpoint τ π)) :=
  match h : (self.state.cached display record).1 with
  | .returned arc => .ok (arc.map Arc.value)
  | .failed error => .error error
  | .panicked => (self.cached_ne_panicked record h).elim

/-- `Arc::new`, of a checkpoint that is to be cached. -/
def made (checkpoint : Checkpoint τ π) : ReachedCache τ π display :=
  self.after (.new checkpoint) trivial

/-- The handle it gives. -/
def handle (checkpoint : Checkpoint τ π) : Arc (Checkpoint τ π) :=
  (self.state.heap.new checkpoint).1

theorem handle_allowed (record : CheckpointRecord) (checkpoint : Checkpoint τ π) :
    (CacheOp.cache record (self.handle checkpoint)).Allowed (self.made checkpoint).state.heap := by
  show StrongCounts.Live (self.state.heap.new checkpoint).2 (self.state.heap.new checkpoint).1
  simp [StrongCounts.Live, StrongCounts.strongCount, StrongCounts.new]

/-- What caching a checkpoint comes to. -/
def keep (record : CheckpointRecord) (checkpoint : Checkpoint τ π) :
    Except SourceError (Checkpoint τ π) :=
  match h : ((self.made checkpoint).state.cache display record (self.handle checkpoint)).1 with
  | .returned arc => .ok ((arc.getD (self.handle checkpoint)).value)
  | .failed error => .error error
  | .panicked => ((self.made checkpoint).cache_ne_panicked record (self.handle checkpoint) h).elim

variable {self} {record : CheckpointRecord} {checkpoint : Checkpoint τ π}

theorem read_id (h : self.read record = .ok (some checkpoint)) :
    checkpoint.id = record.checkpointId := by
  unfold read at h
  split at h
  · rename_i arc hreply
    obtain ⟨arc, rfl, rfl⟩ := Option.map_eq_some_iff.mp (Except.ok.inj h)
    rcases CacheState.cached_cases display record self.inv.sound with
      hc | ⟨arc', hget, -, hc⟩ | ⟨_, _, -, -, hc⟩
    · rw [hc] at hreply
      cases hreply
    · rw [hc] at hreply
      cases hreply
      exact self.filed.get? self.inv hget
    · rw [hc] at hreply
      cases hreply
  · cases h
  · rename_i hreply
    exact (self.cached_ne_panicked record hreply).elim

variable {decoded : Checkpoint τ π}

theorem keep_id (h : self.keep record decoded = .ok checkpoint) : checkpoint.id = decoded.id := by
  unfold keep at h
  have hinv := (self.made decoded).inv
  split at h
  · rename_i arc hreply
    cases h
    obtain ⟨kept, hdecoded, hc⟩ :=
      CacheState.cache_cases display record (self.handle decoded) hinv
    rcases hc with ⟨-, hc⟩ | ⟨arc', hget, -, hc⟩ | ⟨_, _, -, -, hc⟩
    · rw [hc] at hreply
      cases hreply
      rfl
    · rw [hc] at hreply
      cases hreply
      exact (self.made decoded).filed.get? hinv
        (DecodedCheckpoints.get?_of_removeExpired hinv.keys hdecoded hget)
    · rw [hc] at hreply
      cases hreply
  · cases h
  · rename_i hreply
    exact ((self.made decoded).cache_ne_panicked record (self.handle decoded) hreply).elim

end ReachedCache

/-! ## The checkpointer -/

namespace RecordCheckpointer

variable {ν ρ : Type} {E : Env ν ρ}

/-- The checkpointer with its cache. What happens to the cache and to its handles between two calls
is any run of it. -/
def caching (codec : CheckpointCodec E.Snapshot E.Value) (display : CheckpointId → String)
    (lapse : (w : E.World) → (s : ReachedCache E.Snapshot E.Value display) →
      { s' : CacheState E.Snapshot E.Value // (cacheRuns _ _ display).Steps s.state s' }) :
    RecordCheckpointer (E.beside (ReachedCache E.Snapshot E.Value display)) where
  codec
  display
  cached record w :=
    let s := w.2.later (lapse w.1 w.2).1 (lapse w.1 w.2).2
    (s.read record, (w.1, s.after (.cached record) trivial))
  cache record checkpoint w :=
    (w.2.keep record checkpoint, (w.1, (w.2.made checkpoint).after
      (.cache record (w.2.handle checkpoint)) (w.2.handle_allowed record checkpoint)))

variable {codec : CheckpointCodec E.Snapshot E.Value} {display : CheckpointId → String}
  {lapse : (w : E.World) → (s : ReachedCache E.Snapshot E.Value display) →
    { s' : CacheState E.Snapshot E.Value // (cacheRuns _ _ display).Steps s.state s' }}

/-- **What is remembered of a record has its identifier.** -/
theorem caching_keeps : (caching codec display lapse).Keeps := by
  intro record decoded w chk h hid
  unfold remember caching at h
  simp only at h
  generalize w.2.later _ (lapse w.1 w.2).2 = s at h
  cases hread : s.read record with
  | error error =>
    rw [hread] at h
    cases h
  | ok found =>
    rw [hread] at h
    cases found with
    | some checkpoint =>
      cases h
      exact s.read_id hread
    | none =>
      exact (ReachedCache.keep_id h).trans hid

end RecordCheckpointer

end GroupAgent.Core
