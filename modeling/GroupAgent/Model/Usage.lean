import GroupAgent.Lib.Method
import GroupAgent.Model.Response

/-!
# Merging usage snapshots

`TokenUsage::merge_snapshot` (`response.rs:188-210`, with `merge_counter` 411-427 and `validate`
212-239 of `crates/group-agent-model/src`) changes the usage it is called on. `mergeInPlace` is
that method with its assignments where the source has them.

* `TokenCounts.validate_iff`: what a consistent total is, as sums of numbers.
* `checkMerge_iff`: which snapshots pass the checks.
* `mergeInPlace_on`: nothing is assigned before the last check.
* `mergeInPlace_mergeSnapshot`: the method agrees with `mergeSnapshot`. `mergeSnapshot_ok`: when a
  merge succeeds, and with what.

Results: **`usage_merging`**: what a snapshot does after any sequence of snapshots, accepted or
not. A rejected one leaves the usage as it was.

Counters are `u64`. A sum of the two that overflows is an error of its own, before any total is
compared with it.
-/

namespace GroupAgent.Model

open GroupAgent.Lib

/-! ## Counters -/

/-- The later of two counters, where both are known, is not the smaller. -/
def NotDecreasing (previous current : Option UInt64) : Prop :=
  ∀ a ∈ previous, ∀ b ∈ current, a ≤ b

theorem mergeCounter_iff {field : String} {previous current r : Option UInt64} :
    mergeCounter field previous current = .ok r ↔
      NotDecreasing previous current ∧ r = current.or previous := by
  cases current with
  | none =>
    cases previous with
    | none => exact ⟨fun h => ⟨nofun, (Except.ok.inj h).symm⟩, fun h => congrArg Except.ok h.2.symm⟩
    | some a =>
      exact ⟨fun h => ⟨fun _ _ => nofun, (Except.ok.inj h).symm⟩, fun h => congrArg Except.ok h.2.symm⟩
  | some b =>
    cases previous with
    | none => exact ⟨fun h => ⟨nofun, (Except.ok.inj h).symm⟩, fun h => congrArg Except.ok h.2.symm⟩
    | some a =>
      have hle : NotDecreasing (some a) (some b) ↔ ¬b < a := by
        rw [UInt64.not_lt]
        exact ⟨fun h => h a rfl b rfl, fun h x hx y hy => Option.some.inj hx ▸ Option.some.inj hy ▸ h⟩
      unfold mergeCounter
      simp only
      by_cases h : b < a
      · simp [h, hle]
      · simp [h, hle, eq_comm]

theorem mergeCounter_ok {field : String} {previous current : Option UInt64}
    (h : NotDecreasing previous current) :
    mergeCounter field previous current = .ok (current.or previous) :=
  mergeCounter_iff.mpr ⟨h, rfl⟩

/-- A merged counter is known where it was, and not smaller. -/
theorem le_merged {previous current : Option UInt64} (h : NotDecreasing previous current) {a : UInt64}
    (ha : previous = some a) : ∃ b, current.or previous = some b ∧ a ≤ b := by
  cases current with
  | none => exact ⟨a, ha, UInt64.le_refl a⟩
  | some b => exact ⟨b, rfl, h a ha b rfl⟩

/-! ## Totals -/

/-- The counters fit together: input and output add up without overflow, and a total that is known
is at least each of them, and their sum. -/
structure TokenCounts.Consistent (counts : TokenCounts) : Prop where
  sum : ∀ i ∈ counts.inputTokens, ∀ o ∈ counts.outputTokens, i.toNat + o.toNat < 2 ^ 64
  input : ∀ t ∈ counts.totalTokens, ∀ i ∈ counts.inputTokens, i ≤ t
  output : ∀ t ∈ counts.totalTokens, ∀ o ∈ counts.outputTokens, o ≤ t
  total : ∀ t ∈ counts.totalTokens, ∀ i ∈ counts.inputTokens, ∀ o ∈ counts.outputTokens,
    i.toNat + o.toNat ≤ t.toNat

/-- A checked sum is at most a number exactly when the numbers add up to at most it. -/
theorem not_lt_add {a b t : UInt64} (h : a.toNat + b.toNat < 2 ^ 64) :
    ¬t < a + b ↔ a.toNat + b.toNat ≤ t.toNat := by
  rw [UInt64.not_lt, UInt64.le_iff_toNat_le, UInt64.toNat_add, Nat.mod_eq_of_lt h]

theorem checkedComputedTotal_iff {self : TokenCounts} {computed : Option UInt64} :
    self.checkedComputedTotal = .ok computed ↔
      (∀ i ∈ self.inputTokens, ∀ o ∈ self.outputTokens, i.toNat + o.toNat < 2 ^ 64) ∧
        computed = self.inputTokens.bind fun i => self.outputTokens.map fun o => i + o := by
  obtain ⟨input, output, total⟩ := self
  unfold TokenCounts.checkedComputedTotal checkedAdd
  cases input with
  | none => simp [eq_comm]
  | some i =>
    cases output with
    | none => simp [eq_comm]
    | some o =>
      by_cases h : i.toNat + o.toNat < 2 ^ 64
      · simp only [if_pos h]
        simp only [Nat.reducePow] at h
        simp [h, eq_comm]
      · simp only [if_neg h]
        simp at h ⊢
        omega

/-- The checks of a total `t` against the components and their sum. -/
theorem total_checks_iff {input output : Option UInt64} {t : UInt64}
    (hsum : ∀ i ∈ input, ∀ o ∈ output, i.toNat + o.toNat < 2 ^ 64) :
    ¬t < (((input.bind fun i => output.map fun o => i + o).or input).or output).getD 0 ∧
        (input.any (t < ·) || output.any (t < ·)) = false ↔
      (∀ i ∈ input, i ≤ t) ∧ (∀ o ∈ output, o ≤ t) ∧
        ∀ i ∈ input, ∀ o ∈ output, i.toNat + o.toNat ≤ t.toNat := by
  cases input with
  | none => cases output <;> simp
  | some i =>
    cases output with
    | none => simp
    | some o =>
      have hadd := not_lt_add (hsum i rfl o rfl) (t := t)
      simp [hadd]
      tauto

theorem TokenCounts.validate_iff {self : TokenCounts} : self.validate = .ok () ↔ self.Consistent := by
  obtain ⟨input, output, total⟩ := self
  unfold TokenCounts.validate
  cases total with
  | none =>
    rw [bind_eq_ok]
    constructor
    · rintro ⟨computed, hcomputed, -⟩
      exact ⟨(checkedComputedTotal_iff.mp hcomputed).1, nofun, nofun, nofun⟩
    · intro h
      exact ⟨_, checkedComputedTotal_iff.mpr ⟨h.sum, rfl⟩, rfl⟩
  | some t =>
    rw [bind_eq_ok]
    constructor
    · rintro ⟨computed, hcomputed, h⟩
      obtain ⟨hsum, rfl⟩ := checkedComputedTotal_iff.mp hcomputed
      simp only at h
      split at h
      · cases h
      rename_i hlower
      split at h
      · cases h
      rename_i hany
      obtain ⟨hinput, houtput, htotal⟩ :=
        (total_checks_iff hsum).mp ⟨hlower, Bool.eq_false_iff.mpr hany⟩
      refine ⟨hsum, ?_, ?_, ?_⟩
      · rintro _ ⟨⟩
        exact hinput
      · rintro _ ⟨⟩
        exact houtput
      · rintro _ ⟨⟩
        exact htotal
    · intro h
      have hchecks := (total_checks_iff h.sum).mpr ⟨h.input t rfl, h.output t rfl, h.total t rfl⟩
      refine ⟨_, checkedComputedTotal_iff.mpr ⟨h.sum, rfl⟩, ?_⟩
      simp only [if_neg hchecks.1, hchecks.2]
      rfl

/-! ## In place -/

/-- The counters once a snapshot is taken over. -/
def TokenCounts.updated (counts snapshot : TokenCounts) : TokenCounts where
  inputTokens := snapshot.inputTokens.or counts.inputTokens
  outputTokens := snapshot.outputTokens.or counts.outputTokens
  totalTokens := snapshot.totalTokens.or counts.totalTokens

/-- The fields of a usage, as its methods assign them. -/
structure UsageFields extends TokenCounts where
  extensions : Extensions

def TokenUsage.fields (self : TokenUsage) : UsageFields := ⟨self.toTokenCounts, self.extensions⟩

namespace UsageFields

open Method in
/-- Merge a cumulative snapshot, with the checks and the assignments in their order. -/
def mergeInPlace (snapshot : TokenUsage) : Method TokenUsageError UsageFields Unit := do
  let self ← get
  let inputTokens ← raise (mergeCounter "input_tokens" self.inputTokens snapshot.inputTokens)
  let outputTokens ← raise (mergeCounter "output_tokens" self.outputTokens snapshot.outputTokens)
  let totalTokens ← raise (mergeCounter "total_tokens" self.totalTokens snapshot.totalTokens)
  raise (TokenCounts.validate ⟨inputTokens, outputTokens, totalTokens⟩)
  let _ ← raise ((self.extensions.validateIdempotentMerge snapshot.extensions).mapError
    .extensionConflict)
  modify fun self => { self with inputTokens }
  modify fun self => { self with outputTokens }
  modify fun self => { self with totalTokens }
  modify fun self =>
    { self with extensions := self.extensions.commitIdempotentMerge snapshot.extensions }

/-- The fields once a snapshot is taken over. -/
def updated (self : UsageFields) (snapshot : TokenUsage) : UsageFields :=
  ⟨self.toTokenCounts.updated snapshot.toTokenCounts,
    self.extensions.commitIdempotentMerge snapshot.extensions⟩

/-- A snapshot that can be merged: no counter decreases, the merged counters fit together, and no
extension conflicts with one that is stored. -/
structure Mergeable (fields : UsageFields) (snapshot : TokenUsage) : Prop where
  input : NotDecreasing fields.inputTokens snapshot.inputTokens
  output : NotDecreasing fields.outputTokens snapshot.outputTokens
  total : NotDecreasing fields.totalTokens snapshot.totalTokens
  consistent : (fields.updated snapshot).Consistent
  extensions : ∀ key existing value, fields.extensions.get? key = some existing →
    snapshot.extensions.get? key = some value → existing.eq value = true

/-- The checks of a merge. -/
def checkMerge (self : UsageFields) (snapshot : TokenUsage) : Except TokenUsageError Unit := do
  let inputTokens ← mergeCounter "input_tokens" self.inputTokens snapshot.inputTokens
  let outputTokens ← mergeCounter "output_tokens" self.outputTokens snapshot.outputTokens
  let totalTokens ← mergeCounter "total_tokens" self.totalTokens snapshot.totalTokens
  TokenCounts.validate ⟨inputTokens, outputTokens, totalTokens⟩
  let _ ← (self.extensions.validateIdempotentMerge snapshot.extensions).mapError .extensionConflict
  pure ()

theorem checkMerge_iff {self : UsageFields} {snapshot : TokenUsage} :
    self.checkMerge snapshot = .ok () ↔ self.Mergeable snapshot := by
  unfold checkMerge
  constructor
  · intro h
    obtain ⟨_, hinput, h⟩ := bind_eq_ok.mp h
    obtain ⟨_, houtput, h⟩ := bind_eq_ok.mp h
    obtain ⟨_, htotal, h⟩ := bind_eq_ok.mp h
    obtain ⟨_, hvalid, h⟩ := bind_eq_ok.mp h
    obtain ⟨n, hextensions, -⟩ := bind_eq_ok.mp h
    obtain ⟨hin, rfl⟩ := mergeCounter_iff.mp hinput
    obtain ⟨hout, rfl⟩ := mergeCounter_iff.mp houtput
    obtain ⟨htot, rfl⟩ := mergeCounter_iff.mp htotal
    exact ⟨hin, hout, htot, TokenCounts.validate_iff.mp hvalid,
      Extensions.validate_iff.mp ⟨n, mapError_eq_ok.mp hextensions⟩⟩
  · intro h
    obtain ⟨n, hn⟩ := Extensions.validate_iff.mpr h.extensions
    rw [mergeCounter_ok h.input, mergeCounter_ok h.output, mergeCounter_ok h.total]
    simp only [ok_bind]
    exact bind_eq_ok.mpr ⟨(), TokenCounts.validate_iff.mpr h.consistent,
      bind_eq_ok.mpr ⟨n, mapError_eq_ok.mpr hn, rfl⟩⟩

/-- Nothing is assigned before the last check, and everything after it. -/
theorem mergeInPlace_on (self : UsageFields) (snapshot : TokenUsage) :
    (mergeInPlace snapshot).on self = match self.checkMerge snapshot with
      | .ok () => (.ok (), self.updated snapshot)
      | .error error => (.error error, self) := by
  unfold mergeInPlace checkMerge
  rw [Method.on_get_bind, Method.on_raise_bind]
  cases hinput : mergeCounter "input_tokens" self.inputTokens snapshot.inputTokens with
  | error error => rfl
  | ok inputTokens =>
  simp only [ok_bind]
  rw [Method.on_raise_bind]
  cases houtput : mergeCounter "output_tokens" self.outputTokens snapshot.outputTokens with
  | error error => rfl
  | ok outputTokens =>
  simp only [ok_bind]
  rw [Method.on_raise_bind]
  cases htotal : mergeCounter "total_tokens" self.totalTokens snapshot.totalTokens with
  | error error => rfl
  | ok totalTokens =>
  simp only [ok_bind]
  rw [Method.on_raise_bind]
  cases TokenCounts.validate ⟨inputTokens, outputTokens, totalTokens⟩ with
  | error error => rfl
  | ok _ =>
  simp only [ok_bind]
  rw [Method.on_raise_bind]
  cases self.extensions.validateIdempotentMerge snapshot.extensions with
  | error error => rfl
  | ok _ =>
  obtain ⟨-, rfl⟩ := mergeCounter_iff.mp hinput
  obtain ⟨-, rfl⟩ := mergeCounter_iff.mp houtput
  obtain ⟨-, rfl⟩ := mergeCounter_iff.mp htotal
  rfl

/-! ## Over any sequence of snapshots -/

/-- The fields after snapshots, merged one after the other, each accepted or rejected. -/
def mergeAll (snapshots : List TokenUsage) (self : UsageFields) : UsageFields :=
  snapshots.foldl (fun self snapshot => ((mergeInPlace snapshot).on self).2) self

/-- The snapshots among these that are accepted, in order. -/
def accepted (self : UsageFields) : List TokenUsage → List TokenUsage
  | [] => []
  | snapshot :: rest =>
    match (mergeInPlace snapshot).on self with
    | (.ok (), merged) => snapshot :: accepted merged rest
    | (.error _, same) => accepted same rest

/-- The counters of a usage. -/
def counters : List (TokenCounts → Option UInt64) :=
  [TokenCounts.inputTokens, TokenCounts.outputTokens, TokenCounts.totalTokens]

/-- The value that was supplied last for a counter. -/
def lastSupplied (counter : TokenCounts → Option UInt64) (usages : List TokenUsage) : Option UInt64 :=
  (usages.filterMap fun usage => counter usage.toTokenCounts).getLast?

/-- What one merge does. -/
structure MergeLaw (snapshot : TokenUsage) (before : UsageFields)
    (answer : Except TokenUsageError Unit × UsageFields) : Prop where
  accepts : answer.1 = .ok () ↔ before.Mergeable snapshot
  merged : answer.1 = .ok () → answer.2 = before.updated snapshot
  grows : answer.1 = .ok () → ∀ counter ∈ counters, ∀ a, counter before.toTokenCounts = some a →
    ∃ b, counter answer.2.toTokenCounts = some b ∧ a ≤ b
  consistent : answer.2.Consistent
  rejected : answer.1 ≠ .ok () → answer.2 = before
  again : answer.1 = .ok () → (mergeInPlace snapshot).on answer.2 = (.ok (), answer.2)

section Laws

variable {self : UsageFields} {snapshot : TokenUsage}

theorem counter_updated : ∀ counter ∈ counters, ∀ counts snapshot : TokenCounts,
    counter (counts.updated snapshot) = (counter snapshot).or (counter counts) := by
  simp [counters, TokenCounts.updated]

theorem Mergeable.notDecreasing (h : self.Mergeable snapshot) : ∀ counter ∈ counters,
    NotDecreasing (counter self.toTokenCounts) (counter snapshot.toTokenCounts) := by
  simp only [counters, List.forall_mem_cons]
  exact ⟨h.input, h.output, h.total, nofun⟩

theorem notDecreasing_or (previous current : Option UInt64) :
    NotDecreasing (current.or previous) current := by
  cases current with
  | none => exact fun _ _ => nofun
  | some b => exact fun a ha c hc => Option.some.inj ha ▸ Option.some.inj hc ▸ UInt64.le_refl b

@[simp] theorem updated_twice (self : UsageFields) (snapshot : TokenUsage) :
    (self.updated snapshot).updated snapshot = self.updated snapshot := by
  have hor : ∀ a b : Option UInt64, a.or (a.or b) = a.or b := fun a b => by cases a <;> rfl
  unfold updated TokenCounts.updated
  simp only [hor]
  congr 1
  ext1 key
  simp only [Extensions.get?_commit]
  cases self.extensions.get? key <;> cases snapshot.extensions.get? key <;> rfl

/-- An accepted snapshot is accepted again. -/
theorem Mergeable.again (h : self.Mergeable snapshot) : (self.updated snapshot).Mergeable snapshot where
  input := notDecreasing_or _ _
  output := notDecreasing_or _ _
  total := notDecreasing_or _ _
  consistent := by
    rw [updated_twice]
    exact h.consistent
  extensions key existing value hexisting hvalue := by
    replace hexisting : (self.extensions.commitIdempotentMerge snapshot.extensions).get? key =
      some existing := hexisting
    rw [Extensions.get?_commit] at hexisting
    rcases Option.or_eq_some_iff.mp hexisting with hself | ⟨-, hsnapshot⟩
    · exact h.extensions key existing value hself hvalue
    · rw [hvalue] at hsnapshot
      cases hsnapshot
      exact existing.eq_refl

theorem on_of_mergeable (h : self.Mergeable snapshot) :
    (mergeInPlace snapshot).on self = (.ok (), self.updated snapshot) := by
  rw [mergeInPlace_on, checkMerge_iff.mpr h]

theorem on_of_not_mergeable (h : ¬self.Mergeable snapshot) :
    ∃ error, (mergeInPlace snapshot).on self = (.error error, self) := by
  rw [mergeInPlace_on]
  cases hcheck : self.checkMerge snapshot with
  | error error => exact ⟨error, rfl⟩
  | ok _ => exact absurd (checkMerge_iff.mp hcheck) h

/-- One merge, from fields that fit together. -/
theorem mergeLaw (hself : self.Consistent) (snapshot : TokenUsage) :
    MergeLaw snapshot self ((mergeInPlace snapshot).on self) := by
  by_cases h : self.Mergeable snapshot
  · rw [on_of_mergeable h]
    refine ⟨⟨fun _ => h, fun _ => rfl⟩, fun _ => rfl, fun _ counter hcounter a ha => ?_,
      h.consistent, fun hne => absurd rfl hne, fun _ => ?_⟩
    · rw [show (self.updated snapshot).toTokenCounts =
        self.toTokenCounts.updated snapshot.toTokenCounts from rfl, counter_updated counter hcounter]
      exact le_merged (h.notDecreasing counter hcounter) ha
    · rw [on_of_mergeable h.again, updated_twice]
  · obtain ⟨error, herror⟩ := on_of_not_mergeable h
    rw [herror]
    exact ⟨⟨nofun, fun hm => absurd hm h⟩, nofun, nofun, hself, fun _ => rfl, nofun⟩

/-- What has been merged fits together. -/
theorem consistent_mergeAll : ∀ (snapshots : List TokenUsage) {self : UsageFields}, self.Consistent →
    (mergeAll snapshots self).Consistent
  | [], _, h => h
  | snapshot :: rest, _, h => consistent_mergeAll rest (mergeLaw h snapshot).consistent

theorem lastSupplied_snoc (counter : TokenCounts → Option UInt64) (usages : List TokenUsage)
    (usage : TokenUsage) : lastSupplied counter (usages ++ [usage]) =
      (counter usage.toTokenCounts).or (lastSupplied counter usages) := by
  unfold lastSupplied
  rw [List.filterMap_append]
  cases h : counter usage.toTokenCounts with
  | none => simp [h]
  | some a => simp [h]

/-- Every counter is what an accepted snapshot supplied for it last. -/
theorem counter_mergeAll {counter : TokenCounts → Option UInt64} (hcounter : counter ∈ counters) :
    ∀ (snapshots supplied : List TokenUsage) {self : UsageFields},
      counter self.toTokenCounts = lastSupplied counter supplied →
      counter (mergeAll snapshots self).toTokenCounts =
        lastSupplied counter (supplied ++ accepted self snapshots)
  | [], supplied, self, h => by
    rw [accepted, List.append_nil]
    exact h
  | snapshot :: rest, supplied, self, h => by
    show counter (mergeAll rest ((mergeInPlace snapshot).on self).2).toTokenCounts = _
    by_cases hm : self.Mergeable snapshot
    · rw [accepted, on_of_mergeable hm]
      have hcounts : counter (self.updated snapshot).toTokenCounts =
          lastSupplied counter (supplied ++ [snapshot]) := by
        rw [lastSupplied_snoc, ← h]
        exact counter_updated counter hcounter _ _
      rw [counter_mergeAll hcounter rest _ hcounts, List.append_assoc]
      rfl
    · obtain ⟨error, herror⟩ := on_of_not_mergeable hm
      rw [accepted, herror]
      exact counter_mergeAll hcounter rest supplied h

end Laws

end UsageFields

theorem fromParts_ok {inputTokens outputTokens totalTokens : Option UInt64}
    (h : TokenCounts.validate ⟨inputTokens, outputTokens, totalTokens⟩ = .ok ()) :
    TokenUsage.fromParts inputTokens outputTokens totalTokens =
      .ok ⟨⟨inputTokens, outputTokens, totalTokens⟩, .empty, h⟩ := by
  unfold TokenUsage.fromParts
  split
  · rfl
  · rename_i error herror
    cases h.symm.trans herror

theorem fromParts_error {inputTokens outputTokens totalTokens : Option UInt64} {error : TokenUsageError}
    (h : TokenCounts.validate ⟨inputTokens, outputTokens, totalTokens⟩ = .error error) :
    TokenUsage.fromParts inputTokens outputTokens totalTokens = .error error := by
  unfold TokenUsage.fromParts
  split
  · rename_i hok
    cases h.symm.trans hok
  · rename_i error' herror
    cases h.symm.trans herror
    rfl

/-- The method agrees with the function that returns the merged usage. -/
theorem mergeInPlace_mergeSnapshot (usage snapshot : TokenUsage) :
    (UsageFields.mergeInPlace snapshot).on usage.fields = match usage.mergeSnapshot snapshot with
      | .ok merged => (.ok (), merged.fields)
      | .error error => (.error error, usage.fields) := by
  rw [UsageFields.mergeInPlace_on]
  unfold UsageFields.checkMerge TokenUsage.mergeSnapshot TokenUsage.fields
  cases hinput : mergeCounter "input_tokens" usage.inputTokens snapshot.inputTokens with
  | error error => rfl
  | ok inputTokens =>
  cases houtput : mergeCounter "output_tokens" usage.outputTokens snapshot.outputTokens with
  | error error => rfl
  | ok outputTokens =>
  cases htotal : mergeCounter "total_tokens" usage.totalTokens snapshot.totalTokens with
  | error error => rfl
  | ok totalTokens =>
  simp only [ok_bind]
  cases hvalid : TokenCounts.validate ⟨inputTokens, outputTokens, totalTokens⟩ with
  | error error =>
    rw [fromParts_error hvalid]
    rfl
  | ok _ =>
  rw [fromParts_ok hvalid]
  cases usage.extensions.validateIdempotentMerge snapshot.extensions with
  | error error => rfl
  | ok _ =>
  obtain ⟨-, rfl⟩ := mergeCounter_iff.mp hinput
  obtain ⟨-, rfl⟩ := mergeCounter_iff.mp houtput
  obtain ⟨-, rfl⟩ := mergeCounter_iff.mp htotal
  rfl

/-- A snapshot that can be merged is merged. -/
theorem TokenUsage.mergeSnapshot_ok {usage snapshot : TokenUsage}
    (h : usage.fields.Mergeable snapshot) : ∃ merged, usage.mergeSnapshot snapshot = .ok merged ∧
      merged.fields = usage.fields.updated snapshot := by
  have hmerge := mergeInPlace_mergeSnapshot usage snapshot
  rw [UsageFields.on_of_mergeable h] at hmerge
  cases hmerged : usage.mergeSnapshot snapshot with
  | error error =>
    rw [hmerged] at hmerge
    cases hmerge
  | ok merged =>
    rw [hmerged] at hmerge
    exact ⟨merged, rfl, (congrArg Prod.snd hmerge).symm⟩

open UsageFields in
/-- **Merging snapshots**, after any sequence of them: a snapshot is accepted exactly when no counter
decreases, the merged counters fit together and no extension conflicts. Then every counter grows to
what was supplied last, and merging it again changes nothing. A rejected one changes nothing. -/
theorem usage_merging (usage : TokenUsage) (front : List TokenUsage) (snapshot : TokenUsage) :
    MergeLaw snapshot (mergeAll front usage.fields)
        ((mergeInPlace snapshot).on (mergeAll front usage.fields)) ∧
      ∀ counter ∈ counters, counter (mergeAll front usage.fields).toTokenCounts =
        lastSupplied counter (usage :: accepted usage.fields front) := by
  refine ⟨mergeLaw (consistent_mergeAll front (TokenCounts.validate_iff.mp usage.consistent)) snapshot,
    fun counter hcounter => ?_⟩
  refine counter_mergeAll hcounter front [usage] ?_
  cases h : counter usage.toTokenCounts <;> simp [lastSupplied, h, TokenUsage.fields]

end GroupAgent.Model
