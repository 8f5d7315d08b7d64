import GroupAgent.Model.Fragments
import GroupAgent.Model.Usage

/-!
# Usage snapshots

Cumulative usage snapshots of a stream that a collector can merge (`merge_snapshot`,
`response.rs:188-210`, and `merge_counter`, 411-427, of `crates/group-agent-model/src`).

* `Merged`: what a usage is after snapshots that were merged: the counters that were known last,
  and details of theirs only. `mergeSnapshot_ok` of `Usage` is its step.
* `Compatible`: no counter decreases, no detail changes, and what is known stays consistent.

Results: **`compatible_merges`**: such snapshots are merged, one after the other.

A snapshot that leaves a counter out says nothing of it, so the value that was known before stays.
-/

namespace GroupAgent.Model

open GroupAgent.Lib

/-- What is known after snapshots: of each counter, its last value. -/
def latest (usages : List TokenUsage) : TokenCounts :=
  usages.foldl (fun counts usage =>
    ⟨usage.inputTokens.or counts.inputTokens, usage.outputTokens.or counts.outputTokens,
      usage.totalTokens.or counts.totalTokens⟩) ⟨none, none, none⟩

/-- Successive snapshots do not decrease and do not conflict. -/
structure Compatible (usages : List TokenUsage) : Prop where
  counters : usages.Pairwise fun a b => NotDecreasing a.inputTokens b.inputTokens ∧
    NotDecreasing a.outputTokens b.outputTokens ∧ NotDecreasing a.totalTokens b.totalTokens
  details : usages.Pairwise fun a b => ∀ key v w, a.extensions.get? key = some v →
    b.extensions.get? key = some w → v.eq w = true
  totals : ∀ front, front <+: usages → (latest front).validate = .ok ()

/-- What has been merged comes from the snapshots so far. -/
structure Merged (front : List TokenUsage) (merged : TokenUsage) : Prop where
  counts : merged.toTokenCounts = latest front
  details : ∀ key v, merged.extensions.get? key = some v →
    ∃ usage ∈ front, usage.extensions.get? key = some v

section Merging

variable {front : List TokenUsage} {merged usage : TokenUsage}

theorem latest_snoc (front : List TokenUsage) (usage : TokenUsage) : latest (front ++ [usage]) =
    ⟨usage.inputTokens.or (latest front).inputTokens, usage.outputTokens.or (latest front).outputTokens,
      usage.totalTokens.or (latest front).totalTokens⟩ := by
  unfold latest
  rw [List.foldl_append]
  rfl

/-- A counter that is known is one of a snapshot. -/
theorem latest_mem (front : List TokenUsage) :
    (∀ a ∈ (latest front).inputTokens, ∃ usage ∈ front, usage.inputTokens = some a) ∧
      (∀ a ∈ (latest front).outputTokens, ∃ usage ∈ front, usage.outputTokens = some a) ∧
      ∀ a ∈ (latest front).totalTokens, ∃ usage ∈ front, usage.totalTokens = some a := by
  have hcounter : ∀ (counter : TokenUsage → Option UInt64) (known : Option UInt64)
      (l : List TokenUsage) (u : TokenUsage), (∀ a ∈ known, ∃ usage ∈ l, counter usage = some a) →
      ∀ a ∈ (counter u).or known, ∃ usage ∈ l ++ [u], counter usage = some a := by
    intro counter known l u h a ha
    rcases Option.or_eq_some_iff.mp ha with hu | ⟨-, hknown⟩
    · exact ⟨u, List.mem_append_right _ List.mem_cons_self, hu⟩
    · obtain ⟨usage, hmem, husage⟩ := h a hknown
      exact ⟨usage, List.mem_append_left _ hmem, husage⟩
  induction front using List.reverseRecOn with
  | nil => exact ⟨by simp [latest], by simp [latest], by simp [latest]⟩
  | append_singleton front usage ih =>
    rw [latest_snoc]
    exact ⟨hcounter (·.inputTokens) _ front usage ih.1, hcounter (·.outputTokens) _ front usage ih.2.1,
      hcounter (·.totalTokens) _ front usage ih.2.2⟩

/-- One compatible snapshot more. -/
theorem Merged.merge (hmerged : Merged front merged) {rest : List TokenUsage}
    (h : Compatible (front ++ usage :: rest)) : ∃ merged', merged.mergeSnapshot usage = .ok merged' ∧
      Merged (front ++ [usage]) merged' := by
  obtain ⟨-, -, hcounters⟩ := List.pairwise_append.mp h.counters
  obtain ⟨-, -, hdetails⟩ := List.pairwise_append.mp h.details
  obtain ⟨hinput, houtput, htotal⟩ := latest_mem front
  have hcounts := hmerged.counts
  have hprefix : front ++ [usage] <+: front ++ usage :: rest := ⟨rest, by simp⟩
  have hvalid := h.totals _ hprefix
  rw [latest_snoc, ← hcounts] at hvalid
  obtain ⟨merged', hmerge, hfields⟩ : ∃ merged', merged.mergeSnapshot usage = .ok merged' ∧
      merged'.fields = merged.fields.updated usage := by
    refine TokenUsage.mergeSnapshot_ok ⟨fun a ha b hb => ?_, fun a ha b hb => ?_, fun a ha b hb => ?_,
      TokenCounts.validate_iff.mp hvalid, fun key existing value hexisting hvalue => ?_⟩
    · obtain ⟨u, hu, hua⟩ := hinput a (hcounts ▸ ha)
      exact (hcounters u hu usage List.mem_cons_self).1 a hua b hb
    · obtain ⟨u, hu, hua⟩ := houtput a (hcounts ▸ ha)
      exact (hcounters u hu usage List.mem_cons_self).2.1 a hua b hb
    · obtain ⟨u, hu, hua⟩ := htotal a (hcounts ▸ ha)
      exact (hcounters u hu usage List.mem_cons_self).2.2 a hua b hb
    · obtain ⟨u, hu, hkey⟩ := hmerged.details key existing hexisting
      exact hdetails u hu usage List.mem_cons_self key existing value hkey hvalue
  refine ⟨merged', hmerge, ?_, fun key v hv => ?_⟩
  · rw [latest_snoc, ← hcounts]
    exact congrArg UsageFields.toTokenCounts hfields
  · have hextensions : merged'.extensions =
        merged.extensions.commitIdempotentMerge usage.extensions :=
      congrArg UsageFields.extensions hfields
    rw [hextensions, Extensions.get?_commit] at hv
    rcases Option.or_eq_some_iff.mp hv with hv | ⟨-, hv⟩
    · obtain ⟨u, hu, hkey⟩ := hmerged.details key v hv
      exact ⟨u, List.mem_append_left _ hu, hkey⟩
    · exact ⟨usage, List.mem_append_right _ List.mem_cons_self, hv⟩

open ChatStreamCollector in
theorem Merged.merges : ∀ {rest front : List TokenUsage} {merged : TokenUsage}, Merged front merged →
    Compatible (front ++ rest) → ∃ usage, rest.foldlM usageAfter (some merged) = .ok usage
  | [], _, merged, _, _ => ⟨some merged, rfl⟩
  | usage :: rest, front, merged, hmerged, h => by
    obtain ⟨merged', hmerge, hmerged'⟩ := hmerged.merge h
    have hrest : Compatible (front ++ [usage] ++ rest) := by
      rw [List.append_assoc]
      exact h
    obtain ⟨final, hfinal⟩ := hmerged'.merges hrest
    exact ⟨final, bind_eq_ok.mpr ⟨some merged', map_eq_ok.mpr ⟨merged', hmerge, rfl⟩, hfinal⟩⟩

open ChatStreamCollector in
/-- **Compatible snapshots are merged.** -/
theorem compatible_merges {usages : List TokenUsage} (h : Compatible usages) :
    ∃ usage, usages.foldlM usageAfter none = .ok usage := by
  cases usages with
  | nil => exact ⟨none, rfl⟩
  | cons first rest =>
    have hmerged : Merged [first] first :=
      ⟨by simp [latest], fun key v hv => ⟨first, List.mem_cons_self, hv⟩⟩
    obtain ⟨final, hfinal⟩ := hmerged.merges h
    exact ⟨final, bind_eq_ok.mpr ⟨some first, rfl, hfinal⟩⟩

end Merging

end GroupAgent.Model
