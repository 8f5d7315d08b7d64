import GroupAgent.Model.Collector
import Mathlib.Logic.Relation

/-!
# Fragmentation

What a collector (`ChatStreamCollector`, `stream.rs:252-530` of `crates/group-agent-model/src`)
collects does not depend on how the response was cut into events.

* `textOf`, `deltasAt`, `usages`, `starts`: what a sequence of events says, each part in its order.
* `Gathers`: what the fragments of one call come to, all at once.
* `Accepts`: the parts are accepted one by one. **`pushBody_eq_ok`**: so are the events.
* `Holds`: what a collector holds after any events. `holds_pushAll` is its run lemma.
* `SameContent`: two sequences that say the same. `Refragment`: single changes of a sequence that
  keep it.

Results:
* **`collector_protocol`**: after any events, what a collector holds is what the accepted ones say,
  and what it does next follows from it.
* `collects_iff`: a response is collected from a body that is accepted and its one end.
* **`fragmentation`**: a collected response is what its events say, and sequences that say the same
  collect to the same response.

The limits of a collector are parameters; a sequence that says the same is under the same limits,
since they count what is said and not the events.
-/

namespace GroupAgent.Model

open GroupAgent.Lib

namespace ChatStreamCollector

/-! ## What a sequence of events says -/

/-- Strings one after the other. -/
def concat : List String → String := List.foldr (· ++ ·) ""

theorem concat_append : ∀ l l' : List String, concat (l ++ l') = concat l ++ concat l'
  | [], l' => by simp [concat]
  | s :: l, l' => by
    show s ++ concat (l ++ l') = s ++ concat l ++ concat l'
    rw [concat_append l l', String.append_assoc]

/-- What a response says of itself at its start. -/
abbrev Metadata : Type := Option ResponseId × Option ModelId × Extensions

def text? : ChatStreamEvent → Option String
  | .textDelta delta => some delta
  | _ => none

def delta? (index : Nat) : ChatStreamEvent → Option ToolCallDelta
  | .toolCallDelta delta => if delta.index = index then some delta else none
  | _ => none

def usage? : ChatStreamEvent → Option TokenUsage
  | .usage usage => some usage
  | _ => none

def start? : ChatStreamEvent → Option Metadata
  | .responseStarted responseId model extensions => some (responseId, model, extensions)
  | _ => none

def reason? : ChatStreamEvent → Option FinishReason
  | .finished reason => some reason
  | _ => none

/-- The text, all of it. -/
def textOf (es : List ChatStreamEvent) : String := concat (es.filterMap text?)

/-- The fragments of one call. -/
def deltasAt (index : Nat) (es : List ChatStreamEvent) : List ToolCallDelta :=
  es.filterMap (delta? index)

def usages (es : List ChatStreamEvent) : List TokenUsage := es.filterMap usage?

def starts (es : List ChatStreamEvent) : List Metadata := es.filterMap start?

def reasons (es : List ChatStreamEvent) : List FinishReason := es.filterMap reason?

section Fragments

variable (ds : List ToolCallDelta)

def idsOf : List ToolCallId := ds.filterMap ToolCallDelta.id

def namesOf : List ToolName := ds.filterMap ToolCallDelta.name

def argumentsOf : String := concat (ds.map ToolCallDelta.argumentsFragment)

def extensionsOf : List Extensions := ds.map ToolCallDelta.extensions

end Fragments

/-- Extensions with others merged in, unless they conflict. -/
def mergeExtensions (self other : Extensions) : Except ExtensionMergeError Extensions :=
  (self.validateIdempotentMerge other).map fun _ => self.commitIdempotentMerge other

def mergeAll (self : Extensions) (others : List Extensions) : Except ExtensionMergeError Extensions :=
  others.foldlM mergeExtensions self

theorem mergeExtensions_length {self other merged : Extensions}
    (h : mergeExtensions self other = .ok merged) : self.length ≤ merged.length := by
  obtain ⟨n, hn, rfl⟩ := map_eq_ok.mp h
  rw [Extensions.length_commit hn]
  omega

theorem mergeAll_length : ∀ {others : List Extensions} {self merged : Extensions},
    mergeAll self others = .ok merged → self.length ≤ merged.length
  | [], self, merged, h => by
    cases h
    exact le_refl _
  | other :: others, self, merged, h => by
    unfold mergeAll at h
    rw [List.foldlM_cons] at h
    obtain ⟨next, hnext, h⟩ := bind_eq_ok.mp h
    exact (mergeExtensions_length hnext).trans (mergeAll_length h)

theorem mergeAll_empty : ∀ {extensions : List Extensions}, (∀ e ∈ extensions, e = .empty) →
    mergeAll .empty extensions = .ok .empty
  | [], _ => rfl
  | e :: rest, h => by
    obtain ⟨rfl, hrest⟩ := List.forall_mem_cons.mp h
    exact bind_eq_ok.mpr ⟨.empty, rfl, mergeAll_empty hrest⟩

/-! ## The fragments of one call -/

section Calls

variable {limits : CollectorLimits} {pending pending' : PendingToolCall} {delta : ToolCallDelta}
  {ds : List ToolCallDelta}

/-- One fragment, checked and applied. -/
def extendBy (limits : CollectorLimits) (pending : PendingToolCall) (delta : ToolCallDelta) :
    Except ModelError PendingToolCall :=
  (checkToolDelta limits pending delta).map fun _ => pending.extend delta

/-- A fragment is accepted that supplies what is missing, within the limits. -/
theorem checkToolDelta_eq_ok : checkToolDelta limits pending delta = .ok () ↔
    delta.index ≤ limits.maxToolCallIndex ∧ ¬(delta.id.isSome ∧ pending.id.isSome) ∧
      ¬(delta.name.isSome ∧ pending.name.isSome) ∧
      pending.arguments.utf8ByteSize + delta.argumentsFragment.utf8ByteSize ≤
        limits.maxToolArgumentBytes ∧
      ∃ n, pending.extensions.validateIdempotentMerge delta.extensions = .ok n ∧
        pending.extensions.length + n ≤ limits.maxToolCallExtensions := by
  unfold checkToolDelta
  by_cases hindex : limits.maxToolCallIndex < delta.index
  · simp [hindex]
  by_cases hid : delta.id.isSome ∧ pending.id.isSome
  · simp [hindex, hid]
  by_cases hname : delta.name.isSome ∧ pending.name.isSome
  · simp [hindex, hid, hname]
  by_cases harguments : limits.maxToolArgumentBytes <
      pending.arguments.utf8ByteSize + delta.argumentsFragment.utf8ByteSize
  · simp [hindex, hid, hname, harguments]
  cases hmerge : pending.extensions.validateIdempotentMerge delta.extensions with
  | error source => simp [hindex, hid, hname, harguments]
  | ok n =>
    by_cases hlength : limits.maxToolCallExtensions < pending.extensions.length + n
    · simp [hindex, hid, hname, harguments, hlength]
    · simp [hindex, hid, hname, harguments, hlength, not_lt.mp hindex, not_lt.mp harguments,
        not_lt.mp hlength]

/-- What fragments make of a pending call, within the limits. -/
structure Gathers (limits : CollectorLimits) (pending : PendingToolCall) (ds : List ToolCallDelta)
    (pending' : PendingToolCall) : Prop where
  index : ∀ delta ∈ ds, delta.index ≤ limits.maxToolCallIndex
  id : pending.id.toList ++ idsOf ds = pending'.id.toList
  name : pending.name.toList ++ namesOf ds = pending'.name.toList
  arguments : pending.arguments ++ argumentsOf ds = pending'.arguments
  extensions : mergeAll pending.extensions (extensionsOf ds) = .ok pending'.extensions
  argumentBytes : pending'.arguments.utf8ByteSize ≤ limits.maxToolArgumentBytes
  extensionKeys : pending'.extensions.length ≤ limits.maxToolCallExtensions

theorem toList_inj {α : Type} {x y : Option α} (h : x.toList = y.toList) : x = y := by
  cases x <;> cases y <;> simp_all

/-- An option that is set once. -/
theorem toList_or {α : Type} {x y : Option α} (h : ¬(x.isSome ∧ y.isSome)) :
    (x.or y).toList = y.toList ++ x.toList := by
  cases x with
  | none => simp
  | some a =>
    cases y with
    | none => rfl
    | some b => exact absurd ⟨rfl, rfl⟩ h

/-- A list with at most one element. -/
theorem not_both_of_toList {α : Type} {x y z : Option α} {l : List α}
    (h : y.toList ++ (x.toList ++ l) = z.toList) : ¬(x.isSome ∧ y.isSome) := by
  rintro ⟨hx, hy⟩
  obtain ⟨a, rfl⟩ := Option.isSome_iff_exists.mp hx
  obtain ⟨b, rfl⟩ := Option.isSome_iff_exists.mp hy
  cases z with
  | none => cases h
  | some c => cases h

theorem filterMap_cons_toList {α β : Type} (f : α → Option β) (a : α) (l : List α) :
    (a :: l).filterMap f = (f a).toList ++ l.filterMap f := by
  rw [List.filterMap_cons]
  cases f a <;> rfl

theorem gathers_nil (harguments : pending.arguments.utf8ByteSize ≤ limits.maxToolArgumentBytes)
    (hkeys : pending.extensions.length ≤ limits.maxToolCallExtensions) :
    Gathers limits pending [] pending' ↔ pending = pending' := by
  constructor
  · intro h
    obtain ⟨id, name, arguments, extensions⟩ := pending
    obtain ⟨id', name', arguments', extensions'⟩ := pending'
    have hid : id = id' := toList_inj ((List.append_nil _).symm.trans h.id)
    have hname : name = name' := toList_inj ((List.append_nil _).symm.trans h.name)
    have hargs : arguments = arguments' := (String.append_empty).symm.trans h.arguments
    have hext : extensions = extensions' := Except.ok.inj h.extensions
    rw [hid, hname, hargs, hext]
  · rintro rfl
    exact ⟨by simp, List.append_nil _, List.append_nil _, String.append_empty, rfl, harguments, hkeys⟩

/-- One fragment more is accepted, and so is the rest. -/
theorem gathers_cons : Gathers limits pending (delta :: ds) pending' ↔
    checkToolDelta limits pending delta = .ok () ∧
      Gathers limits (pending.extend delta) ds pending' := by
  have hids : idsOf (delta :: ds) = delta.id.toList ++ idsOf ds := filterMap_cons_toList _ _ _
  have hnames : namesOf (delta :: ds) = delta.name.toList ++ namesOf ds := filterMap_cons_toList _ _ _
  have hmerge : mergeAll pending.extensions (extensionsOf (delta :: ds)) =
      mergeExtensions pending.extensions delta.extensions >>= fun next =>
        mergeAll next (extensionsOf ds) := rfl
  have hbytes : (pending.arguments ++ delta.argumentsFragment).utf8ByteSize =
      pending.arguments.utf8ByteSize + delta.argumentsFragment.utf8ByteSize :=
    String.utf8ByteSize_append
  rw [checkToolDelta_eq_ok]
  constructor
  · intro h
    have hid := not_both_of_toList (hids ▸ h.id)
    have hname := not_both_of_toList (hnames ▸ h.name)
    have hext := h.extensions
    rw [hmerge] at hext
    obtain ⟨next, hnext, hext⟩ := bind_eq_ok.mp hext
    obtain ⟨n, hn, rfl⟩ := map_eq_ok.mp hnext
    have hargs : pending.arguments ++ delta.argumentsFragment ++ argumentsOf ds =
        pending'.arguments := (String.append_assoc ..).trans h.arguments
    have hlength := (mergeAll_length hext).trans h.extensionKeys
    rw [Extensions.length_commit hn] at hlength
    have hargBytes := h.argumentBytes
    rw [← hargs, String.utf8ByteSize_append, hbytes] at hargBytes
    refine ⟨⟨h.index _ List.mem_cons_self, hid, hname, by omega, n, hn, hlength⟩, ?_⟩
    refine ⟨fun d hd => h.index d (List.mem_cons_of_mem _ hd), ?_, ?_, hargs, hext,
      h.argumentBytes, h.extensionKeys⟩
    · show (delta.id.or pending.id).toList ++ idsOf ds = _
      rw [toList_or hid, List.append_assoc, ← hids, h.id]
    · show (delta.name.or pending.name).toList ++ namesOf ds = _
      rw [toList_or hname, List.append_assoc, ← hnames, h.name]
  · rintro ⟨⟨hindex, hid, hname, -, n, hn, -⟩, h⟩
    refine ⟨?_, ?_, ?_, ?_, ?_, h.argumentBytes, h.extensionKeys⟩
    · intro d hd
      rcases List.mem_cons.mp hd with rfl | hd
      · exact hindex
      · exact h.index d hd
    · rw [hids, ← List.append_assoc, ← toList_or hid]
      exact h.id
    · rw [hnames, ← List.append_assoc, ← toList_or hname]
      exact h.name
    · exact (String.append_assoc ..).symm.trans h.arguments
    · rw [hmerge]
      exact bind_eq_ok.mpr ⟨_, map_eq_ok.mpr ⟨n, hn, rfl⟩, h.extensions⟩

/-- **Fragments are accepted by what they come to.** -/
theorem extendAll_eq_ok : ∀ {ds : List ToolCallDelta} {pending : PendingToolCall},
    pending.arguments.utf8ByteSize ≤ limits.maxToolArgumentBytes →
      pending.extensions.length ≤ limits.maxToolCallExtensions →
      (ds.foldlM (extendBy limits) pending = .ok pending' ↔ Gathers limits pending ds pending')
  | [], pending, harguments, hkeys => by
    rw [gathers_nil harguments hkeys]
    exact ⟨Except.ok.inj, congrArg Except.ok⟩
  | delta :: ds, pending, harguments, hkeys => by
    rw [gathers_cons, List.foldlM_cons, bind_eq_ok]
    constructor
    · rintro ⟨next, hnext, h⟩
      obtain ⟨_, hcheck, rfl⟩ := map_eq_ok.mp hnext
      obtain ⟨-, -, -, hbytes, n, hn, hlength⟩ := checkToolDelta_eq_ok.mp hcheck
      refine ⟨hcheck, (extendAll_eq_ok ?_ ?_).mp h⟩
      · exact String.utf8ByteSize_append.trans_le hbytes
      · exact (Extensions.length_commit hn).trans_le hlength
    · rintro ⟨hcheck, h⟩
      obtain ⟨-, -, -, hbytes, n, hn, hlength⟩ := checkToolDelta_eq_ok.mp hcheck
      refine ⟨_, map_eq_ok.mpr ⟨_, hcheck, rfl⟩, (extendAll_eq_ok ?_ ?_).mpr h⟩
      · exact String.utf8ByteSize_append.trans_le hbytes
      · exact (Extensions.length_commit hn).trans_le hlength

end Calls

/-! ## The parts of a response -/

section Parts

variable {fromStr : String → Except String Json} {limits : CollectorLimits}
  {data data' : Collected} {event : ChatStreamEvent} {es : List ChatStreamEvent}

/-- The data after events before the end, if all are accepted. -/
def pushBody (fromStr : String → Except String Json) (limits : CollectorLimits) (data : Collected)
    (es : List ChatStreamEvent) : Except ModelError Collected :=
  es.foldlM (fun data event => Prod.snd <$> pushActive fromStr limits data event) data

/-- What is pending for a call after fragments of it. -/
def pendingAfter (limits : CollectorLimits) (old : Option PendingToolCall) (ds : List ToolCallDelta) :
    Except ModelError (Option PendingToolCall) :=
  if ds = [] then .ok old else some <$> ds.foldlM (extendBy limits) (old.getD .default)

theorem pendingAfter_cons {old new : Option PendingToolCall} {delta : ToolCallDelta}
    {ds : List ToolCallDelta} : pendingAfter limits old (delta :: ds) = .ok new ↔
      checkToolDelta limits (old.getD .default) delta = .ok () ∧
        pendingAfter limits (some ((old.getD .default).extend delta)) ds = .ok new := by
  unfold pendingAfter
  rw [if_neg (List.cons_ne_nil _ _), List.foldlM_cons]
  cases hcheck : checkToolDelta limits (old.getD .default) delta with
  | error error => simp [extendBy, hcheck, Except.map, Functor.map]
  | ok u =>
    have hnext : extendBy limits (old.getD .default) delta = .ok ((old.getD .default).extend delta) := by
      unfold extendBy
      rw [hcheck]
      rfl
    rw [hnext, ok_bind]
    by_cases hds : ds = []
    · rw [hds, if_pos rfl]
      exact ⟨fun h => ⟨rfl, h⟩, And.right⟩
    · rw [if_neg hds]
      exact ⟨fun h => ⟨rfl, h⟩, And.right⟩

/-- The usage after a snapshot. -/
def usageAfter (old : Option TokenUsage) (usage : TokenUsage) :
    Except TokenUsageError (Option TokenUsage) :=
  some <$> mergeUsage old usage

/-- What the response says of itself, once it has started. -/
def metadata? (data : Collected) : Option Metadata :=
  if data.responseStarted then some (data.responseId, data.model, data.extensions) else none

/-- Events before the end are accepted, part by part. -/
structure Accepts (limits : CollectorLimits) (data : Collected) (es : List ChatStreamEvent)
    (data' : Collected) : Prop where
  text : data'.text = data.text ++ textOf es
  textBytes : data'.text.utf8ByteSize ≤ limits.maxTextBytes
  calls : ∀ index, pendingAfter limits (data.toolCalls.get? index) (deltasAt index es) =
    .ok (data'.toolCalls.get? index)
  usage : (usages es).foldlM usageAfter data.usage = .ok data'.usage
  started : data'.responseStarted = (data.responseStarted || !(starts es).isEmpty)
  once : (metadata? data).toList ++ starts es = (metadata? data').toList
  unstarted : data'.responseStarted = false → data'.responseId = data.responseId ∧
    data'.model = data.model ∧ data'.extensions = data.extensions
  reason : data'.finishReason = data.finishReason

theorem accepts_nil (htext : data.text.utf8ByteSize ≤ limits.maxTextBytes) :
    Accepts limits data [] data' ↔ data = data' := by
  constructor
  · intro h
    have hcalls : data.toolCalls = data'.toolCalls :=
      SortedMap.ext_get? fun index => Except.ok.inj (h.calls index)
    have hstarted : data.responseStarted = data'.responseStarted := by
      rw [h.started]
      simp [starts]
    have htext : data.text = data'.text := h.text.symm ▸ (String.append_empty).symm
    have husage : data.usage = data'.usage := Except.ok.inj h.usage
    have hmeta : metadata? data = metadata? data' :=
      toList_inj ((List.append_nil _).symm.trans h.once)
    obtain ⟨responseId, model, extensions, started, text, calls, usage, reason⟩ := data
    obtain ⟨responseId', model', extensions', started', text', calls', usage', reason'⟩ := data'
    obtain rfl : started = started' := hstarted
    have hreason : reason' = reason := h.reason
    have hsame : responseId = responseId' ∧ model = model' ∧ extensions = extensions' := by
      cases started with
      | false =>
        obtain ⟨hid, hmodel, hext⟩ := h.unstarted rfl
        exact ⟨hid.symm, hmodel.symm, hext.symm⟩
      | true =>
        have hpair : (responseId, model, extensions) = (responseId', model', extensions') :=
          Option.some.inj hmeta
        simpa using hpair
    obtain ⟨rfl, rfl, rfl⟩ := hsame
    rw [hreason]
    simp only [Collected.mk.injEq, true_and, and_true]
    exact ⟨htext, hcalls, husage⟩
  · rintro rfl
    refine ⟨(String.append_empty).symm, htext, fun _ => rfl, rfl, ?_, List.append_nil _,
      fun _ => ⟨rfl, rfl, rfl⟩, rfl⟩
    simp [starts]

/-- One event more is accepted, and so is the rest. -/
theorem accepts_cons (fromStr : String → Except String Json) (hevent : ¬IsTerminal event) :
    Accepts limits data (event :: es) data' ↔
      ∃ next, pushActive fromStr limits data event = .ok next ∧ Accepts limits next.2 es data' := by
  cases event with
  | responseStarted responseId model extensions =>
    have hstarts : starts (.responseStarted responseId model extensions :: es) =
        (responseId, model, extensions) :: starts es := rfl
    constructor
    · intro h
      have honce := h.once
      rw [hstarts] at honce
      have hnot : data.responseStarted = false := by
        by_contra hstarted
        rw [Bool.not_eq_false] at hstarted
        have hsome : metadata? data = some (data.responseId, data.model, data.extensions) := if_pos hstarted
        rw [hsome] at honce
        cases hd : metadata? data' with
        | none => rw [hd] at honce; cases honce
        | some m => rw [hd] at honce; cases honce
      have hnone : metadata? data = none := by
        unfold metadata?
        rw [hnot]
        rfl
      rw [hnone] at honce
      refine ⟨_, started_eq_ok.mpr ⟨hnot, rfl⟩, h.text, h.textBytes, h.calls, h.usage, ?_, honce, ?_,
        h.reason⟩
      · rw [h.started, hstarts]
        simp
      · intro hfalse
        rw [h.started, hstarts] at hfalse
        simp at hfalse
    · rintro ⟨next, hnext, h⟩
      obtain ⟨hnot, rfl⟩ := started_eq_ok.mp hnext
      have hnone : metadata? data = none := by
        unfold metadata?
        rw [hnot]
        rfl
      have hstarted : data'.responseStarted = true := h.started
      refine ⟨h.text, h.textBytes, h.calls, h.usage, ?_, ?_, ?_, h.reason⟩
      · rw [hstarted, hstarts]
        simp
      · rw [hnone, hstarts]
        exact h.once
      · rw [hstarted]
        intro hfalse
        cases hfalse
  | textDelta delta =>
    have htext : textOf (.textDelta delta :: es) = delta ++ textOf es := rfl
    constructor
    · intro h
      have hdata := h.text
      rw [htext, ← String.append_assoc] at hdata
      have hle := h.textBytes
      rw [hdata, String.utf8ByteSize_append, String.utf8ByteSize_append] at hle
      refine ⟨_, text_eq_ok.mpr ⟨by omega, rfl⟩, hdata, h.textBytes, h.calls, h.usage, h.started,
        h.once, h.unstarted, h.reason⟩
    · rintro ⟨next, hnext, h⟩
      obtain ⟨-, rfl⟩ := text_eq_ok.mp hnext
      refine ⟨?_, h.textBytes, h.calls, h.usage, h.started, h.once, h.unstarted, h.reason⟩
      rw [htext, ← String.append_assoc]
      exact h.text
  | toolCallDelta delta =>
    have hdeltas : ∀ index, deltasAt index (.toolCallDelta delta :: es) =
        if delta.index = index then delta :: deltasAt index es else deltasAt index es := by
      intro index
      unfold deltasAt
      rw [List.filterMap_cons]
      unfold delta?
      by_cases hindex : delta.index = index
      · simp [hindex]
      · simp [hindex]
    constructor
    · intro h
      have hself := h.calls delta.index
      rw [hdeltas, if_pos rfl, pendingAfter_cons] at hself
      refine ⟨_, tool_eq_ok.mpr ⟨hself.1, rfl⟩, h.text, h.textBytes, fun index => ?_, h.usage,
        h.started, h.once, h.unstarted, h.reason⟩
      by_cases hindex : delta.index = index
      · rw [← hindex, SortedMap.get?_upsert_self]
        exact hself.2
      · rw [SortedMap.get?_upsert_of_ne (Ne.symm hindex)]
        have hother := h.calls index
        rw [hdeltas, if_neg hindex] at hother
        exact hother
    · rintro ⟨next, hnext, h⟩
      obtain ⟨hcheck, rfl⟩ := tool_eq_ok.mp hnext
      refine ⟨h.text, h.textBytes, fun index => ?_, h.usage, h.started, h.once, h.unstarted, h.reason⟩
      have hcalls := h.calls index
      rw [hdeltas]
      by_cases hindex : delta.index = index
      · rw [if_pos hindex, pendingAfter_cons, ← hindex]
        rw [← hindex, SortedMap.get?_upsert_self] at hcalls
        exact ⟨hcheck, hcalls⟩
      · rw [if_neg hindex]
        rw [SortedMap.get?_upsert_of_ne (Ne.symm hindex)] at hcalls
        exact hcalls
  | usage usage =>
    have husages : (usages (.usage usage :: es)).foldlM usageAfter data.usage =
        usageAfter data.usage usage >>= fun next => (usages es).foldlM usageAfter next := rfl
    constructor
    · intro h
      have hfold := h.usage
      rw [husages] at hfold
      obtain ⟨next, hnext, hfold⟩ := bind_eq_ok.mp hfold
      obtain ⟨merged, hmerged, rfl⟩ := map_eq_ok.mp hnext
      exact ⟨_, usage_eq_ok.mpr ⟨merged, hmerged, rfl⟩, h.text, h.textBytes, h.calls, hfold,
        h.started, h.once, h.unstarted, h.reason⟩
    · rintro ⟨next, hnext, h⟩
      obtain ⟨merged, hmerged, rfl⟩ := usage_eq_ok.mp hnext
      refine ⟨h.text, h.textBytes, h.calls, ?_, h.started, h.once, h.unstarted, h.reason⟩
      rw [husages]
      exact bind_eq_ok.mpr ⟨_, map_eq_ok.mpr ⟨merged, hmerged, rfl⟩, h.usage⟩
  | finished reason => exact absurd trivial hevent

/-- **Events are accepted part by part.** -/
theorem pushBody_eq_ok : ∀ {es : List ChatStreamEvent} {data : Collected},
    (∀ event ∈ es, ¬IsTerminal event) → data.text.utf8ByteSize ≤ limits.maxTextBytes →
      (pushBody fromStr limits data es = .ok data' ↔ Accepts limits data es data')
  | [], data, _, htext => by
    rw [accepts_nil htext]
    exact ⟨Except.ok.inj, congrArg Except.ok⟩
  | event :: es, data, hes, htext => by
    obtain ⟨hevent, hes⟩ := List.forall_mem_cons.mp hes
    have hcons : pushBody fromStr limits data (event :: es) =
        (Prod.snd <$> pushActive fromStr limits data event) >>= fun next =>
          pushBody fromStr limits next es := rfl
    have hnext : ∀ next, pushActive fromStr limits data event = .ok next →
        next.2.text.utf8ByteSize ≤ limits.maxTextBytes := by
      intro next hnext
      by_cases hdelta : ∀ delta, event ≠ .textDelta delta
      · rw [pushActive_text hnext hdelta]
        exact htext
      · push Not at hdelta
        obtain ⟨delta, rfl⟩ := hdelta
        obtain ⟨hle, rfl⟩ := text_eq_ok.mp hnext
        exact String.utf8ByteSize_append.trans_le hle
    rw [accepts_cons fromStr hevent, hcons, bind_eq_ok]
    constructor
    · rintro ⟨_, hmap, h⟩
      obtain ⟨next, hpush, rfl⟩ := map_eq_ok.mp hmap
      exact ⟨next, hpush, (pushBody_eq_ok hes (hnext next hpush)).mp h⟩
    · rintro ⟨next, hpush, h⟩
      exact ⟨_, map_eq_ok.mpr ⟨next, hpush, rfl⟩, (pushBody_eq_ok hes (hnext next hpush)).mpr h⟩

end Parts

/-! ## Whole sequences -/

section Collecting

variable {fromStr : String → Except String Json} {limits : CollectorLimits} {es : List ChatStreamEvent}
  {response : ChatResponse}

/-- Every event is accepted, and the response comes out at the end. -/
def Collects (fromStr : String → Except String Json) (limits : CollectorLimits)
    (es : List ChatStreamEvent) (response : ChatResponse) : Prop :=
  (∀ result ∈ (pushAll fromStr (withLimits limits) es).1, result = .ok ()) ∧
    (pushAll fromStr (withLimits limits) es).2.finish fromStr = .ok response

/-- The collector after its end. -/
def ended (limits : CollectorLimits) (data : Collected) (reason : FinishReason) : ChatStreamCollector :=
  ⟨.finished, { data with finishReason := some reason }, limits⟩

/-- Events from some data on are accepted up to one end. -/
structure Ends (fromStr : String → Except String Json) (limits : CollectorLimits) (data : Collected)
    (es : List ChatStreamEvent) (response : ChatResponse) (body : List ChatStreamEvent)
    (reason : FinishReason) (data' : Collected) : Prop where
  events : es = body ++ [.finished reason]
  unfinished : ∀ event ∈ body, ¬IsTerminal event
  pushed : pushBody fromStr limits data body = .ok data'
  valid : validateFinished fromStr data' = .ok ()
  finish : (ended limits data' reason).finish fromStr = .ok response

theorem ends_of_pushAll : ∀ {es : List ChatStreamEvent} {data : Collected},
    (∀ result ∈ (pushAll fromStr ⟨.active, data, limits⟩ es).1, result = .ok ()) →
      (pushAll fromStr ⟨.active, data, limits⟩ es).2.finish fromStr = .ok response →
      ∃ body reason data', Ends fromStr limits data es response body reason data'
  | [], data, _, hfinish => by cases hfinish
  | event :: es, data, hall, hfinish => by
    unfold pushAll at hall hfinish
    simp only [on_pushInPlace] at hall hfinish
    obtain ⟨hfirst, hall⟩ := List.forall_mem_cons.mp hall
    cases hpush : pushActive fromStr limits data event with
    | error error =>
      unfold ChatStreamCollector.push at hfirst
      simp only [hpush] at hfirst
      cases hfirst
    | ok next =>
      have hnext : ChatStreamCollector.push fromStr ⟨.active, data, limits⟩ event =
          (.ok (), ⟨next.1, next.2, limits⟩) := by
        unfold ChatStreamCollector.push
        simp only [hpush]
      simp only [hnext] at hall hfinish
      by_cases hevent : IsTerminal event
      · obtain ⟨reason, rfl⟩ : ∃ reason, event = .finished reason := by
          cases event with
          | finished reason => exact ⟨reason, rfl⟩
          | _ => exact absurd hevent not_false
        obtain ⟨hvalid, rfl⟩ := finished_eq_ok.mp hpush
        -- nothing is accepted after the end
        rw [pushAll_finished rfl] at hall hfinish
        cases es with
        | nil => exact ⟨[], reason, data, rfl, by simp, rfl, hvalid, hfinish⟩
        | cons event es => cases hall _ List.mem_cons_self
      · have hactive : next.1 = .active := pushActive_active hpush (by
          rintro reason rfl
          exact hevent trivial)
        rw [hactive] at hall hfinish
        obtain ⟨body, reason, data', h⟩ := ends_of_pushAll hall hfinish
        refine ⟨event :: body, reason, data', congrArg (event :: ·) h.events, ?_, ?_, h.valid, h.finish⟩
        · exact List.forall_mem_cons.mpr ⟨hevent, h.unfinished⟩
        · exact bind_eq_ok.mpr ⟨_, map_eq_ok.mpr ⟨next, hpush, rfl⟩, h.pushed⟩

theorem pushAll_of_body (reason : FinishReason) : ∀ {body : List ChatStreamEvent}
    {data data' : Collected}, (∀ event ∈ body, ¬IsTerminal event) →
      pushBody fromStr limits data body = .ok data' → validateFinished fromStr data' = .ok () →
      (∀ result ∈ (pushAll fromStr ⟨.active, data, limits⟩ (body ++ [.finished reason])).1,
        result = .ok ()) ∧
      (pushAll fromStr ⟨.active, data, limits⟩ (body ++ [.finished reason])).2 =
        ended limits data' reason
  | [], data, data', _, hpushed, hvalid => by
    obtain rfl : data = data' := Except.ok.inj hpushed
    have hpush : pushActive fromStr limits data (.finished reason) = .ok _ :=
      finished_eq_ok.mpr ⟨hvalid, rfl⟩
    have hnext : ChatStreamCollector.push fromStr ⟨.active, data, limits⟩ (.finished reason) =
        (.ok (), ended limits data reason) := by
      unfold ChatStreamCollector.push
      simp only [hpush]
      rfl
    rw [List.nil_append]
    unfold pushAll pushAll
    rw [on_pushInPlace, hnext]
    exact ⟨by simp, rfl⟩
  | event :: body, data, data', hbody, hpushed, hvalid => by
    obtain ⟨hevent, hbody⟩ := List.forall_mem_cons.mp hbody
    obtain ⟨data₁, hmap, hpushed⟩ := bind_eq_ok.mp hpushed
    obtain ⟨next, hpush, rfl⟩ := map_eq_ok.mp hmap
    have hactive : next.1 = .active := pushActive_active hpush (by
      rintro reason rfl
      exact hevent trivial)
    have hnext : ChatStreamCollector.push fromStr ⟨.active, data, limits⟩ event =
        (.ok (), ⟨.active, next.2, limits⟩) := by
      unfold ChatStreamCollector.push
      simp only [hpush]
      rw [hactive]
    obtain ⟨hall, hended⟩ := pushAll_of_body reason hbody hpushed hvalid
    rw [List.cons_append]
    unfold pushAll
    rw [on_pushInPlace, hnext]
    exact ⟨List.forall_mem_cons.mpr ⟨rfl, hall⟩, hended⟩

/-- **A response is collected from a body that is accepted and its one end.** -/
theorem collects_iff : Collects fromStr limits es response ↔
    ∃ body reason data, Ends fromStr limits new.data es response body reason data := by
  constructor
  · rintro ⟨hall, hfinish⟩
    exact ends_of_pushAll hall hfinish
  · rintro ⟨body, reason, data, h⟩
    obtain ⟨hall, hended⟩ := pushAll_of_body reason h.unfinished h.pushed h.valid
    rw [← h.events] at hall hended
    exact ⟨hall, (congrArg (ChatStreamCollector.finish fromStr) hended).trans h.finish⟩

end Collecting

/-! ## What a collector holds -/

section Holding

variable {fromStr : String → Except String Json} {limits : CollectorLimits}
  {es : List ChatStreamEvent} {event : ChatStreamEvent} {self : ChatStreamCollector}

/-- What a collector holds after some events: what the accepted ones say, up to the first that is
rejected, or up to the end. -/
inductive Holds (fromStr : String → Except String Json) (limits : CollectorLimits)
    (es : List ChatStreamEvent) : ChatStreamCollector → Prop where
  | active {data : Collected} (hes : ∀ event ∈ es, ¬IsTerminal event)
      (h : Accepts limits new.data es data) : Holds fromStr limits es ⟨.active, data, limits⟩
  | failed {body rest : List ChatStreamEvent} {event : ChatStreamEvent} {data : Collected}
      {error : ModelError} (hes : es = body ++ event :: rest)
      (hbody : ∀ event ∈ body, ¬IsTerminal event) (h : Accepts limits new.data body data)
      (hrejected : pushActive fromStr limits data event = .error error) :
      Holds fromStr limits es ⟨.failed, data, limits⟩
  | finished {body rest : List ChatStreamEvent} {reason : FinishReason} {data : Collected}
      (hes : es = body ++ .finished reason :: rest) (hbody : ∀ event ∈ body, ¬IsTerminal event)
      (h : Accepts limits new.data body data) (hcomplete : Complete fromStr data) :
      Holds fromStr limits es (ended limits data reason)

theorem accepts_iff_new (fromStr : String → Except String Json) {data : Collected} (hes : ∀ event ∈ es, ¬IsTerminal event) :
    Accepts limits new.data es data ↔ pushBody fromStr limits new.data es = .ok data :=
  (pushBody_eq_ok hes (Nat.zero_le _)).symm

/-- One more event before the end. -/
theorem Accepts.snoc {data : Collected} {next : CollectorState × Collected}
    (h : Accepts limits new.data es data) (hes : ∀ event ∈ es, ¬IsTerminal event)
    (hpush : pushActive fromStr limits data event = .ok next) (hevent : ¬IsTerminal event) :
    (∀ e ∈ es ++ [event], ¬IsTerminal e) ∧ Accepts limits new.data (es ++ [event]) next.2 := by
  have hall : ∀ e ∈ es ++ [event], ¬IsTerminal e := List.forall_mem_append.mpr
    ⟨hes, List.forall_mem_singleton.mpr hevent⟩
  refine ⟨hall, (accepts_iff_new fromStr hall).mpr ?_⟩
  unfold pushBody
  rw [List.foldlM_append]
  refine bind_eq_ok.mpr ⟨data, (accepts_iff_new fromStr hes).mp h, ?_⟩
  rw [List.foldlM_cons]
  exact bind_eq_ok.mpr ⟨next.2, map_eq_ok.mpr ⟨next, hpush, rfl⟩, rfl⟩

/-- **One push.** -/
theorem Holds.push (h : Holds fromStr limits es self) (event : ChatStreamEvent) :
    Holds fromStr limits (es ++ [event]) (self.push fromStr event).2 := by
  cases h with
  | @failed body rest rejected data error hes hbody h hrejected =>
    have hes' : es ++ [event] = body ++ rejected :: (rest ++ [event]) := by
      rw [hes, List.append_assoc, List.cons_append]
    exact .failed hes' hbody h hrejected
  | @finished body rest reason data hes hbody h hcomplete =>
    have hes' : es ++ [event] = body ++ .finished reason :: (rest ++ [event]) := by
      rw [hes, List.append_assoc, List.cons_append]
    exact .finished hes' hbody h hcomplete
  | @active data hes h =>
    unfold ChatStreamCollector.push
    cases hpush : pushActive fromStr limits data event with
    | error error => exact .failed rfl hes h hpush
    | ok next =>
      simp only
      by_cases hevent : IsTerminal event
      · obtain ⟨reason, rfl⟩ : ∃ reason, event = .finished reason := by
          cases event with
          | finished reason => exact ⟨reason, rfl⟩
          | _ => exact absurd hevent not_false
        obtain ⟨hvalid, rfl⟩ := finished_eq_ok.mp hpush
        exact .finished rfl hes h (validateFinished_eq_ok.mp hvalid)
      · obtain ⟨hall, haccepts⟩ := h.snoc hes hpush hevent
        rw [pushActive_active hpush (by
          rintro reason rfl
          exact hevent trivial)]
        exact .active hall haccepts

/-- **Every sequence.** -/
theorem holds_pushAll (fromStr : String → Except String Json) (limits : CollectorLimits)
    (es : List ChatStreamEvent) :
    Holds fromStr limits es (pushAll fromStr (withLimits limits) es).2 := by
  induction es using List.reverseRecOn with
  | nil => exact .active (by simp) ((accepts_nil (Nat.zero_le _)).mpr rfl)
  | append_singleton es event ih =>
    rw [pushAll_append]
    show Holds fromStr limits _ (Method.on (pushInPlace fromStr event) _).2
    rw [on_pushInPlace]
    exact ih.push event

theorem Holds.settled (h : Holds fromStr limits es self) : Settled fromStr self := by
  intro hfinished
  cases h with
  | active => cases hfinished
  | failed => cases hfinished
  | finished hes hbody h hcomplete => exact ⟨hcomplete, _, rfl⟩

/-- **The protocol of a collector**, after any sequence of events and under any limits: what it holds
is what the accepted events say, and what it does next goes by its state. -/
theorem collector_protocol (fromStr : String → Except String Json) (limits : CollectorLimits)
    (es : List ChatStreamEvent) :
    Holds fromStr limits es (pushAll fromStr (withLimits limits) es).2 ∧
      Protocol fromStr (pushAll fromStr (withLimits limits) es).2 :=
  ⟨holds_pushAll fromStr limits es, (holds_pushAll fromStr limits es).settled.protocol⟩

end Holding

/-! ## Sequences that say the same -/

/-- The fragments of one call come to the same. -/
structure SameCall (ds ds' : List ToolCallDelta) : Prop where
  absent : ds = [] ↔ ds' = []
  ids : idsOf ds = idsOf ds'
  names : namesOf ds = namesOf ds'
  arguments : argumentsOf ds = argumentsOf ds'
  extensions : mergeAll .empty (extensionsOf ds) = mergeAll .empty (extensionsOf ds')

/-- Two sequences of events say the same, whatever the fragments and the order between the parts. -/
structure SameContent (es es' : List ChatStreamEvent) : Prop where
  text : textOf es = textOf es'
  calls : ∀ index, SameCall (deltasAt index es) (deltasAt index es')
  usages : usages es = usages es'
  starts : starts es = starts es'
  reasons : reasons es = reasons es'

theorem SameCall.refl (ds : List ToolCallDelta) : SameCall ds ds := ⟨Iff.rfl, rfl, rfl, rfl, rfl⟩

theorem SameCall.symm {ds ds' : List ToolCallDelta} (h : SameCall ds ds') : SameCall ds' ds :=
  ⟨h.absent.symm, h.ids.symm, h.names.symm, h.arguments.symm, h.extensions.symm⟩

theorem SameCall.trans {ds ds' ds'' : List ToolCallDelta} (h : SameCall ds ds')
    (h' : SameCall ds' ds'') : SameCall ds ds'' :=
  ⟨h.absent.trans h'.absent, h.ids.trans h'.ids, h.names.trans h'.names,
    h.arguments.trans h'.arguments, h.extensions.trans h'.extensions⟩

theorem SameContent.refl (es : List ChatStreamEvent) : SameContent es es :=
  ⟨rfl, fun _ => .refl _, rfl, rfl, rfl⟩

theorem SameContent.symm {es es' : List ChatStreamEvent} (h : SameContent es es') :
    SameContent es' es :=
  ⟨h.text.symm, fun index => (h.calls index).symm, h.usages.symm, h.starts.symm, h.reasons.symm⟩

theorem SameContent.trans {es es' es'' : List ChatStreamEvent} (h : SameContent es es')
    (h' : SameContent es' es'') : SameContent es es'' :=
  ⟨h.text.trans h'.text, fun index => (h.calls index).trans (h'.calls index),
    h.usages.trans h'.usages, h.starts.trans h'.starts, h.reasons.trans h'.reasons⟩

section Same

variable {limits : CollectorLimits} {es es' : List ChatStreamEvent}

theorem deltasAt_index {index : Nat} : ∀ delta ∈ deltasAt index es, delta.index = index := by
  intro delta hdelta
  obtain ⟨event, -, hevent⟩ := List.mem_filterMap.mp hdelta
  unfold delta? at hevent
  split at hevent
  · split at hevent
    · rename_i h
      cases hevent
      exact h
    · cases hevent
  · cases hevent

/-- What is pending for a call follows from what its fragments come to. -/
theorem pendingAfter_eq_ok {ds : List ToolCallDelta} {new : Option PendingToolCall} :
    pendingAfter limits none ds = .ok new ↔
      (ds = [] ∧ new = none) ∨
        (ds ≠ [] ∧ ∃ pending, new = some pending ∧ Gathers limits .default ds pending) := by
  unfold pendingAfter
  by_cases hds : ds = []
  · rw [if_pos hds]
    constructor
    · intro h
      exact .inl ⟨hds, (Except.ok.inj h).symm⟩
    · rintro (⟨-, rfl⟩ | ⟨hne, -⟩)
      · rfl
      · exact absurd hds hne
  · rw [if_neg hds, map_eq_ok]
    have hgathers : ∀ pending, ds.foldlM (extendBy limits) (PendingToolCall.default) = .ok pending ↔
        Gathers limits .default ds pending :=
      fun pending => extendAll_eq_ok (Nat.zero_le _) (Nat.zero_le _)
    constructor
    · rintro ⟨pending, h, rfl⟩
      exact .inr ⟨hds, pending, rfl, (hgathers pending).mp h⟩
    · rintro (⟨hnil, -⟩ | ⟨-, pending, rfl, h⟩)
      · exact absurd hnil hds
      · exact ⟨pending, (hgathers pending).mpr h, rfl⟩

theorem pendingAfter_congr {index : Nat} {new : Option PendingToolCall}
    (h : SameCall (deltasAt index es) (deltasAt index es'))
    (hnew : pendingAfter limits none (deltasAt index es) = .ok new) :
    pendingAfter limits none (deltasAt index es') = .ok new := by
  rcases pendingAfter_eq_ok.mp hnew with ⟨hnil, rfl⟩ | ⟨hne, pending, rfl, hgathers⟩
  · exact pendingAfter_eq_ok.mpr (.inl ⟨h.absent.mp hnil, rfl⟩)
  · refine pendingAfter_eq_ok.mpr (.inr ⟨fun hnil => hne (h.absent.mpr hnil), pending, rfl, ?_⟩)
    obtain ⟨delta, hdelta⟩ := List.exists_mem_of_ne_nil _ hne
    have hindex : index ≤ limits.maxToolCallIndex := by
      rw [← deltasAt_index delta hdelta]
      exact hgathers.index delta hdelta
    refine ⟨fun d hd => (deltasAt_index d hd).trans_le hindex, ?_, ?_, ?_, ?_, hgathers.argumentBytes,
      hgathers.extensionKeys⟩
    · rw [← h.ids]
      exact hgathers.id
    · rw [← h.names]
      exact hgathers.name
    · rw [← h.arguments]
      exact hgathers.arguments
    · exact h.extensions.symm.trans hgathers.extensions

/-- A body that says the same is accepted with the same data. -/
theorem accepts_congr {data : Collected} (h : SameContent es es')
    (haccepts : Accepts limits new.data es data) : Accepts limits new.data es' data := by
  refine ⟨?_, haccepts.textBytes, ?_, ?_, ?_, ?_, haccepts.unstarted, haccepts.reason⟩
  · rw [← h.text]
    exact haccepts.text
  · exact fun index => pendingAfter_congr (h.calls index) (haccepts.calls index)
  · rw [← h.usages]
    exact haccepts.usage
  · rw [← h.starts]
    exact haccepts.started
  · rw [← h.starts]
    exact haccepts.once

theorem reasons_eq_nil : reasons es = [] ↔ ∀ event ∈ es, ¬IsTerminal event := by
  unfold reasons
  rw [List.filterMap_eq_nil_iff]
  refine forall_congr' fun event => forall_congr' fun _ => ?_
  cases event with
  | finished reason => exact ⟨fun h => (by cases h), fun h => absurd trivial h⟩
  | _ => exact ⟨fun _ => not_false, fun _ => rfl⟩

/-- **A sequence that says the same is accepted, with the same response.** -/
theorem collects_congr {fromStr : String → Except String Json} {reason : FinishReason}
    {response : ChatResponse} (h : SameContent es es')
    (hcollects : Collects fromStr limits (es ++ [.finished reason]) response) :
    Collects fromStr limits (es' ++ [.finished reason]) response := by
  obtain ⟨body, reason', data, hends⟩ := collects_iff.mp hcollects
  obtain ⟨rfl, hlast⟩ := List.append_inj' hends.events rfl
  cases hlast
  have hbody' := reasons_eq_nil.mp (h.reasons.symm.trans (reasons_eq_nil.mpr hends.unfinished))
  have hpushed : pushBody fromStr limits new.data es' = .ok data :=
    (pushBody_eq_ok hbody' (Nat.zero_le _)).mpr
      (accepts_congr h ((pushBody_eq_ok hends.unfinished (Nat.zero_le _)).mp hends.pushed))
  exact collects_iff.mpr ⟨es', reason, data, rfl, hbody', hpushed, hends.valid, hends.finish⟩

end Same

/-! ## Changes that keep the content -/

/-- What an event is about. -/
inductive Track where
  | text
  | call (index : Nat)
  | usage
  | start
  | terminal
  deriving DecidableEq

def track : ChatStreamEvent → Track
  | .responseStarted _ _ _ => .start
  | .textDelta _ => .text
  | .toolCallDelta delta => .call delta.index
  | .usage _ => .usage
  | .finished _ => .terminal

/-- One change in the fragments of a response or in their order. -/
inductive Refragment : List ChatStreamEvent → List ChatStreamEvent → Prop
  /-- Text in two fragments instead of one. -/
  | text (before after : List ChatStreamEvent) (a b : String) :
      Refragment (before ++ .textDelta (a ++ b) :: after)
        (before ++ .textDelta a :: .textDelta b :: after)
  /-- Arguments in two fragments instead of one. -/
  | arguments (before after : List ChatStreamEvent) (delta : ToolCallDelta) (a b : String) :
      Refragment (before ++ .toolCallDelta { delta with argumentsFragment := a ++ b } :: after)
        (before ++ .toolCallDelta { delta with argumentsFragment := a } ::
          .toolCallDelta ⟨delta.index, none, none, b, .empty⟩ :: after)
  /-- The identifier of a call in another of its fragments. -/
  | id (before between after : List ChatStreamEvent) (delta delta' : ToolCallDelta) (id : ToolCallId)
      (hindex : delta'.index = delta.index) :
      Refragment (before ++ .toolCallDelta { delta with id := some id } :: between ++
          .toolCallDelta { delta' with id := none } :: after)
        (before ++ .toolCallDelta { delta with id := none } :: between ++
          .toolCallDelta { delta' with id := some id } :: after)
  /-- The name of a call in another of its fragments. -/
  | name (before between after : List ChatStreamEvent) (delta delta' : ToolCallDelta) (name : ToolName)
      (hindex : delta'.index = delta.index) :
      Refragment (before ++ .toolCallDelta { delta with name := some name } :: between ++
          .toolCallDelta { delta' with name := none } :: after)
        (before ++ .toolCallDelta { delta with name := none } :: between ++
          .toolCallDelta { delta' with name := some name } :: after)
  /-- Two events that are not about the same, the other way round. -/
  | swap (before after : List ChatStreamEvent) (event event' : ChatStreamEvent)
      (hne : track event ≠ track event') :
      Refragment (before ++ event :: event' :: after) (before ++ event' :: event :: after)

/-- A call has at most one identifier and one name. -/
def Single (es : List ChatStreamEvent) : Prop :=
  ∀ index, (idsOf (deltasAt index es)).length ≤ 1 ∧ (namesOf (deltasAt index es)).length ≤ 1

section Refragmenting

variable {es es' before after : List ChatStreamEvent}

theorem SameContent.single (h : SameContent es es') (hsingle : Single es) : Single es' :=
  fun index => ⟨(h.calls index).ids ▸ (hsingle index).1, (h.calls index).names ▸ (hsingle index).2⟩

theorem deltasAt_append (index : Nat) :
    deltasAt index (es ++ es') = deltasAt index es ++ deltasAt index es' :=
  List.filterMap_append

theorem deltasAt_cons (index : Nat) (delta : ToolCallDelta) :
    deltasAt index (.toolCallDelta delta :: es) =
      if delta.index = index then delta :: deltasAt index es else deltasAt index es := by
  unfold deltasAt
  rw [List.filterMap_cons]
  unfold delta?
  by_cases hindex : delta.index = index
  · simp [hindex]
  · simp [hindex]

theorem idsOf_append (ds ds' : List ToolCallDelta) : idsOf (ds ++ ds') = idsOf ds ++ idsOf ds' :=
  List.filterMap_append

theorem namesOf_append (ds ds' : List ToolCallDelta) :
    namesOf (ds ++ ds') = namesOf ds ++ namesOf ds' := List.filterMap_append

theorem argumentsOf_append (ds ds' : List ToolCallDelta) :
    argumentsOf (ds ++ ds') = argumentsOf ds ++ argumentsOf ds' := by
  unfold argumentsOf
  rw [List.map_append, concat_append]

theorem mergeAll_append (self : Extensions) (others others' : List Extensions) :
    mergeAll self (others ++ others') = mergeAll self others >>= fun next => mergeAll next others' :=
  List.foldlM_append

/-- A change inside the fragments of a call. -/
theorem sameCall_middle (pre post : List ToolCallDelta) {ds ds' : List ToolCallDelta} (hds : ds ≠ [])
    (hds' : ds' ≠ []) (hids : idsOf ds = idsOf ds') (hnames : namesOf ds = namesOf ds')
    (harguments : argumentsOf ds = argumentsOf ds')
    (hextensions : ∀ self, mergeAll self (extensionsOf ds) = mergeAll self (extensionsOf ds')) :
    SameCall (pre ++ (ds ++ post)) (pre ++ (ds' ++ post)) := by
  refine ⟨?_, ?_, ?_, ?_, ?_⟩
  · simp [hds, hds']
  · rw [idsOf_append, idsOf_append, idsOf_append, idsOf_append, hids]
  · rw [namesOf_append, namesOf_append, namesOf_append, namesOf_append, hnames]
  · rw [argumentsOf_append, argumentsOf_append, argumentsOf_append, argumentsOf_append, harguments]
  · unfold extensionsOf at hextensions ⊢
    simp only [List.map_append, mergeAll_append, hextensions]

/-- Events that a part does not see together may change places. -/
theorem filterMap_swap {α : Type} {f : ChatStreamEvent → Option α} {event event' : ChatStreamEvent}
    (h : f event = none ∨ f event' = none) :
    (before ++ event :: event' :: after).filterMap f =
      (before ++ event' :: event :: after).filterMap f := by
  rw [List.filterMap_append, List.filterMap_append]
  rcases h with h | h
  · simp [List.filterMap_cons, h]
  · simp [List.filterMap_cons, h]

theorem same_swap {event event' : ChatStreamEvent} (hne : track event ≠ track event') :
    SameContent (before ++ event :: event' :: after) (before ++ event' :: event :: after) := by
  have hcalls : ∀ index, delta? index event = none ∨ delta? index event' = none := by
    intro index
    cases event with
    | toolCallDelta delta =>
      cases event' with
      | toolCallDelta delta' =>
        by_cases hindex : delta.index = index
        · refine .inr (if_neg fun hindex' => hne ?_)
          show Track.call delta.index = .call delta'.index
          rw [hindex, hindex']
        · exact .inl (if_neg hindex)
      | _ => exact .inr rfl
    | _ => exact .inl rfl
  have hpart : (text? event = none ∨ text? event' = none) ∧
      (usage? event = none ∨ usage? event' = none) ∧ (start? event = none ∨ start? event' = none) ∧
      (reason? event = none ∨ reason? event' = none) := by
    cases event <;> cases event' <;> simp_all [track, text?, usage?, start?, reason?]
  obtain ⟨htext, husage, hstart, hreason⟩ := hpart
  refine ⟨congrArg concat (filterMap_swap htext), fun index => ?_, filterMap_swap husage,
    filterMap_swap hstart, filterMap_swap hreason⟩
  have heq : deltasAt index (before ++ event :: event' :: after) =
      deltasAt index (before ++ event' :: event :: after) := filterMap_swap (hcalls index)
  rw [heq]
  exact .refl _

/-- Only the fragments of one call changed. -/
theorem same_of_calls {mid mid' : List ChatStreamEvent}
    (htext : mid.filterMap text? = mid'.filterMap text?)
    (husages : mid.filterMap usage? = mid'.filterMap usage?)
    (hstarts : mid.filterMap start? = mid'.filterMap start?)
    (hreasons : mid.filterMap reason? = mid'.filterMap reason?)
    (hcalls : ∀ index, SameCall (deltasAt index (before ++ (mid ++ after)))
      (deltasAt index (before ++ (mid' ++ after)))) :
    SameContent (before ++ (mid ++ after)) (before ++ (mid' ++ after)) := by
  refine ⟨?_, hcalls, ?_, ?_, ?_⟩
  · unfold textOf
    simp only [List.filterMap_append, htext]
  · unfold usages
    simp only [List.filterMap_append, husages]
  · unfold starts
    simp only [List.filterMap_append, hstarts]
  · unfold reasons
    simp only [List.filterMap_append, hreasons]

/-- Between an element and where it may move to is nothing, in a list of at most one. -/
theorem middle_nil {α : Type} {l m r : List α} {a : α}
    (h : (l ++ (a :: m ++ r)).length ≤ 1 ∨ (l ++ (m ++ a :: r)).length ≤ 1) : m = [] := by
  apply List.eq_nil_of_length_eq_zero
  rcases h with h | h
  · simp at h
    omega
  · simp at h
    omega

/-- Two fragments of a call, with what comes between them. -/
theorem deltasAt_pair {between : List ChatStreamEvent} (d e : ToolCallDelta) (h : e.index = d.index)
    (index : Nat) : deltasAt index (before ++ .toolCallDelta d :: between ++ .toolCallDelta e :: after) =
      deltasAt index before ++
        ((if d.index = index then d :: (deltasAt index between ++ [e]) else deltasAt index between) ++
          deltasAt index after) := by
  rw [deltasAt_append, deltasAt_append, deltasAt_cons, deltasAt_cons, h]
  by_cases hindex : d.index = index
  · simp [hindex]
  · simp [hindex]

/-- Something moves from one fragment of a call to another. -/
theorem same_move {between : List ChatStreamEvent} {d e d' e' : ToolCallDelta} {index : Nat}
    (hd : d.index = index) (he : e.index = index) (hd' : d'.index = index) (he' : e'.index = index)
    (hargs : d.argumentsFragment = d'.argumentsFragment ∧ e.argumentsFragment = e'.argumentsFragment)
    (hexts : d.extensions = d'.extensions ∧ e.extensions = e'.extensions)
    (hids : idsOf (d :: (deltasAt index between ++ [e])) = idsOf (d' :: (deltasAt index between ++ [e'])))
    (hnames : namesOf (d :: (deltasAt index between ++ [e])) =
      namesOf (d' :: (deltasAt index between ++ [e']))) :
    SameContent (before ++ .toolCallDelta d :: between ++ .toolCallDelta e :: after)
      (before ++ .toolCallDelta d' :: between ++ .toolCallDelta e' :: after) := by
  refine ⟨?_, fun i => ?_, ?_, ?_, ?_⟩
  · simp [textOf, text?, List.filterMap_cons]
  · rw [deltasAt_pair d e (he.trans hd.symm), deltasAt_pair d' e' (he'.trans hd'.symm), hd, hd']
    by_cases hi : index = i
    · subst hi
      rw [if_pos rfl, if_pos rfl]
      refine sameCall_middle _ _ (List.cons_ne_nil _ _) (List.cons_ne_nil _ _) hids hnames ?_
        fun self => ?_
      · simp [argumentsOf, hargs]
      · simp [extensionsOf, hexts]
    · rw [if_neg hi, if_neg hi]
      exact .refl _
  · simp [usages, usage?, List.filterMap_cons]
  · simp [starts, start?, List.filterMap_cons]
  · simp [reasons, reason?, List.filterMap_cons]

/-- **A change in the fragments keeps the content.** -/
theorem Refragment.same (h : Refragment es es') (hsingle : Single es ∨ Single es') :
    SameContent es es' := by
  cases h with
  | text before after a b =>
    refine ⟨?_, fun index => ?_, ?_, ?_, ?_⟩
    · simp [textOf, text?, concat, String.append_assoc]
    · have heq : deltasAt index (before ++ .textDelta (a ++ b) :: after) =
          deltasAt index (before ++ .textDelta a :: .textDelta b :: after) := by
        simp [deltasAt, delta?, List.filterMap_cons]
      rw [heq]
      exact .refl _
    · simp [usages, usage?, List.filterMap_cons]
    · simp [starts, start?, List.filterMap_cons]
    · simp [reasons, reason?, List.filterMap_cons]
  | arguments before after delta a b =>
    have hsame : SameContent
        (before ++ ([.toolCallDelta { delta with argumentsFragment := a ++ b }] ++ after))
        (before ++ ([.toolCallDelta { delta with argumentsFragment := a },
          .toolCallDelta ⟨delta.index, none, none, b, .empty⟩] ++ after)) := by
      refine same_of_calls rfl rfl rfl rfl fun index => ?_
      rw [deltasAt_append, deltasAt_append, deltasAt_append, deltasAt_append]
      by_cases hindex : delta.index = index
      · refine sameCall_middle _ _ ?_ ?_ ?_ ?_ ?_ fun self => ?_
        · simp [deltasAt, delta?, hindex]
        · simp [deltasAt, delta?, hindex]
        · simp [deltasAt, delta?, hindex, idsOf, List.filterMap_cons]
        · simp [deltasAt, delta?, hindex, namesOf, List.filterMap_cons]
        · simp [deltasAt, delta?, hindex, argumentsOf, concat]
        · simp [deltasAt, delta?, hindex, extensionsOf, mergeAll, mergeExtensions, Except.map]
      · have hnil : deltasAt index [.toolCallDelta { delta with argumentsFragment := a ++ b }] =
            deltasAt index [.toolCallDelta { delta with argumentsFragment := a },
              .toolCallDelta ⟨delta.index, none, none, b, .empty⟩] := by
          simp [deltasAt, delta?, hindex]
        rw [hnil]
        exact .refl _
    exact hsame
  | id before between after delta delta' id hindex =>
    have hnil : idsOf (deltasAt delta.index between) = [] := by
      refine middle_nil (l := idsOf (deltasAt delta.index before))
        (r := idsOf (deltasAt delta.index after)) (a := id) ?_
      refine hsingle.imp (fun h => ?_) fun h => ?_
      · have hids := (h delta.index).1
        rw [deltasAt_pair { delta with id := some id } { delta' with id := none } hindex, if_pos rfl,
          idsOf_append, idsOf_append] at hids
        simpa [idsOf, List.filterMap_cons] using hids
      · have hids := (h delta.index).1
        rw [deltasAt_pair { delta with id := none } { delta' with id := some id } hindex, if_pos rfl,
          idsOf_append, idsOf_append] at hids
        simpa [idsOf, List.filterMap_cons] using hids
    refine same_move rfl hindex rfl hindex ⟨rfl, rfl⟩ ⟨rfl, rfl⟩ ?_ ?_
    · unfold idsOf at hnil ⊢
      simp [hnil]
    · simp [namesOf, List.filterMap_cons]
  | name before between after delta delta' name hindex =>
    have hnil : namesOf (deltasAt delta.index between) = [] := by
      refine middle_nil (l := namesOf (deltasAt delta.index before))
        (r := namesOf (deltasAt delta.index after)) (a := name) ?_
      refine hsingle.imp (fun h => ?_) fun h => ?_
      · have hnames := (h delta.index).2
        rw [deltasAt_pair { delta with name := some name } { delta' with name := none } hindex, if_pos rfl,
          namesOf_append, namesOf_append] at hnames
        simpa [namesOf, List.filterMap_cons] using hnames
      · have hnames := (h delta.index).2
        rw [deltasAt_pair { delta with name := none } { delta' with name := some name } hindex, if_pos rfl,
          namesOf_append, namesOf_append] at hnames
        simpa [namesOf, List.filterMap_cons] using hnames
    refine same_move rfl hindex rfl hindex ⟨rfl, rfl⟩ ⟨rfl, rfl⟩ ?_ ?_
    · simp [idsOf, List.filterMap_cons]
    · unfold namesOf at hnil ⊢
      simp [hnil]
  | swap before after event event' hne => exact same_swap hne

end Refragmenting

/-! ## The response -/

/-- The response is what the body says, its calls in the order of their indices. -/
structure Describes (fromStr : String → Except String Json) (body : List ChatStreamEvent)
    (reason : FinishReason) (response : ChatResponse) : Prop where
  content : response.message.content = if textOf body = "" then [] else [.text (textOf body)]
  message : response.message.extensions = .empty
  calls : ∃ indices : List Nat, indices.Pairwise (· < ·) ∧
    (∀ index, index ∈ indices ↔ deltasAt index body ≠ []) ∧
    List.Forall₂ (fun index call => idsOf (deltasAt index body) = [call.id] ∧
      namesOf (deltasAt index body) = [call.name] ∧
      fromStr (argumentsOf (deltasAt index body)) = .ok call.arguments ∧
      mergeAll .empty (extensionsOf (deltasAt index body)) = .ok call.extensions)
      indices response.message.toolCalls
  usage : (usages body).foldlM usageAfter none = .ok response.usage
  metadata : starts body = [(response.responseId, response.model, response.extensions)] ∨
    starts body = [] ∧ response.responseId = none ∧ response.model = none ∧
      response.extensions = .empty
  reason : response.finishReason = reason

section Describing

variable {fromStr : String → Except String Json} {limits : CollectorLimits}
  {es body body' : List ChatStreamEvent} {reason : FinishReason} {data : Collected}
  {response : ChatResponse}

theorem Ends.accepts (h : Ends fromStr limits new.data es response body reason data) :
    Accepts limits new.data body data :=
  (pushBody_eq_ok h.unfinished (Nat.zero_le _)).mp h.pushed

/-- What is pending for an index, from its fragments. -/
theorem Accepts.gathers (h : Accepts limits new.data body data) {index : Nat}
    {pending : PendingToolCall} (hpending : data.toolCalls.get? index = some pending) :
    Gathers limits .default (deltasAt index body) pending := by
  have hcalls := h.calls index
  rw [hpending] at hcalls
  rcases pendingAfter_eq_ok.mp hcalls with ⟨-, hnone⟩ | ⟨-, _, hsome, hgathers⟩
  · cases hnone
  · cases hsome
    exact hgathers

theorem Accepts.absent (h : Accepts limits new.data body data) (index : Nat) :
    data.toolCalls.get? index = none ↔ deltasAt index body = [] := by
  rcases pendingAfter_eq_ok.mp (h.calls index) with ⟨hnil, hnone⟩ | ⟨hne, _, hsome, -⟩
  · exact ⟨fun _ => hnil, fun _ => hnone⟩
  · rw [hsome]
    exact ⟨fun h => (by cases h), fun h => absurd h hne⟩

/-- **A collected response is what its events say.** -/
theorem Ends.describes (h : Ends fromStr limits new.data es response body reason data) :
    Describes fromStr body reason response := by
  have haccepts := h.accepts
  have htext : data.text = textOf body := by
    rw [haccepts.text]
    exact String.empty_append
  have hstate : (ended limits data reason).state = .finished := rfl
  obtain ⟨response', hfinish, hcarries⟩ :=
    finish_carries hstate (validateFinished_eq_ok.mp h.valid) rfl
  obtain rfl : response' = response := Except.ok.inj (hfinish.symm.trans h.finish)
  refine ⟨?_, hcarries.message, ?_, ?_, ?_, (Option.some.inj hcarries.reason).symm⟩
  · rw [← htext]
    exact hcarries.content
  · refine ⟨data.toolCalls.entries.map Prod.fst, ?_, fun index => ?_, ?_⟩
    · exact List.pairwise_map.mpr data.toolCalls.sorted
    · rw [ne_eq, ← haccepts.absent index, ← ne_eq, Option.ne_none_iff_exists', List.mem_map]
      constructor
      · rintro ⟨⟨i, pending⟩, hmem, rfl⟩
        exact ⟨pending, SortedMap.mem_entries.mp hmem⟩
      · rintro ⟨pending, hpending⟩
        exact ⟨(index, pending), SortedMap.mem_entries.mpr hpending, rfl⟩
    · rw [List.forall₂_map_left_iff]
      have hmem : ∀ entry ∈ data.toolCalls.entries,
          Gathers limits .default (deltasAt entry.1 body) entry.2 :=
        fun entry hentry => haccepts.gathers (SortedMap.mem_entries.mp hentry)
      refine ((List.forall₂_and_left _ _).mpr ⟨hmem, hcarries.calls⟩).imp ?_
      rintro entry call ⟨hgathers, hid, hname, harguments, hextensions⟩
      refine ⟨?_, ?_, ?_, ?_⟩
      · have hids := hgathers.id
        rw [hid] at hids
        exact hids
      · have hnames := hgathers.name
        rw [hname] at hnames
        exact hnames
      · have hargs : argumentsOf (deltasAt entry.1 body) = entry.2.arguments :=
          String.empty_append.symm.trans hgathers.arguments
        rw [hargs]
        exact harguments
      · rw [← hextensions]
        exact hgathers.extensions
  · rw [hcarries.usage]
    exact haccepts.usage
  · have honce : starts body = (metadata? data).toList := haccepts.once
    unfold metadata? at honce
    rw [hcarries.responseId, hcarries.model, hcarries.extensions]
    by_cases hstarted : data.responseStarted = true
    · rw [if_pos hstarted] at honce
      exact .inl honce
    · rw [if_neg hstarted] at honce
      obtain ⟨hid, hmodel, hext⟩ := haccepts.unstarted (Bool.not_eq_true _ ▸ hstarted)
      exact .inr ⟨honce, hid, hmodel, hext⟩

theorem Ends.single (h : Ends fromStr limits new.data es response body reason data) :
    Single body := by
  intro index
  have htoList : ∀ {α : Type} (x : Option α), x.toList.length ≤ 1 := fun x => by cases x <;> simp
  cases hpending : data.toolCalls.get? index with
  | none =>
    rw [(h.accepts.absent index).mp hpending]
    exact ⟨Nat.zero_le _, Nat.zero_le _⟩
  | some pending =>
    have hgathers := h.accepts.gathers hpending
    have hids : idsOf (deltasAt index body) = pending.id.toList := hgathers.id
    have hnames : namesOf (deltasAt index body) = pending.name.toList := hgathers.name
    rw [hids, hnames]
    exact ⟨htoList _, htoList _⟩

/-- Any number of changes keeps the content. -/
theorem same_of_refragments (h : Relation.EqvGen Refragment body body') :
    Single body ∨ Single body' → SameContent body body' := by
  induction h with
  | rel _ _ h => exact h.same
  | refl _ => exact fun _ => .refl _
  | symm _ _ _ ih => exact fun h => (ih h.symm).symm
  | trans _ _ _ _ _ ih ih' =>
    rintro (h | h)
    · have hsame := ih (.inl h)
      exact hsame.trans (ih' (.inl (hsame.single h)))
    · have hsame := ih' (.inr h)
      exact (ih (.inr (hsame.symm.single h))).trans hsame

/-- **Fragmentation does not matter.** A response that is collected is what its events say, and
every sequence that says the same is accepted as well, with an equal response. In particular any
change of fragments or of their order is such a sequence. -/
theorem fragmentation (h : Collects fromStr limits es response) :
    ∃ body reason, es = body ++ [.finished reason] ∧ Describes fromStr body reason response ∧
      (∀ body', SameContent body body' →
        Collects fromStr limits (body' ++ [.finished reason]) response) ∧
      ∀ body', Relation.EqvGen Refragment body body' →
        SameContent body body' ∧ Collects fromStr limits (body' ++ [.finished reason]) response := by
  obtain ⟨body, reason, data, hends⟩ := collects_iff.mp h
  obtain rfl := hends.events
  refine ⟨body, reason, rfl, hends.describes, fun body' hsame => collects_congr hsame h,
    fun body' hrefragment => ?_⟩
  have hsame := same_of_refragments hrefragment (.inl hends.single)
  exact ⟨hsame, collects_congr hsame h⟩

/-- A call in two fragments, and text between them. -/
def fragmentedCall : List ChatStreamEvent :=
  [.toolCallDelta ⟨3, some ⟨"a", nonblank_a⟩, none, "1", .empty⟩, .textDelta "x",
    .toolCallDelta ⟨3, none, some ⟨"f", by decide +kernel⟩, "2", .empty⟩, .finished .toolCalls]

/-- `serde_json` on the arguments of the call. -/
def twelve (text : String) : Except String Json :=
  if text = "12" then .ok (.number (.posInt 12)) else .error "not the arguments"

theorem fragmentation_call : ∃ response body reason,
    fragmentedCall = body ++ [.finished reason] ∧
      Describes twelve body reason response ∧
      response.message.toolCalls.map ToolCall.arguments = [.number (.posInt 12)] := by
  have hcollects : ∃ response, Collects twelve new.limits fragmentedCall response ∧
      response.message.toolCalls.map ToolCall.arguments = [.number (.posInt 12)] := by
    refine ⟨_, ⟨?_, rfl⟩, rfl⟩
    intro result hresult
    have hresults : (pushAll twelve (withLimits new.limits) fragmentedCall).1 =
        [.ok (), .ok (), .ok (), .ok ()] := rfl
    rw [hresults] at hresult
    simpa using hresult
  obtain ⟨response, hcollects, harguments⟩ := hcollects
  obtain ⟨body, reason, hevents, hdescribes, -⟩ := fragmentation hcollects
  exact ⟨response, body, reason, hevents, hdescribes, harguments⟩

end Describing

end ChatStreamCollector

end GroupAgent.Model
