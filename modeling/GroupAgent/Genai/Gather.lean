import GroupAgent.Genai.Frames
import Mathlib.Algebra.GroupWithZero.Nat

/-!
# The calls of fragments

What fragments of tool calls come to, whatever way they are cut (`Decoder::tool`,
`decode.rs:198-269`, and what it keeps of a call, 16-20, in
`crates/group-agent-genai/src/openai_chat`).

* `Comes`: the call that the fragments at one index come to. It is theirs alone: an identifier and
  a name that the first of them has and no other contradicts, and the arguments of all of them.
* `Gatherable`: fragments that come to calls with identifiers of their own, within the limit.
* `Tools`: a decoder that has taken fragments, and the events it gave for them.

Results: `Tools.gatherable` and **`Tools.fold_ok`**: fragments are taken when they are gatherable,
and only then.

The order of fragments of different calls is free, and their events come in the same order. What a
fragment says beyond its index, identifier, name and arguments is not read.
-/

namespace GroupAgent.Genai

open GroupAgent.Lib GroupAgent.Model GroupAgent.Model.ChatStreamCollector

/-- The fragments of one call. -/
def atIndex (index : Nat) (fragments : List Fragment) : List Fragment :=
  fragments.filter fun fragment => fragment.index = index

/-- The fragment says nothing else about the call. -/
def Fragment.Agrees (fragment : Fragment) (call : Call) : Prop :=
  (∀ id ∈ fragment.id, id = call.id.value) ∧ ∀ name ∈ fragment.name, name = call.name.value

/-- The call that fragments come to: the first of them names it, the others agree. -/
def Comes (fragments : List Fragment) : Option Call → Prop
  | none => fragments = []
  | some call => (∃ first ∈ fragments.head?, first.id = some call.id.value ∧
      first.name = some call.name.value) ∧
    (∀ fragment ∈ fragments, fragment.Agrees call) ∧
    call.arguments = concat (fragments.map Fragment.arguments)

/-- The bytes of the arguments of fragments. -/
def argumentBytes (fragments : List Fragment) : Nat :=
  (fragments.map fun fragment => fragment.arguments.utf8ByteSize).sum

/-- The bytes of arguments in an event. -/
def argumentSize : ChatStreamEvent → Nat
  | .toolCallDelta delta => delta.argumentsFragment.utf8ByteSize
  | _ => 0

/-- Fragments that come to calls. -/
structure Gatherable (maximum : Nat) (fragments : List Fragment) (calls : Nat → Option Call) :
    Prop where
  comes : ∀ index, Comes (atIndex index fragments) (calls index)
  distinct : ∀ i j c c', calls i = some c → calls j = some c' → c.id.value = c'.id.value → i = j
  bytes : argumentBytes fragments ≤ maximum

/-- What the events of a call say. -/
def Tells (deltas : List ToolCallDelta) : Option Call → Prop
  | none => deltas = []
  | some call => idsOf deltas = [call.id] ∧ namesOf deltas = [call.name] ∧
    argumentsOf deltas = call.arguments ∧ ∀ delta ∈ deltas, delta.extensions = .empty

/-- A decoder that has taken fragments, and the events it gave. -/
structure Tools (d : Decoder) (fragments : List Fragment) (es : List ChatStreamEvent) : Prop where
  comes : ∀ index, Comes (atIndex index fragments) (d.calls.get? index)
  ids : ∀ text, text ∈ d.ids ↔ ∃ index call, d.calls.get? index = some call ∧ call.id.value = text
  distinct : ∀ i j c c', d.calls.get? i = some c → d.calls.get? j = some c' →
    c.id.value = c'.id.value → i = j
  bytes : d.argumentBytes = argumentBytes fragments
  limit : d.argumentBytes ≤ d.config.streamingLimits.maxToolArgumentBytes
  tells : ∀ index, Tells (deltasAt index es) (d.calls.get? index)

section Comes

variable {fragments : List Fragment} {fragment : Fragment} {call call' : Call}

theorem toolCallId_ext {a b : ToolCallId} (h : a.value = b.value) : a = b := by
  obtain ⟨⟨a, ha⟩⟩ := a
  obtain ⟨⟨b, hb⟩⟩ := b
  obtain rfl : a = b := h
  rfl

theorem toolName_ext {a b : ToolName} (h : a.value = b.value) : a = b := by
  obtain ⟨⟨a, ha⟩⟩ := a
  obtain ⟨⟨b, hb⟩⟩ := b
  obtain rfl : a = b := h
  rfl

/-- Fragments come to one call at most. -/
theorem Comes.unique {c c' : Option Call} (h : Comes fragments c) (h' : Comes fragments c') :
    c = c' := by
  cases c with
  | none =>
    cases c' with
    | none => rfl
    | some call =>
      obtain ⟨first, hfirst, -⟩ := h'.1
      rw [show fragments = [] from h] at hfirst
      cases hfirst
  | some call =>
    obtain ⟨⟨first, hfirst, hid, hname⟩, -, harguments⟩ := h
    cases c' with
    | none =>
      rw [show fragments = [] from h'] at hfirst
      cases hfirst
    | some call' =>
      obtain ⟨⟨first', hfirst', hid', hname'⟩, -, harguments'⟩ := h'
      obtain rfl := Option.mem_unique hfirst hfirst'
      obtain ⟨id, name, arguments⟩ := call
      obtain ⟨id', name', arguments'⟩ := call'
      have hids : id = id' := toolCallId_ext (Option.some.inj (hid.symm.trans hid'))
      have hnames : name = name' := toolName_ext (Option.some.inj (hname.symm.trans hname'))
      rw [hids, hnames, show arguments = _ from harguments, show arguments' = _ from harguments']

theorem concat_snoc (texts : List String) (text : String) :
    concat (texts ++ [text]) = concat texts ++ text := by
  rw [concat_append]
  simp [concat]

/-- One fragment more of a call. -/
theorem comes_snoc_some (h : Comes fragments (some call)) (hagrees : fragment.Agrees call) :
    Comes (fragments ++ [fragment])
      (some { call with arguments := call.arguments ++ fragment.arguments }) := by
  obtain ⟨⟨first, hfirst, hnames⟩, hall, harguments⟩ := h
  refine ⟨⟨first, ?_, hnames⟩, ?_, ?_⟩
  · cases fragments with
    | nil => cases hfirst
    | cons f fs => exact hfirst
  · intro g hg
    rcases List.mem_append.mp hg with hg | hg
    · exact hall g hg
    · rw [List.mem_singleton.mp hg]
      exact hagrees
  · show call.arguments ++ fragment.arguments = _
    rw [List.map_append, List.map_cons, List.map_nil, concat_snoc, ← harguments]

/-- The first fragment of a call. -/
theorem comes_singleton {id : ToolCallId} {name : ToolName} (hid : fragment.id = some id.value)
    (hname : fragment.name = some name.value) :
    Comes [fragment] (some ⟨id, name, "" ++ fragment.arguments⟩) := by
  refine ⟨⟨fragment, rfl, hid, hname⟩, ?_, ?_⟩
  · intro g hg
    rw [List.mem_singleton.mp hg]
    refine ⟨fun text htext => ?_, fun text htext => ?_⟩
    · exact Option.mem_unique htext hid
    · exact Option.mem_unique htext hname
  · simp [concat]

theorem atIndex_append (index : Nat) (fs gs : List Fragment) :
    atIndex index (fs ++ gs) = atIndex index fs ++ atIndex index gs := List.filter_append ..

theorem argumentBytes_append (fs gs : List Fragment) :
    argumentBytes (fs ++ gs) = argumentBytes fs + argumentBytes gs := by
  unfold argumentBytes
  rw [List.map_append, List.sum_append]

end Comes

/-! ## Taking fragments -/

section Taking

variable {d d' : Decoder} {fragments rest : List Fragment} {fragment : Fragment}
  {es : List ChatStreamEvent}

theorem deltasAt_snoc (index : Nat) (delta : ToolCallDelta) :
    deltasAt index (es ++ [.toolCallDelta delta]) =
      deltasAt index es ++ if delta.index = index then [delta] else [] := by
  rw [deltasAt_append, deltasAt_cons]
  by_cases h : delta.index = index
  · simp [h, deltasAt]
  · simp [h, deltasAt]

/-- What is said of a call after one event more of it. -/
theorem tells_snoc_some {deltas : List ToolCallDelta} {call : Call} {delta : ToolCallDelta}
    (h : Tells deltas (some call)) (hid : delta.id = none) (hname : delta.name = none)
    (hextensions : delta.extensions = .empty) : Tells (deltas ++ [delta])
      (some { call with arguments := call.arguments ++ delta.argumentsFragment }) := by
  obtain ⟨hids, hnames, harguments, hall⟩ := h
  refine ⟨?_, ?_, ?_, ?_⟩
  · rw [idsOf_append, hids]
    simp [idsOf, hid]
  · rw [namesOf_append, hnames]
    simp [namesOf, hname]
  · rw [argumentsOf_append, harguments]
    simp [argumentsOf, concat]
  · intro e he
    rcases List.mem_append.mp he with he | he
    · exact hall e he
    · rw [List.mem_singleton.mp he]
      exact hextensions

/-- A call is written for a fragment. -/
theorem Tools.put (h : Tools d fragments es) (call : Call) {delta : ToolCallDelta}
    (hindex : delta.index = fragment.index)
    (hcalls : d'.calls = d.calls.upsert fragment.index fun _ => call)
    (hids : ∀ text, text ∈ d'.ids ↔ text = call.id.value ∨ text ∈ d.ids)
    (hsame : ∀ c, d.calls.get? fragment.index = some c → c.id = call.id)
    (hown : ∀ j c, j ≠ fragment.index → d.calls.get? j = some c → c.id.value ≠ call.id.value)
    (hcomes : Comes (atIndex fragment.index fragments ++ [fragment]) (some call))
    (hbytes : d'.argumentBytes = d.argumentBytes + fragment.arguments.utf8ByteSize)
    (hlimit : d'.argumentBytes ≤ d'.config.streamingLimits.maxToolArgumentBytes)
    (htells : Tells (deltasAt fragment.index es ++ [delta]) (some call)) :
    Tools d' (fragments ++ [fragment]) (es ++ [.toolCallDelta delta]) := by
  have hself : d'.calls.get? fragment.index = some call := by
    rw [hcalls, SortedMap.get?_upsert_self]
  have hother : ∀ j, j ≠ fragment.index → d'.calls.get? j = d.calls.get? j := fun j hj => by
    rw [hcalls, SortedMap.get?_upsert_of_ne hj]
  refine ⟨fun index => ?_, fun text => ?_, fun i j c c' hi hj hid => ?_, ?_, hlimit, fun index => ?_⟩
  · rw [atIndex_append]
    by_cases hi : index = fragment.index
    · subst hi
      rw [hself]
      simpa [atIndex] using hcomes
    · rw [hother index hi]
      simpa [atIndex, Ne.symm hi] using h.comes index
  · rw [hids, h.ids]
    constructor
    · rintro (rfl | ⟨index, c, hc, rfl⟩)
      · exact ⟨_, call, hself, rfl⟩
      · by_cases hi : index = fragment.index
        · subst hi
          exact ⟨_, call, hself, by rw [hsame c hc]⟩
        · exact ⟨index, c, (hother index hi).trans hc, rfl⟩
    · rintro ⟨index, c, hc, rfl⟩
      by_cases hi : index = fragment.index
      · subst hi
        obtain rfl := Option.some.inj (hself.symm.trans hc)
        exact .inl rfl
      · exact .inr ⟨index, c, (hother index hi).symm.trans hc, rfl⟩
  · by_cases hi' : i = fragment.index
    · by_cases hj' : j = fragment.index
      · exact hi'.trans hj'.symm
      · subst hi'
        obtain rfl := Option.some.inj (hself.symm.trans hi)
        exact absurd hid.symm (hown j c' hj' ((hother j hj').symm.trans hj))
    · by_cases hj' : j = fragment.index
      · subst hj'
        obtain rfl := Option.some.inj (hself.symm.trans hj)
        exact absurd hid (hown i c hi' ((hother i hi').symm.trans hi))
      · exact h.distinct i j c c' ((hother i hi').symm.trans hi) ((hother j hj').symm.trans hj) hid
  · rw [hbytes, h.bytes, argumentBytes_append]
    rfl
  · rw [deltasAt_snoc, hindex]
    by_cases hi : index = fragment.index
    · subst hi
      rw [if_pos rfl, hself]
      exact htells
    · rw [if_neg (Ne.symm hi), List.append_nil, hother index hi]
      exact h.tells index

/-- One fragment more is taken, with one event. -/
theorem Tools.add (h : Tools d fragments es) (hadd : d.addFragment fragment = .ok d') :
    ∃ delta : ToolCallDelta, d'.pending = d.pending ++ [.toolCallDelta delta] ∧
      delta.index = fragment.index ∧ delta.argumentsFragment = fragment.arguments ∧
      Tools d' (fragments ++ [fragment]) (es ++ [.toolCallDelta delta]) := by
  obtain ⟨found, hfound, hlimit, rfl⟩ := Decoder.addFragment_eq_ok.mp hadd
  rcases Decoder.callOf_eq_ok.mp hfound with ⟨call, hcall, hid, hname, rfl⟩ |
    ⟨hnone, id, name, hid, hname, hnot, rfl⟩
  · refine ⟨_, rfl, rfl, rfl, ?_⟩
    have hcomes := h.comes fragment.index
    have htells := h.tells fragment.index
    rw [hcall] at hcomes htells
    refine h.put { call with arguments := call.arguments ++ fragment.arguments } rfl rfl
      (fun text => ?_) (fun c hc => ?_) (fun j c hj hc => ?_) (comes_snoc_some hcomes ⟨hid, hname⟩) rfl
      hlimit (tells_snoc_some htells rfl rfl rfl)
    · refine ⟨.inr, ?_⟩
      rintro (rfl | htext)
      · exact (h.ids _).mpr ⟨fragment.index, call, hcall, rfl⟩
      · exact htext
    · rw [Option.some.inj (hc.symm.trans hcall)]
    · exact fun hsame => hj (h.distinct j fragment.index c call hc hcall hsame)
  · refine ⟨_, rfl, rfl, rfl, ?_⟩
    have hcomes := h.comes fragment.index
    have htells := h.tells fragment.index
    rw [hnone] at hcomes htells
    refine h.put ⟨id, name, "" ++ fragment.arguments⟩ rfl rfl (fun text => List.mem_cons)
      (fun c hc => ?_) (fun j c _ hc => ?_) ?_ rfl hlimit ?_
    · cases hnone.symm.trans hc
    · rintro hsame
      exact hnot ((h.ids _).mpr ⟨j, c, hc, hsame⟩)
    · rw [show atIndex fragment.index fragments = [] from hcomes]
      exact comes_singleton hid hname
    · rw [show deltasAt fragment.index es = [] from htells]
      refine ⟨rfl, rfl, ?_, fun delta hdelta => ?_⟩
      · simp [argumentsOf, concat]
      · rw [List.mem_singleton.mp hdelta]

theorem mem_atIndex {index : Nat} : fragment ∈ atIndex index fragments ↔
    fragment ∈ fragments ∧ fragment.index = index := by
  simp [atIndex]

theorem argumentBytes_le_append (fs gs : List Fragment) :
    argumentBytes fs ≤ argumentBytes (fs ++ gs) := by
  rw [argumentBytes_append]
  exact Nat.le_add_right _ _

/-- What has been taken is gatherable. -/
theorem Tools.gatherable (h : Tools d fragments es) :
    Gatherable d.config.streamingLimits.maxToolArgumentBytes fragments d.calls.get? :=
  ⟨h.comes, h.distinct, h.bytes ▸ h.limit⟩

/-- The call that some fragments come to begins with them. -/
theorem Comes.front {call call' : Call} {fs gs : List Fragment} (h : Comes fs (some call))
    (h' : Comes (fs ++ gs) (some call')) : call.id = call'.id ∧ call.name = call'.name := by
  obtain ⟨⟨first, hfirst, hid, hname⟩, -, -⟩ := h
  obtain ⟨⟨first', hfirst', hid', hname'⟩, -, -⟩ := h'
  have hsame : first' = first := by
    cases fs with
    | nil => cases hfirst
    | cons f fs => exact Option.mem_unique hfirst' hfirst
  subst hsame
  exact ⟨toolCallId_ext (Option.some.inj (hid.symm.trans hid')),
    toolName_ext (Option.some.inj (hname.symm.trans hname'))⟩

/-- A fragment is taken if it and what was taken can be gathered. -/
theorem Tools.add_ok (h : Tools d fragments es) {calls : Nat → Option Call}
    (hgather : Gatherable d.config.streamingLimits.maxToolArgumentBytes
      (fragments ++ fragment :: rest) calls) : ∃ d', d.addFragment fragment = .ok d' := by
  have hbytes : d.argumentBytes + fragment.arguments.utf8ByteSize ≤
      d.config.streamingLimits.maxToolArgumentBytes := by
    have hle := argumentBytes_le_append (fragments ++ [fragment]) rest
    rw [List.append_assoc, List.singleton_append] at hle
    have hadd := argumentBytes_append fragments [fragment]
    have hone : argumentBytes [fragment] = fragment.arguments.utf8ByteSize := Nat.add_zero _
    rw [h.bytes]
    have hlimit := hgather.bytes
    omega
  have hsplit : atIndex fragment.index (fragments ++ fragment :: rest) =
      atIndex fragment.index fragments ++ fragment :: atIndex fragment.index rest := by
    rw [atIndex_append]
    simp [atIndex]
  have hcomes := hgather.comes fragment.index
  have hat := h.comes fragment.index
  rw [hsplit] at hcomes
  cases hcall : calls fragment.index with
  | none =>
    rw [hcall] at hcomes
    cases (List.append_eq_nil_iff.mp hcomes).2
  | some call =>
    rw [hcall] at hcomes
    cases hget : d.calls.get? fragment.index with
    | some call' =>
      rw [hget] at hat
      obtain ⟨hid, hname⟩ := hat.front hcomes
      have hagrees : fragment.Agrees call' := by
        unfold Fragment.Agrees
        rw [hid, hname]
        exact hcomes.2.1 fragment (by simp)
      have hfound := Decoder.callOf_eq_ok.mpr (.inl ⟨call', hget, hagrees.1, hagrees.2, rfl⟩)
      exact ⟨_, Decoder.addFragment_eq_ok.mpr ⟨_, hfound, hbytes, rfl⟩⟩
    | none =>
      rw [hget] at hat
      rw [show atIndex fragment.index fragments = [] from hat] at hcomes
      obtain ⟨⟨first, hfirst, hid, hname⟩, -, -⟩ := hcomes
      obtain rfl := Option.some.inj hfirst
      have hnot : call.id.value ∉ d.ids := by
        intro hmem
        obtain ⟨index, call', hcall', hsame⟩ := (h.ids _).mp hmem
        have hat' := h.comes index
        have hall := hgather.comes index
        rw [hcall'] at hat'
        rw [atIndex_append] at hall
        cases hc : calls index with
        | none =>
          rw [hc] at hall
          obtain ⟨⟨first, hfirst, -⟩, -, -⟩ := hat'
          rw [(List.append_eq_nil_iff.mp hall).1] at hfirst
          cases hfirst
        | some call'' =>
          rw [hc] at hall
          obtain ⟨hid'', -⟩ := hat'.front hall
          have hindex := hgather.distinct index fragment.index call'' call hc hcall
            (hid'' ▸ hsame)
          rw [hindex, hget] at hcall'
          cases hcall'
      have hfound := Decoder.callOf_eq_ok.mpr
        (.inr ⟨hget, call.id, call.name, hid, hname, hnot, rfl⟩)
      exact ⟨_, Decoder.addFragment_eq_ok.mpr ⟨_, hfound, hbytes, rfl⟩⟩

/-- The event of a fragment: its index and its arguments. -/
def IsDelta (event : ChatStreamEvent) (fragment : Fragment) : Prop :=
  ∃ delta : ToolCallDelta, event = .toolCallDelta delta ∧ delta.index = fragment.index ∧
    delta.argumentsFragment = fragment.arguments

/-- The events of fragments, one for each in its place. -/
def Deltas (events : List ChatStreamEvent) (fragments : List Fragment) : Prop :=
  List.Forall₂ IsDelta events fragments

theorem Deltas.calls {events : List ChatStreamEvent} {fragments : List Fragment}
    (h : Deltas events fragments) : ∀ event ∈ events, ∃ delta : ToolCallDelta,
      event = .toolCallDelta delta ∧ ∃ fragment ∈ fragments, delta.index = fragment.index := by
  induction h with
  | nil => simp
  | @cons event fragment events fragments hevent _ ih =>
    obtain ⟨delta, rfl, hindex, -⟩ := hevent
    refine List.forall_mem_cons.mpr ⟨⟨delta, rfl, fragment, List.mem_cons_self, hindex⟩, ?_⟩
    intro event hevent
    obtain ⟨delta', rfl, f, hf, hindex'⟩ := ih event hevent
    exact ⟨delta', rfl, f, List.mem_cons_of_mem _ hf, hindex'⟩

theorem Deltas.bytes {events : List ChatStreamEvent} {fragments : List Fragment}
    (h : Deltas events fragments) : (events.map argumentSize).sum = argumentBytes fragments := by
  unfold argumentBytes
  induction h with
  | nil => rfl
  | cons hevent _ ih =>
    obtain ⟨delta, rfl, -, harguments⟩ := hevent
    rw [List.map_cons, List.sum_cons, List.map_cons, List.sum_cons, ih, ← harguments]
    rfl

/-- Fragments are taken, with an event each. -/
theorem Tools.fold : ∀ {rest fragments : List Fragment} {d : Decoder} {es : List ChatStreamEvent},
    Tools d fragments es → rest.foldlM Decoder.addFragment d = .ok d' →
      ∃ events, d'.pending = d.pending ++ events ∧ Deltas events rest ∧
        Tools d' (fragments ++ rest) (es ++ events)
  | [], fragments, d, es, h, hfold => by
    obtain rfl := Except.ok.inj hfold
    refine ⟨[], (List.append_nil _).symm, .nil, ?_⟩
    rw [List.append_nil, List.append_nil]
    exact h
  | fragment :: rest, fragments, d, es, h, hfold => by
    obtain ⟨d₁, hadd, hfold⟩ := bind_eq_ok.mp hfold
    obtain ⟨delta, hpending, hindex, harguments, h₁⟩ := h.add hadd
    obtain ⟨events, hpending', hdeltas, h'⟩ := h₁.fold hfold
    refine ⟨.toolCallDelta delta :: events, ?_, .cons ⟨delta, rfl, hindex, harguments⟩ hdeltas, ?_⟩
    · rw [hpending', hpending, List.append_assoc]
      rfl
    · rw [List.append_assoc, List.append_assoc] at h'
      exact h'

/-- Fragments are taken that can be gathered with those before. -/
theorem Tools.fold_ok {calls : Nat → Option Call} : ∀ {rest fragments : List Fragment} {d : Decoder}
    {es : List ChatStreamEvent}, Tools d fragments es →
      Gatherable d.config.streamingLimits.maxToolArgumentBytes (fragments ++ rest) calls →
      ∃ d', rest.foldlM Decoder.addFragment d = .ok d'
  | [], _, d, _, _, _ => ⟨d, rfl⟩
  | fragment :: rest, fragments, d, es, h, hgather => by
    obtain ⟨d₁, hadd⟩ := h.add_ok hgather
    obtain ⟨delta, -, -, -, h₁⟩ := h.add hadd
    rw [← (Decoder.addFragment_keeps hadd).config] at hgather
    have hgather' : Gatherable d₁.config.streamingLimits.maxToolArgumentBytes
        (fragments ++ [fragment] ++ rest) calls := by
      rw [List.append_assoc]
      exact hgather
    obtain ⟨d', hfold⟩ := h₁.fold_ok hgather'
    exact ⟨d', bind_eq_ok.mpr ⟨d₁, hadd, hfold⟩⟩

end Taking

end GroupAgent.Genai
