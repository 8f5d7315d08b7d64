import GroupAgent.Genai.Chunked
import Mathlib.Algebra.BigOperators.Group.Finset.Piecewise
import Mathlib.Algebra.Order.BigOperators.Group.List

/-!
# Calls in pieces

How the calls of a message can be cut into entries of `tool_calls`, against what `Decoder::tool`
(`decode.rs:198-269` of `crates/group-agent-genai/src/openai_chat`) asks of an entry: a `function`
object always (213-216), an `id` and a `name` in the first entry of an index (228-240), a `type`
never, and no entry that says another `id` or `name` than the first (221-226).

* `Cut`: the fragments of one call. **`sameCalls_of_cuts`**: they come to the same calls.
* `Shared`: a field that some part says and none says otherwise. `Pieces`: the entries of one call,
  its type, identifier and name in any of them, its arguments cut. `CutCalls`: those of all calls,
  in any order between calls.
* `Announces`: what the decoder asks of the entries of one call. `announces_of_comes`: entries that
  come to a call have it.

Results:
* **`CutCalls.same`**, **`CutCalls.readable_parts`**: announced entries are read as the calls are.
* **`CutCalls.readable_whole`**: calls are read when their entries are.

An entry without an index, or with one that is none of the calls', belongs to no call of the body
and is left out. What else an entry may hold is not read by either path.
-/

namespace GroupAgent.Genai

open GroupAgent.Lib GroupAgent.Model GroupAgent.Model.ChatStreamCollector

/-! ## Fragments -/

/-- The fragments of one call, as one fragment says it. -/
structure Cut (whole : Fragment) (parts : List Fragment) : Prop where
  first : ∃ first ∈ parts.head?, first.id = whole.id ∧ first.name = whole.name
  later : ∀ part ∈ parts, (part.id = none ∨ part.id = whole.id) ∧
    (part.name = none ∨ part.name = whole.name)
  arguments : concat (parts.map Fragment.arguments) = whole.arguments

section Fragments

variable {whole : Fragment} {parts fragments fragments' : List Fragment} {call : Option Call}

theorem comes_one : Comes [whole] call ↔ ∃ c, call = some c ∧ whole.id = some c.id.value ∧
    whole.name = some c.name.value ∧ c.arguments = whole.arguments := by
  have hconcat : concat ([whole].map Fragment.arguments) = whole.arguments := by simp [concat]
  cases call with
  | none =>
    constructor
    · intro h
      cases h
    · rintro ⟨_, h, -⟩
      cases h
  | some c =>
    constructor
    · rintro ⟨⟨first, hfirst, hid, hname⟩, -, harguments⟩
      obtain rfl := Option.some.inj hfirst
      exact ⟨c, rfl, hid, hname, harguments.trans hconcat⟩
    · rintro ⟨c', hc, hid, hname, harguments⟩
      obtain rfl := Option.some.inj hc
      refine ⟨⟨whole, rfl, hid, hname⟩, fun f hf => ?_, harguments.trans hconcat.symm⟩
      rw [List.mem_singleton.mp hf]
      exact ⟨fun id h => Option.mem_unique h hid, fun name h => Option.mem_unique h hname⟩

/-- The fragments of a call come to what one fragment does. -/
theorem Cut.comes (h : Cut whole parts) : Comes [whole] call ↔ Comes parts call := by
  obtain ⟨first, hfirst, hid, hname⟩ := h.first
  rw [comes_one]
  constructor
  · rintro ⟨c, rfl, hcid, hcname, harguments⟩
    refine ⟨⟨first, hfirst, hid.trans hcid, hname.trans hcname⟩, fun part hpart => ?_,
      harguments.trans h.arguments.symm⟩
    obtain ⟨hpid, hpname⟩ := h.later part hpart
    refine ⟨fun id hsome => ?_, fun name hsome => ?_⟩
    · rcases hpid with hnone | hsame
      · rw [hnone] at hsome
        cases hsome
      · exact Option.mem_unique hsome (hsame.trans hcid)
    · rcases hpname with hnone | hsame
      · rw [hnone] at hsome
        cases hsome
      · exact Option.mem_unique hsome (hsame.trans hcname)
  · intro hcomes
    cases call with
    | none =>
      rw [show parts = [] from hcomes] at hfirst
      cases hfirst
    | some c =>
      obtain ⟨⟨first', hfirst', hcid, hcname⟩, -, harguments⟩ := hcomes
      obtain rfl := Option.mem_unique hfirst hfirst'
      exact ⟨c, rfl, hid.symm.trans hcid, hname.symm.trans hcname, harguments.trans h.arguments⟩

theorem argumentBytes_eq_concat (fragments : List Fragment) :
    argumentBytes fragments = (concat (fragments.map Fragment.arguments)).utf8ByteSize := by
  induction fragments with
  | nil => rfl
  | cons fragment fragments ih =>
    show fragment.arguments.utf8ByteSize + argumentBytes fragments =
      (fragment.arguments ++ concat (fragments.map Fragment.arguments)).utf8ByteSize
    rw [ih, String.utf8ByteSize_append]

/-- The bytes of the arguments, call by call. -/
theorem argumentBytes_eq_sum {bound : Nat} (h : ∀ fragment ∈ fragments, fragment.index < bound) :
    argumentBytes fragments = ∑ index ∈ Finset.range bound, argumentBytes (atIndex index fragments) := by
  induction fragments with
  | nil => exact (Finset.sum_eq_zero fun _ _ => rfl).symm
  | cons fragment fragments ih =>
    obtain ⟨hfirst, hrest⟩ := List.forall_mem_cons.mp h
    have hcons : ∀ index, argumentBytes (atIndex index (fragment :: fragments)) =
        (if fragment.index = index then fragment.arguments.utf8ByteSize else 0) +
          argumentBytes (atIndex index fragments) := by
      intro index
      by_cases hindex : fragment.index = index
      · rw [if_pos hindex]
        simp [atIndex, hindex, argumentBytes]
      · rw [if_neg hindex, Nat.zero_add]
        simp [atIndex, hindex]
    rw [Finset.sum_congr rfl fun index _ => hcons index, Finset.sum_add_distrib, ← ih hrest,
      Finset.sum_ite_eq, if_pos (Finset.mem_range.mpr hfirst)]
    rfl

/-- **Cut calls are the same calls.** -/
theorem sameCalls_of_cuts (h : ∀ index, atIndex index fragments = [] ∧ atIndex index fragments' = [] ∨
    ∃ whole, atIndex index fragments = [whole] ∧ Cut whole (atIndex index fragments')) :
    SameCalls fragments fragments' := by
  constructor
  · intro index call
    rcases h index with ⟨hnil, hnil'⟩ | ⟨whole, hone, hcut⟩
    · rw [hnil, hnil']
    · rw [hone]
      exact hcut.comes
  · have hbytes : ∀ index, argumentBytes (atIndex index fragments) =
        argumentBytes (atIndex index fragments') := by
      intro index
      rcases h index with ⟨hnil, hnil'⟩ | ⟨whole, hone, hcut⟩
      · rw [hnil, hnil']
      · rw [hone, argumentBytes_eq_concat, argumentBytes_eq_concat, hcut.arguments]
        simp [concat]
    obtain ⟨bound, hbound⟩ : ∃ bound, ∀ fragment ∈ fragments ++ fragments', fragment.index < bound :=
      ⟨((fragments ++ fragments').map Fragment.index).sum + 1, fun fragment hfragment =>
        Nat.lt_succ_of_le (List.single_le_sum (by simp) _ (List.mem_map_of_mem hfragment))⟩
    rw [argumentBytes_eq_sum fun f hf => hbound f (List.mem_append_left _ hf),
      argumentBytes_eq_sum fun f hf => hbound f (List.mem_append_right _ hf)]
    exact Finset.sum_congr rfl fun index _ => hbytes index

/-- Fragments at the indices of their positions. -/
theorem atIndex_of_positions : ∀ {fragments : List Fragment} {start : Nat},
    (∀ i (h : i < fragments.length), fragments[i].index = start + i) → ∀ index,
      (index < start → atIndex index fragments = []) ∧
        atIndex (start + index) fragments = fragments[index]?.toList
  | [], start, _, index => ⟨fun _ => rfl, rfl⟩
  | fragment :: fragments, start, h, index => by
    have hfirst : fragment.index = start := h 0 (Nat.zero_lt_succ _)
    have hrest : ∀ i (h : i < fragments.length), fragments[i].index = start + 1 + i := fun i hi => by
      have hnext := h (i + 1) (Nat.succ_lt_succ hi)
      simp only [List.getElem_cons_succ] at hnext
      rw [hnext]
      omega
    constructor
    · intro hlt
      unfold atIndex
      rw [List.filter_cons_of_neg (by simp [hfirst]; omega)]
      exact ((atIndex_of_positions hrest index).1 (by omega))
    · cases index with
      | zero =>
        unfold atIndex
        rw [List.filter_cons_of_pos (by simp [hfirst])]
        rw [show List.filter _ fragments = [] from (atIndex_of_positions hrest (start + 0)).1 (by omega)]
        rfl
      | succ index =>
        unfold atIndex
        rw [List.filter_cons_of_neg (by simp [hfirst])]
        have hnext := (atIndex_of_positions hrest index).2
        rw [show start + 1 + index = start + (index + 1) by omega] at hnext
        exact hnext

end Fragments

/-! ## Entries -/

/-- A field of a part is left out, or what it is for the whole. -/
def Repeats (whole part : Option Json) : Prop := nonnull part = none ∨ nonnull part = nonnull whole

/-- A field that some part says, and no part says otherwise. -/
structure Shared (whole : Option Json) (parts : List (Option Json)) : Prop where
  repeats : ∀ part ∈ parts, Repeats whole part
  said : ∃ part ∈ parts, nonnull part = nonnull whole

/-- The entries of one call: what they say of it is said of it, and its arguments are cut. -/
structure Pieces (whole : Json) (parts : List Json) : Prop where
  type : Shared (field? whole "type") (parts.map fun part => field? part "type")
  id : Shared (field? whole "id") (parts.map fun part => field? part "id")
  name : Shared (functionField? whole "name") (parts.map fun part => functionField? part "name")
  function : (function? whole).isSome ↔ ∃ part ∈ parts, (function? part).isSome
  arguments : wholeText? (functionField? whole "arguments") =
    (parts.mapM fun part => wholeText? (functionField? part "arguments")).map concat

/-- What the decoder asks of the entries of one call: a function in each, and the identifier and the
name in the first. -/
structure Announces (parts : List Json) : Prop where
  function : ∀ part ∈ parts, (function? part).isSome
  first : ∀ first ∈ parts.head?, (nonnull (field? first "id")).isSome ∧
    (nonnull (functionField? first "name")).isSome

/-- The entries of an index. -/
def entriesAt (index : Nat) (parts : List Json) : List Json :=
  parts.filter fun part => index? part = some index

/-- The entries of all calls, with the indices of the calls. -/
structure CutCalls (tools parts : List Json) : Prop where
  indexed : ∀ part ∈ parts, ∃ index, index? part = some index ∧ index < tools.length
  cut : ∀ index (h : index < tools.length), Pieces tools[index] (entriesAt index parts)

/-- Calls with their indices. -/
def withIndices (tools : List Json) : List Json :=
  tools.zipIdx.map fun (tool, index) => setField "index" (.number (.posInt (.ofNat index))) tool

section Entries

variable {maximum : UInt32} {whole tool : Json} {parts tools tools' : List Json} {fragment : Fragment}
  {fragments : List Fragment}

theorem optionMapM_eq_some {α β : Type} {f : α → Option β} : ∀ {l : List α} {r : List β},
    l.mapM f = some r ↔ List.Forall₂ (fun a b => f a = some b) l r
  | [], r => by
    rw [List.forall₂_nil_left_iff]
    show some [] = some r ↔ _
    rw [Option.some.injEq]
    exact eq_comm
  | a :: l, r => by
    rw [List.mapM_cons, List.forall₂_cons_left_iff]
    cases ha : f a with
    | none =>
      constructor
      · intro h
        cases h
      · rintro ⟨b, _, h, -⟩
        cases h
    | some b =>
      show (l.mapM f).bind (fun bs => some (b :: bs)) = some r ↔ _
      rw [Option.bind_eq_some_iff]
      constructor
      · rintro ⟨bs, hbs, h⟩
        obtain rfl := Option.some.inj h
        exact ⟨b, bs, rfl, optionMapM_eq_some.mp hbs, rfl⟩
      · rintro ⟨b', bs, hb, hbs, rfl⟩
        obtain rfl := Option.some.inj hb
        exact ⟨bs, optionMapM_eq_some.mpr hbs, rfl⟩

/-- Everything of a list has a partner when each element has one. -/
theorem forall₂_of_forall {α β : Type} {R : α → β → Prop} : ∀ {l : List α}, (∀ a ∈ l, ∃ b, R a b) →
    ∃ r, List.Forall₂ R l r
  | [], _ => ⟨[], .nil⟩
  | a :: l, h => by
    obtain ⟨b, hb⟩ := h a List.mem_cons_self
    obtain ⟨r, hr⟩ := forall₂_of_forall fun c hc => h c (List.mem_cons_of_mem a hc)
    exact ⟨b :: r, .cons hb hr⟩

/-- The partners of a list's elements. -/
theorem forall₂_mem {α β : Type} {R : α → β → Prop} {l : List α} {r : List β}
    (h : List.Forall₂ R l r) : (∀ a ∈ l, ∃ b ∈ r, R a b) ∧ ∀ b ∈ r, ∃ a ∈ l, R a b := by
  induction h with
  | nil => simp
  | @cons a b l r hab _ ih =>
    constructor
    · intro c hc
      rcases List.mem_cons.mp hc with rfl | hc
      · exact ⟨b, List.mem_cons_self, hab⟩
      · obtain ⟨d, hd, hcd⟩ := ih.1 c hc
        exact ⟨d, List.mem_cons_of_mem b hd, hcd⟩
    · intro c hc
      rcases List.mem_cons.mp hc with rfl | hc
      · exact ⟨a, List.mem_cons_self, hab⟩
      · obtain ⟨d, hd, hdc⟩ := ih.2 c hc
        exact ⟨d, List.mem_cons_of_mem a hd, hdc⟩

theorem ReadsCall.withIndex (h : ReadsCall tool fragment) (index : Nat) :
    ReadsCall tool { fragment with index } := ⟨h.kind, h.function, h.id, h.name, h.arguments⟩

theorem Repeats.optional {whole part : Option Json} {text : Option String} (h : Repeats whole part)
    (hwhole : optional? whole = some text) : optional? part = some none ∨ optional? part = some text := by
  rcases h with hnone | hsame
  · left
    unfold optional?
    rw [hnone]
  · right
    rw [optional?_congr hsame]
    exact hwhole

/-- What one part says where it says something is what the whole says. -/
theorem Repeats.optional_eq {whole part : Option Json} (h : Repeats whole part)
    (hsome : (nonnull part).isSome) : optional? part = optional? whole := by
  rcases h with hnone | hsame
  · rw [hnone] at hsome
    cases hsome
  · exact optional?_congr hsame

/-- A field of the whole is read where it is read of every part. -/
theorem Shared.optional_whole {field : Json → Option Json} {whole : Option Json} {parts : List Json}
    (h : Shared whole (parts.map field)) : ∃ part ∈ parts, optional? (field part) = optional? whole := by
  obtain ⟨_, hpart, hsame⟩ := h.said
  obtain ⟨part, hmem, rfl⟩ := List.mem_map.mp hpart
  exact ⟨part, hmem, optional?_congr hsame⟩

/-- The arguments of entries are those of the call. -/
theorem Pieces.texts (h : Pieces whole parts) {arguments : String}
    (harguments : wholeText? (functionField? whole "arguments") = some arguments) :
    ∃ texts, List.Forall₂ (fun part text => wholeText? (functionField? part "arguments") = some text)
      parts texts ∧ concat texts = arguments := by
  have hall := h.arguments
  rw [harguments] at hall
  obtain ⟨texts, htexts, hconcat⟩ := Option.map_eq_some_iff.mp hall.symm
  exact ⟨texts, optionMapM_eq_some.mp htexts, hconcat⟩

/-- What entries that are read say of their arguments. -/
theorem texts_of_reads (hreads : List.Forall₂ ReadsCall parts fragments) :
    (parts.mapM fun part => wholeText? (functionField? part "arguments")) =
      some (fragments.map Fragment.arguments) := by
  rw [optionMapM_eq_some, List.forall₂_map_right_iff]
  exact hreads.imp fun _ _ hg => hg.arguments

/-- Every entry with a function is read when its call is. -/
theorem Pieces.readable_parts (h : Pieces whole parts)
    (hfunction : ∀ part ∈ parts, (function? part).isSome) (hreads : ReadsCall whole fragment) :
    ∀ part ∈ parts, ∃ fragment, ReadsCall part fragment := by
  intro part hpart
  obtain ⟨kind, hkind, hword⟩ := hreads.kind
  obtain ⟨texts, htexts, -⟩ := h.texts hreads.arguments
  obtain ⟨arguments, -, harguments⟩ := (forall₂_mem htexts).1 part hpart
  obtain ⟨id, hid⟩ : ∃ id, optional? (field? part "id") = some id :=
    ((h.id.repeats _ (List.mem_map_of_mem hpart)).optional hreads.id).elim (fun h => ⟨_, h⟩)
      fun h => ⟨_, h⟩
  obtain ⟨name, hname⟩ : ∃ name, optional? (functionField? part "name") = some name :=
    ((h.name.repeats _ (List.mem_map_of_mem hpart)).optional hreads.name).elim (fun h => ⟨_, h⟩)
      fun h => ⟨_, h⟩
  refine ⟨⟨0, id, name, arguments⟩, ?_, hfunction part hpart, hid, hname, harguments⟩
  rcases (h.type.repeats _ (List.mem_map_of_mem hpart)).optional hkind with hnone | hsame
  · exact ⟨none, hnone, by simp⟩
  · exact ⟨kind, hsame, hword⟩

/-- A call is read when its entries are. -/
theorem Pieces.readable_whole (h : Pieces whole parts)
    (hreads : List.Forall₂ ReadsCall parts fragments) : ∃ fragment, ReadsCall whole fragment := by
  have hread : ∀ part ∈ parts, ∃ f, ReadsCall part f := fun part hpart => by
    obtain ⟨f, -, hf⟩ := (forall₂_mem hreads).1 part hpart
    exact ⟨f, hf⟩
  obtain ⟨typed, htyped, htype⟩ := h.type.optional_whole
  obtain ⟨identified, hidentified, hid⟩ := h.id.optional_whole
  obtain ⟨named, hnamed, hname⟩ := h.name.optional_whole
  obtain ⟨f, hf⟩ := hread typed htyped
  obtain ⟨f', hf'⟩ := hread identified hidentified
  obtain ⟨f'', hf''⟩ := hread named hnamed
  refine ⟨⟨0, f'.id, f''.name, concat (fragments.map Fragment.arguments)⟩, ?_,
    h.function.mpr ⟨typed, htyped, hf.function⟩, hid.symm.trans hf'.id, hname.symm.trans hf''.name, ?_⟩
  · rw [← htype]
    exact hf.kind
  · rw [h.arguments, texts_of_reads hreads]
    rfl

/-- The fragments of a call are what its announced entries are read as. -/
theorem Pieces.cut (h : Pieces whole parts) (hannounces : Announces parts)
    (hwhole : ReadsCall whole fragment) (hreads : List.Forall₂ ReadsCall parts fragments) :
    Cut fragment fragments := by
  refine ⟨?_, fun g hg => ?_, ?_⟩
  · cases hreads with
    | nil =>
      obtain ⟨_, hpart, -⟩ := h.type.said
      cases hpart
    | @cons part f parts fs hread _ =>
      obtain ⟨hid, hname⟩ := hannounces.first part rfl
      have hid' := (h.id.repeats _ (List.mem_map_of_mem List.mem_cons_self)).optional_eq hid
      have hname' := (h.name.repeats _ (List.mem_map_of_mem List.mem_cons_self)).optional_eq hname
      refine ⟨f, rfl, ?_, ?_⟩
      · exact Option.some.inj (hread.id.symm.trans (hid'.trans hwhole.id))
      · exact Option.some.inj (hread.name.symm.trans (hname'.trans hwhole.name))
  · obtain ⟨part, hpart, hread⟩ := (forall₂_mem hreads).2 g hg
    have hid := (h.id.repeats _ (List.mem_map_of_mem hpart)).optional hwhole.id
    have hname := (h.name.repeats _ (List.mem_map_of_mem hpart)).optional hwhole.name
    refine ⟨hid.imp (fun h => ?_) fun h => ?_, hname.imp (fun h => ?_) fun h => ?_⟩
    · exact Option.some.inj (hread.id.symm.trans h)
    · exact Option.some.inj (hread.id.symm.trans h)
    · exact Option.some.inj (hread.name.symm.trans h)
    · exact Option.some.inj (hread.name.symm.trans h)
  · have hall := h.arguments
    rw [hwhole.arguments, texts_of_reads hreads] at hall
    exact (Option.some.inj hall).symm

theorem nonnull_isSome {value : Option Json} {text : String} (h : optional? value = some (some text)) :
    (nonnull value).isSome := by
  unfold optional? at h
  cases hvalue : nonnull value with
  | none =>
    rw [hvalue] at h
    cases h
  | some v => rfl

/-- **Entries that come to a call announce it.** -/
theorem announces_of_comes {call : Option Call} (hreads : List.Forall₂ ReadsCall parts fragments)
    (hcomes : Comes fragments call) : Announces parts := by
  refine ⟨fun part hpart => ?_, fun first hfirst => ?_⟩
  · obtain ⟨f, -, hf⟩ := (forall₂_mem hreads).1 part hpart
    exact hf.function
  · cases hreads with
    | nil => cases hfirst
    | @cons part f parts fs hread _ =>
      obtain rfl := Option.some.inj hfirst
      cases call with
      | none => cases hcomes
      | some call =>
        obtain ⟨⟨f', hf', hid, hname⟩, -⟩ := hcomes
        obtain rfl := Option.some.inj hf'
        exact ⟨nonnull_isSome (hread.id.trans (congrArg some hid)),
          nonnull_isSome (hread.name.trans (congrArg some hname))⟩

/-! ## Indices -/

theorem index?_setField {index : Nat} (hobject : (asObject? tool).isSome) (h : index < 2 ^ 64) :
    index? (setField "index" (.number (.posInt (.ofNat index))) tool) = some index := by
  unfold index?
  rw [field?_setField_self hobject]
  exact congrArg some (UInt64.toNat_ofNat_of_lt' h)

/-- The index of an entry is not read with the rest. -/
theorem readsCall_setIndex {value : Json} :
    ReadsCall (setField "index" value tool) fragment ↔ ReadsCall tool fragment := by
  have hfield : ∀ {key : String}, key ≠ "index" → field? (setField "index" value tool) key = field? tool key :=
    fun h => field?_setField_of_ne h
  have hfunction : function? (setField "index" value tool) = function? tool := by
    unfold function?
    rw [hfield (by decide)]
  have hname : ∀ key, functionField? (setField "index" value tool) key = functionField? tool key :=
    fun key => by
      unfold functionField?
      rw [hfunction]
  constructor
  · rintro ⟨hk, hf, hi, hn, ha⟩
    rw [hfield (by decide)] at hk hi
    rw [hfunction] at hf
    rw [hname] at hn ha
    exact ⟨hk, hf, hi, hn, ha⟩
  · rintro ⟨hk, hf, hi, hn, ha⟩
    refine ⟨?_, ?_, ?_, ?_, ?_⟩
    · rw [hfield (by decide)]
      exact hk
    · rw [hfunction]
      exact hf
    · rw [hfield (by decide)]
      exact hi
    · rw [hname]
      exact hn
    · rw [hname]
      exact ha

theorem length_withIndices (tools : List Json) : (withIndices tools).length = tools.length := by
  simp [withIndices]

theorem getElem?_withIndices (tools : List Json) (index : Nat) : (withIndices tools)[index]? =
    tools[index]?.map fun tool => setField "index" (.number (.posInt (.ofNat index))) tool := by
  simp [withIndices]
  rfl

/-- What the calls of a message are read as, each at its position. -/
theorem reads_withIndices (h : List.Forall₂ (fun tool fragment => readTool maximum tool = .ok fragment)
      (withIndices tools) fragments) (hobjects : ∀ tool ∈ tools, (asObject? tool).isSome)
    (hlength : tools.length ≤ maximum.toNat) : fragments.length = tools.length ∧
      ∀ index (hi : index < tools.length) (hi' : index < fragments.length),
        fragments[index].index = index ∧ ReadsCall tools[index] fragments[index] := by
  have hbound : maximum.toNat < 2 ^ 32 := maximum.toNat_lt
  have hsame : fragments.length = tools.length := h.length_eq.symm.trans (length_withIndices tools)
  refine ⟨hsame, fun index hi hi' => ?_⟩
  have hi'' : index < (withIndices tools).length := (length_withIndices tools).symm ▸ hi
  have hread := h.get hi'' hi'
  have hget : (withIndices tools).get ⟨index, hi''⟩ =
      setField "index" (.number (.posInt (.ofNat index))) tools[index] := by
    have hsome := getElem?_withIndices tools index
    rw [List.getElem?_eq_getElem hi'', List.getElem?_eq_getElem hi] at hsome
    exact Option.some.inj hsome
  rw [hget] at hread
  obtain ⟨hindex, -, hcall⟩ := readTool_eq_ok.mp hread
  rw [index?_setField (hobjects _ (List.getElem_mem hi)) (by omega)] at hindex
  exact ⟨(Option.some.inj hindex).symm, readsCall_setIndex.mp hcall⟩

/-- The fragments at an index are what the entries with that index are read as. -/
theorem reads_atIndex (h : List.Forall₂ (fun tool fragment => readTool maximum tool = .ok fragment)
      parts fragments) (index : Nat) :
    List.Forall₂ ReadsCall (entriesAt index parts) (atIndex index fragments) := by
  induction h with
  | nil => exact .nil
  | @cons part fragment parts fragments hread _ ih =>
    obtain ⟨hindex, -, hcall⟩ := readTool_eq_ok.mp hread
    unfold entriesAt atIndex at ih ⊢
    by_cases hi : fragment.index = index
    · rw [List.filter_cons_of_pos (by simp [hindex, hi]), List.filter_cons_of_pos (by simp [hi])]
      exact .cons hcall ih
    · rw [List.filter_cons_of_neg (by simp [hindex, hi]), List.filter_cons_of_neg (by simp [hi])]
      exact ih

section Calls

variable {fragments' : List Fragment}

/-- **Announced calls are read as the same calls.** -/
theorem CutCalls.same (h : CutCalls tools parts)
    (hannounces : ∀ index, Announces (entriesAt index parts))
    (hobjects : ∀ tool ∈ tools, (asObject? tool).isSome) (hlength : tools.length ≤ maximum.toNat)
    (hwhole : List.Forall₂ (fun tool fragment => readTool maximum tool = .ok fragment)
      (withIndices tools) fragments)
    (hparts : List.Forall₂ (fun tool fragment => readTool maximum tool = .ok fragment)
      parts fragments') : SameCalls fragments fragments' := by
  obtain ⟨hsame, hcalls⟩ := reads_withIndices hwhole hobjects hlength
  have hpositions : ∀ i (h : i < fragments.length), fragments[i].index = 0 + i := fun i hi => by
    rw [Nat.zero_add]
    exact (hcalls i (hsame ▸ hi) hi).1
  refine sameCalls_of_cuts fun index => ?_
  have hat := (atIndex_of_positions hpositions index).2
  rw [Nat.zero_add] at hat
  by_cases hi : index < tools.length
  · have hi' : index < fragments.length := hsame.symm ▸ hi
    rw [List.getElem?_eq_getElem hi'] at hat
    exact .inr ⟨fragments[index], hat, (h.cut index hi).cut (hannounces index)
      (hcalls index hi hi').2 (reads_atIndex hparts index)⟩
  · rw [List.getElem?_eq_none (by omega)] at hat
    refine .inl ⟨hat, List.eq_nil_iff_forall_not_mem.mpr fun fragment hfragment => ?_⟩
    obtain ⟨part, hpart, -⟩ := (forall₂_mem (reads_atIndex hparts index)).2 fragment hfragment
    obtain ⟨hmem, hindex⟩ := List.mem_filter.mp hpart
    obtain ⟨index', hindex', hlt⟩ := h.indexed part hmem
    rw [of_decide_eq_true hindex] at hindex'
    exact hi (Option.some.inj hindex' ▸ hlt)

/-- **Announced entries of readable calls are readable.** -/
theorem CutCalls.readable_parts (h : CutCalls tools parts)
    (hannounces : ∀ index, Announces (entriesAt index parts))
    (hobjects : ∀ tool ∈ tools, (asObject? tool).isSome) (hlength : tools.length ≤ maximum.toNat)
    (hwhole : List.Forall₂ (fun tool fragment => readTool maximum tool = .ok fragment)
      (withIndices tools) fragments) :
    ∃ fragments', List.Forall₂ (fun tool fragment => readTool maximum tool = .ok fragment)
      parts fragments' := by
  obtain ⟨hsame, hcalls⟩ := reads_withIndices hwhole hobjects hlength
  refine forall₂_of_forall fun part hpart => ?_
  obtain ⟨index, hindex, hlt⟩ := h.indexed part hpart
  have hmem : part ∈ entriesAt index parts :=
    List.mem_filter.mpr ⟨hpart, decide_eq_true hindex⟩
  obtain ⟨fragment, hread⟩ := (h.cut index hlt).readable_parts (hannounces index).function
    (hcalls index hlt (hsame.symm ▸ hlt)).2 part hmem
  exact ⟨{ fragment with index }, readTool_eq_ok.mpr ⟨hindex, hlt.trans_le hlength,
    hread.withIndex index⟩⟩

/-- **Calls of readable entries are readable.** -/
theorem CutCalls.readable_whole (h : CutCalls tools parts)
    (hparts : List.Forall₂ (fun tool fragment => readTool maximum tool = .ok fragment)
      parts fragments') : (∀ tool ∈ tools, (asObject? tool).isSome) ∧ tools.length ≤ maximum.toNat ∧
    ∃ fragments, List.Forall₂ (fun tool fragment => readTool maximum tool = .ok fragment)
      (withIndices tools) fragments := by
  have hbound : maximum.toNat < 2 ^ 32 := maximum.toNat_lt
  have hread : ∀ index (hi : index < tools.length), ∃ fragment, ReadsCall tools[index] fragment :=
    fun index hi => (h.cut index hi).readable_whole (reads_atIndex hparts index)
  have hobject : ∀ index (hi : index < tools.length), (asObject? tools[index]).isSome := fun index hi => by
    obtain ⟨fragment, hcall⟩ := hread index hi
    obtain ⟨function, hfunction⟩ := Option.isSome_iff_exists.mp hcall.function
    obtain ⟨value, hvalue, -⟩ := Option.bind_eq_some_iff.mp hfunction
    exact asObject?_of_field? hvalue
  have hlength : tools.length ≤ maximum.toNat := by
    by_contra hlt
    have hlast : tools.length - 1 < tools.length := by omega
    obtain ⟨last, hpart, -⟩ := (h.cut _ hlast).type.optional_whole
    obtain ⟨hmem, hindex⟩ := List.mem_filter.mp hpart
    obtain ⟨fragment, -, hfragment⟩ := (forall₂_mem hparts).1 last hmem
    obtain ⟨hindex', hbelow, -⟩ := readTool_eq_ok.mp hfragment
    rw [of_decide_eq_true hindex] at hindex'
    have := Option.some.inj hindex'
    omega
  have hobjects : ∀ tool ∈ tools, (asObject? tool).isSome := fun tool htool => by
    obtain ⟨index, hi, rfl⟩ := List.getElem_of_mem htool
    exact hobject index hi
  refine ⟨hobjects, hlength, forall₂_of_forall fun tool htool => ?_⟩
  obtain ⟨index, hi, rfl⟩ := List.getElem_of_mem htool
  have hi' : index < tools.length := length_withIndices tools ▸ hi
  have hget := getElem?_withIndices tools index
  rw [List.getElem?_eq_getElem hi, List.getElem?_eq_getElem hi'] at hget
  obtain ⟨fragment, hcall⟩ := hread index hi'
  refine ⟨{ fragment with index }, ?_⟩
  rw [Option.some.inj hget]
  exact readTool_eq_ok.mpr ⟨index?_setField (hobject index hi') (by omega), by simp only; omega,
    readsCall_setIndex.mpr (hcall.withIndex index)⟩

end Calls

end Entries

end GroupAgent.Genai
