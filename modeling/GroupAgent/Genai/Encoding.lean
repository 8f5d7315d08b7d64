import GroupAgent.Genai.Cutting

/-!
# A completion and its stream

The native completion (`complete.rs:104-139` and the collection 95-100) against the chunk decoder
(`decode.rs`) of `crates/group-agent-genai/src/openai_chat`, on chunks that say the same message,
split anyhow.

* `Encodes`: chunks of a body. `Splits`: the deltas of its message, with the role in any of them,
  the text cut anywhere, and the entries of each call as `Pieces` allows.
* `NamesRole`, `Announced`: the two paths differ in what they ask for. The completion asks for the
  role (`complete.rs:123-125`), which the decoder takes or leaves (`decode.rs:101-103`). The
  decoder asks of every entry for a function and of the first of an index for the identifier and
  the name (`decode.rs:213-240`), where the completion sees the call as a whole.

Results:
* **`Splits.readable_deltas`**, **`Splits.readable_message`**: deltas are read as their message is.
* **`completion_iff_stream`**: nothing else tells the two paths apart. A completion that comes to a
  response names a role, a stream that does is announced, and where both hold the two come to the
  same responses.
* **`split_diverges`**: without the one or the other they do not.

`WithinFrames` bounds the entries in one chunk by the number of calls there may be
(`decode.rs:137-141`); the single chunk of a completion is under the same bound. The transport, the
media type and the reading of the bytes of either path are not compared here; they are in
`Complete` and `Stream`.
-/

namespace GroupAgent.Genai

open GroupAgent.Lib GroupAgent.Model GroupAgent.Model.ChatStreamCollector

/-- Deltas that say a message. -/
structure Splits (message : Json) (deltas : List Json) : Prop where
  objects : ∀ delta ∈ deltas, (asObject? delta).isSome
  role : Shared (field? message "role") (deltas.map fun delta => field? delta "role")
  content : wholeText? (field? message "content") =
    (deltas.mapM fun delta => wholeText? (field? delta "content")).map concat
  unsupported : ∀ field ∈ unsupportedFields, nonnull (field? message field) = none ↔
    ∀ delta ∈ deltas, nonnull (field? delta field) = none
  calls : match entries? (field? message "tool_calls"),
      deltas.mapM fun delta => entries? (field? delta "tool_calls") with
    | some tools, some parts => CutCalls tools parts.flatten
    | none, none => True
    | _, _ => False

/-- Chunks that say the one message of a body. -/
def Encodes (body : Json) (chunks : List Json) : Prop :=
  ∃ whole message deltas, field? body "object" = some (.string "chat.completion") ∧
    field? body "choices" = some (.array [whole]) ∧ field? whole "message" = some message ∧
    Chunks body whole chunks deltas ∧ Splits message deltas

/-- The message of a body has a role. -/
def NamesRole (body : Json) : Prop :=
  ∃ whole message, field? body "choices" = some (.array [whole]) ∧
    field? whole "message" = some message ∧ (nonnull (field? message "role")).isSome

/-- The entries of `tool_calls` of a delta. -/
def deltaEntries (delta : Json) : List Json := (entries? (field? delta "tool_calls")).getD []

/-- The entries of `tool_calls` of a chunk. -/
def toolEntries (chunk : Json) : List Json :=
  (((field? chunk "choices").bind asArray?).getD []).flatMap fun choice =>
    ((field? choice "delta").map deltaEntries).getD []

/-- Every call of the chunks is announced. -/
def Announced (chunks : List Json) : Prop :=
  ∀ index, Announces (entriesAt index (chunks.flatMap toolEntries))

/-- No chunk has more entries of `tool_calls` than there may be calls. -/
def WithinFrames (config : GenaiAdapterConfig) (chunks : List Json) : Prop :=
  ∀ chunk ∈ chunks, ∀ choice delta tools, field? chunk "choices" = some (.array [choice]) →
    field? choice "delta" = some delta → entries? (field? delta "tool_calls") = some tools →
    tools.length ≤ config.streamingLimits.maxToolCalls.toNat

section Messages

variable {config : GenaiAdapterConfig} {message message' : Json} {deltas tools : List Json}
  {content : Option String} {fragments : List Fragment} {said : List (Option String × List Fragment)}

theorem indexTools_eq_ok {tools' : List Json} : indexTools tools = .ok tools' ↔
    (∀ tool ∈ tools, (asObject? tool).isSome) ∧ tools' = withIndices tools := by
  unfold indexTools withIndices
  constructor
  · intro h
    refine ⟨fun tool htool => ?_, mapM_eq_map (fun entry tool' hread => ?_) h⟩
    · obtain ⟨index, hi, rfl⟩ := List.getElem_of_mem htool
      have hmem : (tools[index], index) ∈ tools.zipIdx :=
        List.mk_mem_zipIdx_iff_getElem?.mpr (List.getElem?_eq_getElem hi)
      obtain ⟨tool', -, hread⟩ := mapM_ok_mem h hmem
      by_contra hnone
      rw [Bool.not_eq_true, Option.isSome_eq_false_iff] at hnone
      simp [hnone] at hread
    · simp only at hread
      split at hread
      · cases hread
      · exact (Except.ok.inj hread).symm
  · rintro ⟨hobjects, rfl⟩
    rw [mapM_eq_ok, List.forall₂_map_right_iff, List.forall₂_same]
    rintro ⟨tool, index⟩ hmem
    have hsome := hobjects tool (List.mem_of_getElem? (List.mk_mem_zipIdx_iff_getElem?.mp hmem))
    have hnone : ¬(asObject? tool).isNone = true := by
      rw [← Option.not_isSome, hsome]
      decide
    exact if_neg hnone

/-- A message with indices differs in its calls. -/
theorem indexMessage_spec (hobject : (asObject? message).isSome)
    (h : indexMessage message = .ok message') :
    ∃ tools, entries? (field? message "tool_calls") = some tools ∧
      (∀ tool ∈ tools, (asObject? tool).isSome) ∧ (asObject? message').isSome ∧
      (∀ key, key ≠ "tool_calls" → field? message' key = field? message key) ∧
      entries? (field? message' "tool_calls") = some (withIndices tools) := by
  unfold indexMessage at h
  unfold entries?
  cases hn : nonnull (field? message "tool_calls") with
  | none =>
    rw [hn] at h
    obtain rfl := Except.ok.inj h
    exact ⟨[], rfl, by simp, hobject, fun _ _ => rfl, by rw [hn]; rfl⟩
  | some value =>
    rw [hn] at h
    simp only at h ⊢
    cases ha : asArray? value with
    | none =>
      rw [ha] at h
      cases h
    | some tools =>
      rw [ha] at h
      obtain ⟨tools', hindex, h⟩ := bind_eq_ok.mp h
      obtain rfl := Except.ok.inj h
      obtain ⟨hobjects, rfl⟩ := indexTools_eq_ok.mp hindex
      refine ⟨tools, rfl, hobjects, asObject?_setField hobject, fun key hkey =>
        field?_setField_of_ne hkey, ?_⟩
      rw [field?_setField_self hobject]
      rfl

theorem indexMessage_ok (h : entries? (field? message "tool_calls") = some tools)
    (hobjects : ∀ tool ∈ tools, (asObject? tool).isSome) : ∃ message', indexMessage message = .ok message' := by
  unfold indexMessage
  unfold entries? at h
  cases hn : nonnull (field? message "tool_calls") with
  | none => exact ⟨message, rfl⟩
  | some value =>
    rw [hn] at h
    simp only at h ⊢
    rw [h]
    exact ⟨_, bind_eq_ok.mpr ⟨_, indexTools_eq_ok.mpr ⟨hobjects, rfl⟩, rfl⟩⟩

/-- The texts of deltas. -/
theorem reads_texts (h : List.Forall₂ (fun delta said => ReadsDelta config delta said.1 said.2) deltas said) :
    (deltas.mapM fun delta => wholeText? (field? delta "content")).map concat = some (saidText said) := by
  have hall : (deltas.mapM fun delta => wholeText? (field? delta "content")) =
      some (said.map fun s => s.1.getD "") := by
    rw [optionMapM_eq_some, List.forall₂_map_right_iff]
    refine h.imp fun delta s hreads => ?_
    unfold wholeText?
    rw [hreads.content]
    rfl
  rw [hall]
  rfl

/-- The entries of deltas. -/
theorem reads_entries (h : List.Forall₂ (fun delta said => ReadsDelta config delta said.1 said.2) deltas said) :
    ∃ parts, (deltas.mapM fun delta => entries? (field? delta "tool_calls")) = some parts ∧
      List.Forall₂ (fun tool fragment => readTool config.streamingLimits.maxToolCalls tool = .ok fragment)
        parts.flatten (said.flatMap Prod.snd) := by
  induction h with
  | nil => exact ⟨[], rfl, .nil⟩
  | @cons delta s deltas said hreads _ ih =>
    obtain ⟨parts, hparts, hall⟩ := ih
    obtain ⟨tools, htools, -, hread⟩ := hreads.tools
    refine ⟨tools :: parts, ?_, ?_⟩
    · exact optionMapM_eq_some.mpr (.cons htools (optionMapM_eq_some.mp hparts))
    · exact List.rel_append hread hall

/-- The entries of deltas, one after the other. -/
theorem flatMap_deltaEntries {parts : List (List Json)}
    (h : (deltas.mapM fun delta => entries? (field? delta "tool_calls")) = some parts) :
    deltas.flatMap deltaEntries = parts.flatten := by
  have hall := optionMapM_eq_some.mp h
  clear h
  induction hall with
  | nil => rfl
  | @cons delta tools deltas parts hentries _ ih =>
    have hdelta : deltaEntries delta = tools := by
      unfold deltaEntries
      rw [hentries]
      rfl
    rw [List.flatMap_cons, List.flatten_cons, hdelta, ih]

/-- **Announced deltas are read as their message is.** -/
theorem Splits.readable_deltas (h : Splits message deltas) (hobject : (asObject? message).isSome)
    (hannounces : ∀ index, Announces (entriesAt index (deltas.flatMap deltaEntries)))
    (hframes : ∀ delta ∈ deltas, ∀ tools, entries? (field? delta "tool_calls") = some tools →
      tools.length ≤ config.streamingLimits.maxToolCalls.toNat)
    (hindex : indexMessage message = .ok message') (hreads : ReadsDelta config message' content fragments) :
    ∃ said : List (Option String × List Fragment),
      List.Forall₂ (fun delta said => ReadsDelta config delta said.1 said.2) deltas said := by
  obtain ⟨tools, htools, hobjects, -, hfield, hentries⟩ := indexMessage_spec hobject hindex
  obtain ⟨-, hrole, hsupported, hcontent, tools', htools', hlength, hread⟩ := hreads
  obtain rfl := Option.some.inj (hentries.symm.trans htools')
  rw [length_withIndices] at hlength
  rw [hfield _ (by decide)] at hrole hcontent
  -- every part of the message is split into readable parts
  have htexts := h.content
  unfold wholeText? at htexts
  rw [hcontent] at htexts
  obtain ⟨texts, htexts, -⟩ := Option.map_eq_some_iff.mp htexts.symm
  have hcalls := h.calls
  rw [htools] at hcalls
  cases hparts : deltas.mapM fun delta => entries? (field? delta "tool_calls") with
  | none =>
    rw [hparts] at hcalls
    cases hcalls
  | some parts =>
    rw [hparts] at hcalls
    rw [flatMap_deltaEntries hparts] at hannounces
    obtain ⟨fragments', hread'⟩ := hcalls.readable_parts hannounces hobjects hlength hread
    refine forall₂_of_forall fun delta hdelta => ?_
    obtain ⟨text, -, htext⟩ := (forall₂_mem (optionMapM_eq_some.mp htexts)).1 delta hdelta
    obtain ⟨content', hcontent', -⟩ := Option.map_eq_some_iff.mp htext
    obtain ⟨entries, hmem, hentries'⟩ := (forall₂_mem (optionMapM_eq_some.mp hparts)).1 delta hdelta
    obtain ⟨fragments'', hread''⟩ := forall₂_of_forall fun tool htool =>
      (forall₂_mem hread').1 tool (List.mem_flatten.mpr ⟨entries, hmem, htool⟩) |>.imp fun _ h => h.2
    refine ⟨(content', fragments''), h.objects delta hdelta, optional_is_iff.mpr fun r hr => ?_,
      fun field hfield' => ?_, hcontent', entries, hentries', hframes delta hdelta entries hentries', hread''⟩
    · rcases h.role.repeats _ (List.mem_map_of_mem hdelta) with hnone | hsame
      · rw [hnone] at hr
        cases hr
      · exact optional_is_iff.mp hrole r (hsame ▸ hr)
    · have hne : field ≠ "tool_calls" := by
        rintro rfl
        revert hfield'
        decide
      have hnone := hsupported field hfield'
      rw [hfield _ hne] at hnone
      exact (h.unsupported field hfield').mp hnone delta hdelta

/-- **A message with a role is read as its deltas are.** -/
theorem Splits.readable_message (h : Splits message deltas)
    (hnames : (nonnull (field? message "role")).isSome)
    (hreads : List.Forall₂ (fun delta said => ReadsDelta config delta said.1 said.2) deltas said) :
    field? message "role" = some (.string "assistant") ∧ ∃ message' content fragments,
      indexMessage message = .ok message' ∧ ReadsDelta config message' content fragments := by
  obtain ⟨role, hsome⟩ := Option.isSome_iff_exists.mp hnames
  obtain ⟨_, hmem, hsame⟩ := h.role.said
  obtain ⟨delta, hdelta, rfl⟩ := List.mem_map.mp hmem
  obtain ⟨s, -, hs⟩ := (forall₂_mem hreads).1 delta hdelta
  obtain rfl := optional_is_iff.mp hs.role role (hsame.trans hsome)
  have hrole : field? message "role" = some (.string "assistant") := (Option.filter_eq_some_iff.mp hsome).1
  have hobject := asObject?_of_field? hrole
  obtain ⟨parts, hparts, hread⟩ := reads_entries hreads
  have hcalls := h.calls
  rw [hparts] at hcalls
  cases htools : entries? (field? message "tool_calls") with
  | none =>
    rw [htools] at hcalls
    cases hcalls
  | some tools =>
    rw [htools] at hcalls
    obtain ⟨hobjects, hlength, fragments, hread'⟩ := hcalls.readable_whole hread
    obtain ⟨message', hindex⟩ := indexMessage_ok htools hobjects
    obtain ⟨tools', htools', -, hobject', hfield, hentries⟩ := indexMessage_spec hobject hindex
    obtain rfl := Option.some.inj (htools.symm.trans htools')
    have hcontent := h.content
    rw [reads_texts hreads] at hcontent
    obtain ⟨content, hcontent, -⟩ := Option.map_eq_some_iff.mp hcontent
    refine ⟨hrole, message', content, fragments, hindex, hobject', ?_, fun field hfield' => ?_, ?_,
      _, hentries, (length_withIndices tools).le.trans hlength, hread'⟩
    · rw [hfield _ (by decide), hrole]
      exact ⟨some "assistant", rfl, by simp⟩
    · have hne : field ≠ "tool_calls" := by
        rintro rfl
        revert hfield'
        decide
      rw [hfield _ hne]
      refine (h.unsupported field hfield').mpr fun delta hdelta => ?_
      obtain ⟨s, -, hs⟩ := (forall₂_mem hreads).1 delta hdelta
      exact hs.supported field hfield'
    · rw [hfield _ (by decide)]
      exact hcontent

/-- What deltas say is what their message does. -/
theorem Splits.same (h : Splits message deltas) (hobject : (asObject? message).isSome)
    (hannounces : ∀ index, Announces (entriesAt index (deltas.flatMap deltaEntries)))
    (hindex : indexMessage message = .ok message')
    (hreads : ReadsDelta config message' content fragments)
    (hsaid : List.Forall₂ (fun delta said => ReadsDelta config delta said.1 said.2) deltas said) :
    content.getD "" = saidText said ∧ SameCalls fragments (said.flatMap Prod.snd) := by
  obtain ⟨tools, htools, hobjects, -, hfield, hentries⟩ := indexMessage_spec hobject hindex
  obtain ⟨-, -, -, hcontent, tools', htools', hlength, hread⟩ := hreads
  obtain rfl := Option.some.inj (hentries.symm.trans htools')
  rw [length_withIndices] at hlength
  rw [hfield _ (by decide)] at hcontent
  constructor
  · have htexts := h.content
    rw [reads_texts hsaid] at htexts
    unfold wholeText? at htexts
    rw [hcontent] at htexts
    exact Option.some.inj htexts
  · obtain ⟨parts, hparts, hread'⟩ := reads_entries hsaid
    have hcalls := h.calls
    rw [htools, hparts] at hcalls
    rw [flatMap_deltaEntries hparts] at hannounces
    exact CutCalls.same hcalls hannounces hobjects hlength hread hread'

end Messages

/-! ## The two paths -/

section Paths

variable {fromStr : String → Except String Json} {config : GenaiAdapterConfig}
  {resolvedModel : String} {structured : Bool} {body whole : Json} {chunks deltas : List Json}
  {datas : List String} {es : List ChatStreamEvent}

/-- Data is accepted up to the end when it reads as frames that are taken. -/
theorem accepts_iff_finishes (hdatas : List.Forall₂ (fun data chunk => data ≠ "[DONE]" ∧
      fromStr data = .ok chunk) datas chunks) :
    ∀ (d : Decoder) (es : List ChatStreamEvent), d.config = config → d.structured = structured →
      d.done = false →
      ((∃ d', Accepts fromStr d (datas ++ ["[DONE]"]) es d') ↔ ∃ frames,
        List.Forall₂ (fun chunk frame => readFrame config structured chunk = .ok frame) chunks frames ∧
          Finishes fromStr d frames es) := by
  induction hdatas with
  | nil =>
    intro d es hconfig hstructured hrunning
    constructor
    · rintro ⟨d', haccepts⟩
      cases haccepts with
      | cons _ hpush hrest =>
        cases hrest
        exact ⟨[], .nil, [], d, _, .nil d, hpush, List.append_nil _⟩
    · rintro ⟨frames, hframes, hfinishes⟩
      cases hframes
      obtain ⟨front, d₁, d₂, htakes, hfinish, rfl⟩ := hfinishes
      cases htakes
      have haccepts := Accepts.cons hrunning (show d.push fromStr "[DONE]" = .ok d₂ from hfinish) (.nil _)
      rw [List.append_nil] at haccepts
      exact ⟨_, haccepts⟩
  | @cons data chunk datas chunks hdata _ ih =>
    obtain ⟨hne, hvalue⟩ := hdata
    intro d es hconfig hstructured hrunning
    constructor
    · rintro ⟨d', haccepts⟩
      cases haccepts with
      | @cons _ d₁ _ _ _ rest _ hpush hrest =>
        obtain ⟨value, frame, hvalue', hread, htake⟩ := (push_eq_ok hne).mp hpush
        obtain rfl := Except.ok.inj (hvalue.symm.trans hvalue')
        rw [hconfig, hstructured] at hread
        obtain ⟨hconfig', hstructured', hrunning', -⟩ := take_keeps htake
        have hnext := ih { d₁ with pending := [] } rest (hconfig'.trans hconfig)
          (hstructured'.trans hstructured) (hrunning'.trans hrunning)
        obtain ⟨frames, hframes, front, d₂, d₃, htakes, hfinish, rfl⟩ := hnext.mp ⟨d', hrest⟩
        exact ⟨frame :: frames, .cons hread hframes, _, d₂, d₃, .cons htake htakes, hfinish,
          (List.append_assoc ..).symm⟩
    · rintro ⟨frames, hframes, front, d₂, d₃, htakes, hfinish, rfl⟩
      cases hframes with
      | cons hread hframes =>
        cases htakes with
        | @cons _ d₁ _ _ _ rest htake htakes =>
          obtain ⟨hconfig', hstructured', hrunning', -⟩ := take_keeps htake
          have hnext := ih { d₁ with pending := [] } (rest ++ d₃.pending) (hconfig'.trans hconfig)
            (hstructured'.trans hstructured) (hrunning'.trans hrunning)
          have hpush := (push_eq_ok hne).mpr ⟨chunk, _, hvalue, by rw [hconfig, hstructured]; exact hread,
            htake⟩
          obtain ⟨d', haccepts⟩ := hnext.mpr ⟨_, hframes, _, d₂, d₃, htakes, hfinish, rfl⟩
          refine ⟨d', ?_⟩
          rw [List.append_assoc]
          exact .cons hrunning hpush haccepts

/-- The deltas of chunks within the limit of a frame are within it. -/
theorem Chunks.within (h : Chunks body whole chunks deltas) (hframes : WithinFrames config chunks) :
    ∀ delta ∈ deltas, ∀ tools, entries? (field? delta "tool_calls") = some tools →
      tools.length ≤ config.streamingLimits.maxToolCalls.toNat := by
  induction h with
  | last hchunk hchoice =>
    intro delta hdelta tools htools
    obtain rfl := List.mem_singleton.mp hdelta
    exact hframes _ List.mem_cons_self _ _ tools hchunk.offered hchoice.offered htools
  | tail _ hchunk hchoice _ =>
    intro delta hdelta tools htools
    obtain rfl := List.mem_singleton.mp hdelta
    exact hframes _ List.mem_cons_self _ _ tools hchunk.offered hchoice.offered htools
  | more hchunk hchoice _ ih =>
    intro delta hdelta tools htools
    rcases List.mem_cons.mp hdelta with rfl | hdelta
    · exact hframes _ List.mem_cons_self _ _ tools hchunk.offered hchoice.offered htools
    · exact ih (fun chunk hchunk => hframes chunk (List.mem_cons_of_mem _ hchunk)) delta hdelta tools htools

/-- What one delta says. -/
theorem said_one (content : Option String) (fragments : List Fragment) :
    saidText [(content, fragments)] = content.getD "" ∧
      [(content, fragments)].flatMap Prod.snd = fragments := by simp [saidText, concat]

/-- **What a completion comes to**, by what its message is read as. -/
theorem completion_responds {message : Json} {limits : CollectorLimits} {response : ChatResponse}
    (hchoices : field? body "choices" = some (.array [whole]))
    (hmessage : field? whole "message" = some message) :
    (∃ es, decode fromStr config resolvedModel body = .ok es ∧ Collects fromStr limits es response) ↔
      field? body "object" = some (.string "chat.completion") ∧
      field? message "role" = some (.string "assistant") ∧
      ∃ message' id model reason usage content fragments, indexMessage message = .ok message' ∧
        Reads config body whole [message'] id model reason usage [(content, fragments)] ∧
        Responds fromStr config resolvedModel limits id model reason usage (content.getD "") fragments
          response := by
  have hone : ∀ message', Chunks body whole [rewritten body whole message'] [message'] :=
    fun message' => chunks_rewritten hchoices hmessage
  constructor
  · rintro ⟨es, hdecode, hcollects⟩
    obtain ⟨chunk, frame, hchunk, hread, hfinishes⟩ := decode_eq_ok.mp hdecode
    obtain ⟨hobject, hrole, message', hindex, rfl⟩ := (chunkOf_eq_ok hchoices hmessage).mp hchunk
    obtain ⟨id, model, reason, usage, said, hreads, hspeaks⟩ := (hone message').reads (.cons hread .nil)
    cases hreads.deltas with
    | @cons _ s _ _ hdelta hsaid =>
      cases hsaid
      obtain ⟨content, fragments⟩ := s
      rw [(said_one content fragments).1, (said_one content fragments).2] at hspeaks
      exact ⟨hobject, hrole, message', id, model, reason, usage, content, fragments, hindex, hreads,
        hspeaks.responds_iff.mp ⟨es, hfinishes, hcollects⟩⟩
  · rintro ⟨hobject, hrole, message', id, model, reason, usage, content, fragments, hindex, hreads,
      hresponds⟩
    have hreadable : ∃ frames, List.Forall₂ (fun chunk frame => readFrame config true chunk = .ok frame)
        [rewritten body whole message'] frames ∧ Speaks id model reason usage frames _ _ :=
      (hone message').readable hreads
    obtain ⟨frames, hall, hspeaks⟩ := hreadable
    rw [(said_one content fragments).1, (said_one content fragments).2] at hspeaks
    obtain ⟨es, hfinishes, hcollects⟩ := hspeaks.responds_iff.mpr hresponds
    cases hall with
    | @cons _ frame _ _ hread hall =>
      cases hall
      exact ⟨es, decode_eq_ok.mpr ⟨_, frame, (chunkOf_eq_ok hchoices hmessage).mpr
        ⟨hobject, hrole, message', hindex, rfl⟩, hread, hfinishes⟩, hcollects⟩

/-- **What chunks come to**, by what their deltas are read as. -/
theorem stream_responds {limits : CollectorLimits} {response : ChatResponse}
    (hchunks : Chunks body whole chunks deltas)
    (hdatas : List.Forall₂ (fun data chunk => data ≠ "[DONE]" ∧ fromStr data = .ok chunk) datas chunks) :
    (∃ es d', Accepts fromStr (.new config resolvedModel structured) (datas ++ ["[DONE]"]) es d' ∧
        Collects fromStr limits es response) ↔
      ∃ id model reason usage said, Reads config body whole deltas id model reason usage said ∧
        Responds fromStr config resolvedModel limits id model reason usage (saidText said)
          (said.flatMap Prod.snd) response := by
  constructor
  · rintro ⟨es, d', haccepts, hcollects⟩
    obtain ⟨frames, hall, hfinishes⟩ := (accepts_iff_finishes hdatas
      (.new config resolvedModel structured) es rfl rfl rfl).mp ⟨d', haccepts⟩
    obtain ⟨id, model, reason, usage, said, hreads, hspeaks⟩ := hchunks.reads hall
    exact ⟨id, model, reason, usage, said, hreads, hspeaks.responds_iff.mp ⟨es, hfinishes, hcollects⟩⟩
  · rintro ⟨id, model, reason, usage, said, hreads, hresponds⟩
    have hreadable : ∃ frames,
        List.Forall₂ (fun chunk frame => readFrame config structured chunk = .ok frame) chunks frames ∧
          Speaks id model reason usage frames _ _ := hchunks.readable hreads
    obtain ⟨frames, hall, hspeaks⟩ := hreadable
    obtain ⟨es, hfinishes, hcollects⟩ := hspeaks.responds_iff.mpr hresponds
    obtain ⟨d', haccepts⟩ := (accepts_iff_finishes hdatas
      (.new config resolvedModel structured) es rfl rfl rfl).mpr ⟨frames, hall, hfinishes⟩
    exact ⟨es, d', haccepts, hcollects⟩

/-- The entries of chunks are those of their deltas. -/
theorem Chunks.entries (h : Chunks body whole chunks deltas) :
    chunks.flatMap toolEntries = deltas.flatMap deltaEntries := by
  have hone : ∀ {choice chunk delta : Json} {usage reason : Option Json},
      ChunkOf body [choice] usage chunk → ChoiceOf whole delta reason choice →
        toolEntries chunk = deltaEntries delta := fun hchunk hchoice => by
    unfold toolEntries
    rw [hchunk.offered]
    show List.flatMap _ [_] = _
    rw [List.flatMap_cons, hchoice.offered]
    exact List.append_nil _
  induction h with
  | last hchunk hchoice =>
    rw [List.flatMap_singleton, List.flatMap_singleton, hone hchunk hchoice]
  | @tail _ _ tail _ _ hchunk hchoice htail =>
    have hnil : toolEntries tail = [] := by
      unfold toolEntries
      rw [htail.offered]
      rfl
    rw [List.flatMap_cons, List.flatMap_singleton, List.flatMap_singleton, hnil, List.append_nil,
      hone hchunk hchoice]
  | more hchunk hchoice _ ih => rw [List.flatMap_cons, List.flatMap_cons, ih, hone hchunk hchoice]

/-- What a stream that comes to a response says of its calls. -/
theorem announced_of_reads {id : Option ResponseId} {model : Option ModelId}
    {reason : Option String} {usage : Option TokenUsage} {limits : CollectorLimits}
    {said : List (Option String × List Fragment)} {response : ChatResponse} {text : String}
    (hchunks : Chunks body whole chunks deltas)
    (hreads : Reads config body whole deltas id model reason usage said)
    (hresponds : Responds fromStr config resolvedModel limits id model reason usage text
      (said.flatMap Prod.snd) response) : Announced chunks := by
  intro index
  obtain ⟨parts, hparts, hread⟩ := reads_entries hreads.deltas
  obtain ⟨calls, finish, extensions, body', hadmits, -, -⟩ := hresponds
  rw [hchunks.entries, flatMap_deltaEntries hparts]
  exact announces_of_comes (reads_atIndex hread index) (hadmits.gathers.comes index)

/-- **A completion and its stream come to the same response**, where the body names a role and the
chunks announce their calls. A body without a role comes to nothing, and neither does a stream with
a call that is not announced. -/
theorem completion_iff_stream {limits : CollectorLimits} (hencodes : Encodes body chunks)
    (hframes : WithinFrames config chunks)
    (hdatas : List.Forall₂ (fun data chunk => data ≠ "[DONE]" ∧ fromStr data = .ok chunk) datas chunks)
    (response : ChatResponse) :
    ((∃ es, decode fromStr config resolvedModel body = .ok es ∧ Collects fromStr limits es response) →
        NamesRole body) ∧
      ((∃ es d', Accepts fromStr (.new config resolvedModel structured) (datas ++ ["[DONE]"]) es d' ∧
        Collects fromStr limits es response) → Announced chunks) ∧
      (NamesRole body → Announced chunks →
        ((∃ es, decode fromStr config resolvedModel body = .ok es ∧
          Collects fromStr limits es response) ↔
        ∃ es d', Accepts fromStr (.new config resolvedModel structured) (datas ++ ["[DONE]"]) es d' ∧
          Collects fromStr limits es response)) := by
  obtain ⟨whole, message, deltas, hobject, hchoices, hmessage, hchunks, hsplits⟩ := hencodes
  rw [completion_responds hchoices hmessage, stream_responds hchunks hdatas]
  refine ⟨?_, ?_, fun hnames hannounced => ⟨?_, ?_⟩⟩
  · rintro ⟨-, hrole, -⟩
    exact ⟨whole, message, hchoices, hmessage, by rw [hrole]; rfl⟩
  · rintro ⟨id, model, reason, usage, said, hreads, hresponds⟩
    exact announced_of_reads hchunks hreads hresponds
  · rintro ⟨-, hrole, message', id, model, reason, usage, content, fragments, hindex, hreads, hresponds⟩
    have hmap := asObject?_of_field? hrole
    have hannounces : ∀ index, Announces (entriesAt index (deltas.flatMap deltaEntries)) :=
      fun index => hchunks.entries ▸ hannounced index
    cases hreads.deltas with
    | cons hdelta _ =>
      obtain ⟨said, hsaid⟩ :=
        hsplits.readable_deltas hmap hannounces (hchunks.within hframes) hindex hdelta
      obtain ⟨htext, hsame⟩ := hsplits.same hmap hannounces hindex hdelta hsaid
      refine ⟨id, model, reason, usage, said,
        ⟨hreads.header, hreads.index, hreads.ends, hreads.counted, hsaid⟩, ?_⟩
      rw [← htext]
      exact hresponds.congr hsame
  · rintro ⟨id, model, reason, usage, said, hreads, hresponds⟩
    have hannounces : ∀ index, Announces (entriesAt index (deltas.flatMap deltaEntries)) :=
      fun index => hchunks.entries ▸ hannounced index
    obtain ⟨whole', message₀, hchoices', hmessage', hnames⟩ := hnames
    cases hchoices.symm.trans hchoices'
    obtain rfl := Option.some.inj (hmessage.symm.trans hmessage')
    obtain ⟨hrole, message', content, fragments, hindex, hdelta⟩ :=
      hsplits.readable_message hnames hreads.deltas
    obtain ⟨htext, hsame⟩ :=
      hsplits.same (asObject?_of_field? hrole) hannounces hindex hdelta hreads.deltas
    refine ⟨hobject, hrole, message', id, model, reason, usage, content, fragments, hindex,
      ⟨hreads.header, hreads.index, hreads.ends, hreads.counted, .cons hdelta .nil⟩, ?_⟩
    rw [htext]
    exact hresponds.congr hsame.symm

/-- The two paths come to the same responses. -/
def Agree (fromStr : String → Except String Json) (config : GenaiAdapterConfig)
    (resolvedModel : String) (structured : Bool) (limits : CollectorLimits) (body : Json)
    (datas : List String) : Prop :=
  ∀ response, (∃ es, decode fromStr config resolvedModel body = .ok es ∧
      Collects fromStr limits es response) ↔
    ∃ es d', Accepts fromStr (.new config resolvedModel structured) (datas ++ ["[DONE]"]) es d' ∧
      Collects fromStr limits es response

/-- An entry of `tool_calls`. -/
def callEntry (function more : List (String × Json)) : Json :=
  .object ([("function", .object function)] ++ more)

/-- A chunk with one entry of `tool_calls`. -/
def callChunk (role function more ends : List (String × Json)) : Json := .object
  [("choices", .array [.object ([("delta", .object (role ++
      [("tool_calls", .array [callEntry function more])]))] ++ ends ++
      [("index", .number (.posInt 0))])]),
    ("id", .string "r"), ("model", .string "m")]

def roleField : List (String × Json) := [("role", .string "assistant")]

def reasonField : List (String × Json) := [("finish_reason", .string "tool_calls")]

def firstFields : List (String × Json) := [("id", .string "a"), ("index", .number (.posInt 0))]

/-- The type of a call may come after its identity. -/
def laterFields : List (String × Json) :=
  [("index", .number (.posInt 0)), ("type", .string "function")]

/-- The first chunk of a call, with its identity. -/
def namedChunk (role : List (String × Json)) : Json :=
  callChunk role [("arguments", .string "1"), ("name", .string "f")] firstFields []

def namedText : String :=
  "\x7b\"id\":\"r\",\"model\":\"m\",\"choices\":[\x7b\"index\":0,\"delta\":\x7b\"role\":\"assist" ++
    "ant\",\"tool_calls\":[\x7b\"index\":0,\"id\":\"a\",\"function\":\x7b\"name\":\"f\",\"a" ++
    "rguments\":\"1\"\x7d\x7d]\x7d\x7d]\x7d"

/-- The same without a role. -/
def rolelessText : String :=
  "\x7b\"id\":\"r\",\"model\":\"m\",\"choices\":[\x7b\"index\":0,\"delta\":\x7b\"tool_calls\":" ++
    "[\x7b\"index\":0,\"id\":\"a\",\"function\":\x7b\"name\":\"f\",\"arguments\":\"1\"\x7d\x7d]" ++
    "\x7d\x7d]\x7d"

/-- The rest of its arguments. -/
def restChunk : Json := callChunk [] [("arguments", .string "2")] laterFields reasonField

def restText : String :=
  "\x7b\"id\":\"r\",\"model\":\"m\",\"choices\":[\x7b\"index\":0,\"delta\":\x7b\"tool_calls\":[" ++
    "\x7b\"index\":0,\"type\":\"function\",\"function\":\x7b\"arguments\":\"2\"\x7d\x7d]\x7d,\"f" ++
    "inish_reason\":\"tool_calls\"\x7d]\x7d"

/-- The first chunk of the same call without its name. -/
def unnamedChunk : Json := callChunk roleField [] firstFields []

def unnamedText : String :=
  "\x7b\"id\":\"r\",\"model\":\"m\",\"choices\":[\x7b\"index\":0,\"delta\":\x7b\"role\":\"assist" ++
    "ant\",\"tool_calls\":[\x7b\"index\":0,\"id\":\"a\",\"function\":\x7b\x7d\x7d]\x7d\x7d]\x7d"

/-- Its name and its arguments. -/
def nameChunk : Json :=
  callChunk [] [("arguments", .string "12"), ("name", .string "f")] laterFields reasonField

def nameText : String :=
  "\x7b\"id\":\"r\",\"model\":\"m\",\"choices\":[\x7b\"index\":0,\"delta\":\x7b\"tool_calls\":[" ++
    "\x7b\"index\":0,\"type\":\"function\",\"function\":\x7b\"name\":\"f\",\"arguments\":\"12" ++
    "\"\x7d\x7d]\x7d,\"finish_reason\":\"tool_calls\"\x7d]\x7d"

def wholeCall : Json := callEntry [("arguments", .string "12"), ("name", .string "f")]
  [("id", .string "a"), ("type", .string "function")]

/-- The call in a body. -/
def bodyWith (role : List (String × Json)) : Json := .object
  [("choices", .array [.object (reasonField ++ [("index", .number (.posInt 0)),
    ("message", .object (role ++ [("tool_calls", .array [wholeCall])]))])]),
    ("id", .string "r"), ("model", .string "m"), ("object", .string "chat.completion")]

def callBody : Json := bodyWith roleField

/-- What `from_str` makes of these texts. -/
def callStr (text : String) : Except String Json :=
  if text = "12" then .ok (.number (.posInt 12))
  else if text = namedText then .ok (namedChunk roleField)
  else if text = rolelessText then .ok (namedChunk [])
  else if text = restText then .ok restChunk
  else if text = unnamedText then .ok unnamedChunk
  else if text = nameText then .ok nameChunk
  else .error "expected value"

def callConfig : GenaiAdapterConfig := .new ⟨"openai", by decide +kernel⟩ ⟨"m", by decide +kernel⟩

/-- The completion of the call comes to a response. -/
theorem callBody_collects : ∃ es response, decode callStr callConfig "m" callBody = .ok es ∧
    Collects callStr new.limits es response := by
  have hcollected : (match decode callStr callConfig "m" callBody with
      | .ok es => (collectChatStream callStr (es.map .ok)).toBool
      | .error _ => false) = true := by decide +kernel
  cases hdecode : decode callStr callConfig "m" callBody with
  | error error =>
    rw [hdecode] at hcollected
    cases hcollected
  | ok es =>
    rw [hdecode] at hcollected
    replace hcollected : (collectChatStream callStr (es.map .ok)).toBool = true := hcollected
    cases hcollect : collectChatStream callStr (es.map .ok) with
    | error error =>
      rw [hcollect] at hcollected
      cases hcollected
    | ok response => exact ⟨es, response, rfl, collectWith_eq_ok.mp hcollect⟩

/-- Fields that are not supported are not those of the call. -/
theorem unsupported_ne : ∀ field ∈ unsupportedFields,
    (field == "role") = false ∧ (field == "tool_calls") = false := by decide

/-- Two chunks say the call, if their entries do. -/
theorem encodes_call {role function function' : List (String × Json)}
    (hrole : role = roleField ∨ role = [])
    (hcut : Pieces wholeCall [callEntry function firstFields, callEntry function' laterFields]) :
    Encodes (bodyWith role) [callChunk role function firstFields [],
      callChunk [] function' laterFields reasonField] := by
  refine ⟨_, _, _, rfl, rfl, rfl, .more ⟨by rintro _ ⟨⟩, rfl, rfl, rfl, rfl, rfl⟩ ⟨rfl, rfl, rfl⟩
    (.last ⟨by rintro _ ⟨⟩, rfl, rfl, rfl, rfl, rfl⟩ ⟨rfl, rfl, rfl⟩), ?_⟩
  rcases hrole with rfl | rfl
  all_goals
    refine ⟨List.forall_mem_cons.mpr ⟨rfl, List.forall_mem_singleton.mpr rfl⟩,
      ⟨List.forall_mem_cons.mpr ⟨.inr rfl, List.forall_mem_singleton.mpr (.inl rfl)⟩,
        _, List.mem_cons_self, rfl⟩, rfl, fun field hfield => ?_, ?_⟩
    · obtain ⟨hrole, hcalls⟩ := unsupported_ne field hfield
      refine iff_of_true ?_ (List.forall_mem_cons.mpr ⟨?_, List.forall_mem_singleton.mpr ?_⟩) <;>
        simp [field?, roleField, List.lookup_cons, hrole, hcalls, nonnull]
    · refine ⟨List.forall_mem_cons.mpr ⟨⟨0, rfl, Nat.zero_lt_one⟩, List.forall_mem_singleton.mpr
        ⟨0, rfl, Nat.zero_lt_one⟩⟩, fun index hi => ?_⟩
      obtain rfl : index = 0 := Nat.lt_one_iff.mp hi
      exact hcut

/-- Two chunks of the call are within the limit of a frame. -/
theorem withinFrames_call {role : List (String × Json)} (hrole : role = roleField ∨ role = [])
    (function function' : List (String × Json)) : WithinFrames callConfig
      [callChunk role function firstFields [], callChunk [] function' laterFields reasonField] := by
  refine List.forall_mem_cons.mpr ⟨?_, List.forall_mem_singleton.mpr ?_⟩
  · intro choice delta tools hchoice hdelta htools
    obtain rfl := (List.cons.inj (Json.array.inj (Option.some.inj hchoice))).1
    obtain rfl := Option.some.inj hdelta
    rcases hrole with rfl | rfl
    all_goals
      obtain rfl := Option.some.inj htools
      exact (by decide : 1 ≤ 1024)
  · intro choice delta tools hchoice hdelta htools
    obtain rfl := (List.cons.inj (Json.array.inj (Option.some.inj hchoice))).1
    obtain rfl := Option.some.inj hdelta
    obtain rfl := Option.some.inj htools
    exact (by decide : 1 ≤ 1024)

/-- The entries of the call, with its name in the first and its type in the second. -/
theorem pieces_named : Pieces wholeCall
    [callEntry [("arguments", .string "1"), ("name", .string "f")] firstFields,
      callEntry [("arguments", .string "2")] laterFields] := by
  refine ⟨⟨?_, _, List.mem_cons_of_mem _ List.mem_cons_self, rfl⟩, ⟨?_, _, List.mem_cons_self, rfl⟩,
    ⟨?_, _, List.mem_cons_self, rfl⟩, iff_of_true rfl ⟨_, List.mem_cons_self, rfl⟩, rfl⟩
  · exact List.forall_mem_cons.mpr ⟨.inl rfl, List.forall_mem_singleton.mpr (.inr rfl)⟩
  · exact List.forall_mem_cons.mpr ⟨.inr rfl, List.forall_mem_singleton.mpr (.inl rfl)⟩
  · exact List.forall_mem_cons.mpr ⟨.inr rfl, List.forall_mem_singleton.mpr (.inl rfl)⟩

/-- The entries of the call, with its name in the second. -/
theorem pieces_unnamed : Pieces wholeCall [callEntry [] firstFields,
    callEntry [("arguments", .string "12"), ("name", .string "f")] laterFields] := by
  refine ⟨⟨?_, _, List.mem_cons_of_mem _ List.mem_cons_self, rfl⟩, ⟨?_, _, List.mem_cons_self, rfl⟩,
    ⟨?_, _, List.mem_cons_of_mem _ List.mem_cons_self, rfl⟩,
    iff_of_true rfl ⟨_, List.mem_cons_self, rfl⟩, rfl⟩
  · exact List.forall_mem_cons.mpr ⟨.inl rfl, List.forall_mem_singleton.mpr (.inr rfl)⟩
  · exact List.forall_mem_cons.mpr ⟨.inr rfl, List.forall_mem_singleton.mpr (.inl rfl)⟩
  · exact List.forall_mem_cons.mpr ⟨.inl rfl, List.forall_mem_singleton.mpr (.inr rfl)⟩

theorem callStr_rest : callStr restText = .ok restChunk := by
  unfold callStr
  rw [if_neg (by decide +kernel), if_neg (by decide +kernel), if_neg (by decide +kernel),
    if_pos rfl]

theorem reads_named : List.Forall₂ (fun data chunk => data ≠ "[DONE]" ∧ callStr data = .ok chunk)
    [namedText, restText] [namedChunk roleField, restChunk] := by
  refine .cons ⟨by decide +kernel, ?_⟩ (.cons ⟨by decide +kernel, callStr_rest⟩ .nil)
  unfold callStr
  rw [if_neg (by decide +kernel), if_pos rfl]

theorem reads_roleless : List.Forall₂ (fun data chunk => data ≠ "[DONE]" ∧ callStr data = .ok chunk)
    [rolelessText, restText] [namedChunk [], restChunk] := by
  refine .cons ⟨by decide +kernel, ?_⟩ (.cons ⟨by decide +kernel, callStr_rest⟩ .nil)
  unfold callStr
  rw [if_neg (by decide +kernel), if_neg (by decide +kernel), if_pos rfl]

theorem reads_unnamed : List.Forall₂ (fun data chunk => data ≠ "[DONE]" ∧ callStr data = .ok chunk)
    [unnamedText, nameText] [unnamedChunk, nameChunk] := by
  unfold callStr
  refine .cons ⟨by decide +kernel, ?_⟩ (.cons ⟨by decide +kernel, ?_⟩ .nil)
  · rw [if_neg (by decide +kernel), if_neg (by decide +kernel), if_neg (by decide +kernel),
      if_neg (by decide +kernel), if_pos rfl]
  · rw [if_neg (by decide +kernel), if_neg (by decide +kernel), if_neg (by decide +kernel),
      if_neg (by decide +kernel), if_neg (by decide +kernel), if_pos rfl]

theorem namesRole_call : NamesRole callBody := ⟨_, _, rfl, rfl, rfl⟩

/-- The first entry of the call has its identity, and both have a function. -/
theorem announced_named : Announced [namedChunk roleField, restChunk] := by
  have hentries : [namedChunk roleField, restChunk].flatMap toolEntries =
      [callEntry [("arguments", .string "1"), ("name", .string "f")] firstFields,
        callEntry [("arguments", .string "2")] laterFields] := rfl
  intro index
  rw [hentries]
  by_cases hindex : index = 0
  · subst hindex
    refine ⟨List.forall_mem_cons.mpr ⟨rfl, List.forall_mem_singleton.mpr rfl⟩, ?_⟩
    rintro _ ⟨⟩
    exact ⟨rfl, rfl⟩
  · have hnil : entriesAt index [callEntry [("arguments", .string "1"), ("name", .string "f")]
        firstFields, callEntry [("arguments", .string "2")] laterFields] = [] := by
      refine List.filter_eq_nil_iff.mpr (List.forall_mem_cons.mpr ⟨fun h => ?_,
        List.forall_mem_singleton.mpr fun h => ?_⟩)
      · exact hindex (Option.some.inj (of_decide_eq_true h)).symm
      · exact hindex (Option.some.inj (of_decide_eq_true h)).symm
    rw [hnil]
    exact ⟨fun _ h => (by cases h), fun _ h => (by cases h)⟩

/-- The call in two chunks comes to the response of its completion. -/
theorem completion_iff_stream_call : ∃ es d' response,
    Accepts callStr (.new callConfig "m" true) [namedText, restText, "[DONE]"] es d' ∧
      Collects callStr new.limits es response := by
  obtain ⟨es, response, hdecode, hcollects⟩ := callBody_collects
  obtain ⟨es', d', haccepts, hcollects'⟩ := ((completion_iff_stream
    (encodes_call (.inl rfl) pieces_named) (withinFrames_call (.inl rfl) _ _) reads_named
    response).2.2 namesRole_call announced_named).mp ⟨es, hdecode, hcollects⟩
  exact ⟨es', d', response, haccepts, hcollects'⟩

/-- The events of data that is accepted. -/
def pushes (fromStr : String → Except String Json) :
    Decoder → List String → Option (List ChatStreamEvent)
  | _, [] => some []
  | d, data :: datas =>
    if d.done then none
    else match d.push fromStr data with
      | .error _ => none
      | .ok d₁ => (pushes fromStr { d₁ with pending := [] } datas).map (d₁.pending ++ ·)

theorem accepts_of_pushes : ∀ {datas : List String} {d : Decoder} {es : List ChatStreamEvent},
    pushes fromStr d datas = some es → ∃ d', Accepts fromStr d datas es d'
  | [], d, es, h => by
    obtain rfl := Option.some.inj h
    exact ⟨d, .nil d⟩
  | data :: datas, d, es, h => by
    unfold pushes at h
    split at h
    · cases h
    · rename_i hrunning
      split at h
      · cases h
      · rename_i d₁ hpush
        obtain ⟨es', hes, rfl⟩ := Option.map_eq_some_iff.mp h
        obtain ⟨d', haccepts⟩ := accepts_of_pushes hes
        exact ⟨d', .cons (Bool.eq_false_iff.mpr hrunning) hpush haccepts⟩

/-- The stream without a role comes to a response. -/
theorem roleless_collects : ∃ es d' response,
    Accepts callStr (.new callConfig "m" true) [rolelessText, restText, "[DONE]"] es d' ∧
      Collects callStr new.limits es response := by
  have hcollected : ((pushes callStr (.new callConfig "m" true)
      [rolelessText, restText, "[DONE]"]).any fun es =>
        (collectChatStream callStr (es.map .ok)).toBool) = true := by decide +kernel
  cases hes : pushes callStr (.new callConfig "m" true) [rolelessText, restText, "[DONE]"] with
  | none =>
    rw [hes] at hcollected
    cases hcollected
  | some es =>
    rw [hes] at hcollected
    replace hcollected : (collectChatStream callStr (es.map .ok)).toBool = true := hcollected
    obtain ⟨d', haccepts⟩ := accepts_of_pushes hes
    cases hcollect : collectChatStream callStr (es.map .ok) with
    | error error =>
      rw [hcollect] at hcollected
      cases hcollected
    | ok response => exact ⟨es, d', response, haccepts, collectWith_eq_ok.mp hcollect⟩

/-- **Chunks that say the message of a body do not always come to what the body does**: with the
name of a call after its first entry the stream is rejected, and without a role the completion is. -/
theorem split_diverges :
    (Encodes callBody [unnamedChunk, nameChunk] ∧
      WithinFrames callConfig [unnamedChunk, nameChunk] ∧
      List.Forall₂ (fun data chunk => data ≠ "[DONE]" ∧ callStr data = .ok chunk)
        [unnamedText, nameText] [unnamedChunk, nameChunk] ∧
      ¬Agree callStr callConfig "m" true new.limits callBody [unnamedText, nameText]) ∧
    Encodes (bodyWith []) [namedChunk [], restChunk] ∧
      WithinFrames callConfig [namedChunk [], restChunk] ∧
      List.Forall₂ (fun data chunk => data ≠ "[DONE]" ∧ callStr data = .ok chunk)
        [rolelessText, restText] [namedChunk [], restChunk] ∧
      ¬Agree callStr callConfig "m" true new.limits (bodyWith []) [rolelessText, restText] := by
  refine ⟨⟨encodes_call (.inl rfl) pieces_unnamed, withinFrames_call (.inl rfl) _ _, reads_unnamed,
    fun h => ?_⟩, encodes_call (.inr rfl) pieces_named, withinFrames_call (.inr rfl) _ _,
    reads_roleless, fun h => ?_⟩
  · obtain ⟨es, response, hdecode, hcollects⟩ := callBody_collects
    obtain ⟨es', d', haccepts, -⟩ := (h response).mp ⟨es, hdecode, hcollects⟩
    have hrejected :
        ((Decoder.new callConfig "m" true).push callStr unnamedText).toBool = false := by
      decide +kernel
    cases haccepts with
    | cons _ hpush _ =>
      rw [hpush] at hrejected
      cases hrejected
  · obtain ⟨es, d', response, haccepts, hcollects⟩ := roleless_collects
    obtain ⟨es', hdecode, -⟩ := (h response).mpr ⟨es, d', haccepts, hcollects⟩
    have hrejected : (decode callStr callConfig "m" (bodyWith [])).toBool = false := by
      decide +kernel
    rw [hdecode] at hrejected
    cases hrejected

end Paths

end GroupAgent.Genai
