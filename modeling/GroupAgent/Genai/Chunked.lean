import GroupAgent.Genai.Reading

/-!
# A body in chunks

The chunks that a body can be sent in, and what the chunk decoder (`decode.rs:69-170` of
`crates/group-agent-genai/src/openai_chat`) reads of them.

* `ChunkOf`, `ChoiceOf`, `Chunks`: chunks of a body, each with a delta, up to the finish reason and
  the usage. The identifier and the model stand in any of them, and where they stand they are those
  of the body.
* `Reads`: what reading all of them needs. **`Chunks.reads`**, **`Chunks.readable`**: that is all.
* **`chunkOf_eq_ok`**: the one chunk of a completion, which `decode` makes (`complete.rs:104-139`),
  is such chunks, too.

How the message of a body is split into deltas is not the matter of this file: a delta here is any
list of deltas whose contents are put into the chunks in order. `Encoding` has the splitting.
-/

namespace GroupAgent.Genai

open GroupAgent.Lib GroupAgent.Model GroupAgent.Model.ChatStreamCollector

/-- A chunk of a body, with its choices and its usage. -/
structure ChunkOf (body : Json) (choices : List Json) (usage : Option Json) (chunk : Json) : Prop where
  object : ∀ kind ∈ field? chunk "object", kind = .string "chat.completion.chunk"
  error : nonnull (field? chunk "error") = nonnull (field? body "error")
  id : field? chunk "id" = field? body "id"
  model : field? chunk "model" = field? body "model"
  offered : field? chunk "choices" = some (.array choices)
  counted : nonnull (field? chunk "usage") = usage

/-- A choice of a chunk, with its delta and its reason. -/
structure ChoiceOf (whole delta : Json) (reason : Option Json) (choice : Json) : Prop where
  index : field? choice "index" = field? whole "index"
  offered : field? choice "delta" = some delta
  ends : nonnull (field? choice "finish_reason") = reason

/-- The chunks of a body and their deltas: the finish reason is in the last choice, the usage with it
or after it. -/
inductive Chunks (body whole : Json) : List Json → List Json → Prop
  | last {choice chunk delta : Json} :
      ChunkOf body [choice] (nonnull (field? body "usage")) chunk →
      ChoiceOf whole delta (nonnull (field? whole "finish_reason")) choice →
      Chunks body whole [chunk] [delta]
  | tail {choice chunk tail delta : Json} : (nonnull (field? body "usage")).isSome →
      ChunkOf body [choice] none chunk →
      ChoiceOf whole delta (nonnull (field? whole "finish_reason")) choice →
      ChunkOf body [] (nonnull (field? body "usage")) tail →
      Chunks body whole [chunk, tail] [delta]
  | more {choice chunk delta : Json} {chunks deltas : List Json} :
      ChunkOf body [choice] none chunk → ChoiceOf whole delta none choice →
      Chunks body whole chunks deltas → Chunks body whole (chunk :: chunks) (delta :: deltas)

/-- The usage that is read, if there is any. -/
def readUsage (retain : Bool) : Option Json → Except GenaiMappingError (Option TokenUsage)
  | none => .ok none
  | some value => some <$> Decoder.usage retain value

/-- What chunks of a body are read as. -/
structure Reads (config : GenaiAdapterConfig) (body whole : Json) (deltas : List Json)
    (id : Option ResponseId) (model : Option ModelId) (reason : Option String)
    (usage : Option TokenUsage) (said : List (Option String × List Fragment)) : Prop where
  header : ReadsHeader body id model
  index : (field? whole "index").bind asU64? = some 0
  ends : optional? (field? whole "finish_reason") = some reason
  counted : readUsage config.retainUsageDetails (nonnull (field? body "usage")) = .ok usage
  deltas : List.Forall₂ (fun delta said => ReadsDelta config delta said.1 said.2) deltas said

/-- The text of deltas. -/
def saidText (said : List (Option String × List Fragment)) : String :=
  concat (said.map fun s => s.1.getD "")

section Chunks

variable {config : GenaiAdapterConfig} {structured : Bool} {body whole chunk choice delta : Json}
  {choices : List Json} {usage reason : Option Json} {frame : Frame} {id : Option ResponseId} {model : Option ModelId}
  {chunks deltas : List Json} {frames : List Frame}

theorem nonnull_nonnull (value : Option Json) : nonnull (nonnull value) = nonnull value := by
  unfold nonnull
  rw [Option.filter_filter]
  simp

theorem optional?_nonnull (value : Option Json) : optional? (nonnull value) = optional? value := by
  unfold optional?
  rw [nonnull_nonnull]

theorem optional?_congr {value value' : Option Json} (h : nonnull value = nonnull value') :
    optional? value = optional? value' := by
  unfold optional?
  rw [h]

theorem readIdentity_congr {α : Type} {new : String → Except IdentifierError α} {value value' : Json}
    {field : String} (h : field? value field = field? value' field) :
    readIdentity new value field = readIdentity new value' field := by
  unfold readIdentity
  rw [h]

/-- A chunk has the header of its body. -/
theorem ChunkOf.header (h : ChunkOf body choices usage chunk) :
    ReadsHeader chunk id model ↔ ReadsHeader body id model := by
  constructor
  · rintro ⟨herror, hid, hmodel⟩
    exact ⟨h.error.symm.trans herror, (readIdentity_congr h.id).symm.trans hid,
      (readIdentity_congr h.model).symm.trans hmodel⟩
  · rintro ⟨herror, hid, hmodel⟩
    exact ⟨h.error.trans herror, (readIdentity_congr h.id).trans hid,
      (readIdentity_congr h.model).trans hmodel⟩

theorem ChunkOf.kind (h : ChunkOf body choices usage chunk) :
    ∀ kind ∈ field? chunk "object", asStr? kind = some "chat.completion.chunk" := by
  intro kind hkind
  rw [h.object kind hkind]
  rfl

theorem frameUsage_eq {retain : Bool} {value : Json} {noChoices : Bool}
    (h : nonnull (field? value "usage") = usage) (hsome : noChoices = true → usage.isSome) :
    Decoder.frameUsage retain value noChoices = readUsage retain usage := by
  unfold Decoder.frameUsage readUsage
  rw [h]
  cases usage with
  | some usage => rfl
  | none =>
    cases noChoices with
    | true => cases hsome rfl
    | false => rfl

/-- **A chunk with a choice is read by its parts.** -/
theorem ChunkOf.reads (h : ChunkOf body [choice] usage chunk) (hc : ChoiceOf whole delta reason choice) :
    readFrame config structured chunk = .ok frame ↔ ReadsHeader body frame.id frame.model ∧
      (field? whole "index").bind asU64? = some 0 ∧
      readUsage config.retainUsageDetails usage = .ok frame.usage ∧
      ∃ c, frame.choice = some c ∧ ReadsDelta config delta c.content c.fragments ∧
        optional? reason = some c.reason := by
  have hends : optional? (field? choice "finish_reason") = optional? reason := by
    rw [← hc.ends, optional?_nonnull]
  rw [readFrame_eq_ok, h.header]
  constructor
  · rintro ⟨hheader, -, choices, hchoices, -, hread, husage⟩
    obtain rfl : [choice] = choices := by
      simpa using h.offered.symm.trans hchoices
    obtain ⟨c, hchoice, hsome⟩ := map_eq_ok.mp hread
    obtain ⟨hindex, delta', hdelta, hreads, hreason⟩ := readChoice_eq_ok.mp hchoice
    obtain rfl := Option.some.inj (hc.offered.symm.trans hdelta)
    rw [frameUsage_eq h.counted (by simp)] at husage
    rw [hc.index] at hindex
    exact ⟨hheader, hindex, husage, c, hsome.symm, hreads, hends ▸ hreason⟩
  · rintro ⟨hheader, hindex, husage, c, hsome, hreads, hreason⟩
    refine ⟨hheader, h.kind, [choice], h.offered, le_refl _, ?_, ?_⟩
    · rw [hsome]
      exact map_eq_ok.mpr ⟨c, readChoice_eq_ok.mpr ⟨hc.index ▸ hindex, delta, hc.offered, hreads,
        hends.trans hreason⟩, rfl⟩
    · rw [frameUsage_eq h.counted (by simp)]
      exact husage

/-- A chunk without a choice is read by its usage. -/
theorem ChunkOf.reads_tail (h : ChunkOf body [] usage chunk) (hsome : usage.isSome) :
    readFrame config structured chunk = .ok frame ↔ ReadsHeader body frame.id frame.model ∧
      readUsage config.retainUsageDetails usage = .ok frame.usage ∧ frame.choice = none := by
  rw [readFrame_eq_ok, h.header]
  constructor
  · rintro ⟨hheader, -, choices, hchoices, -, hread, husage⟩
    obtain rfl : [] = choices := by
      simpa using h.offered.symm.trans hchoices
    rw [frameUsage_eq h.counted fun _ => hsome] at husage
    exact ⟨hheader, husage, (Except.ok.inj hread).symm⟩
  · rintro ⟨hheader, husage, hnone⟩
    refine ⟨hheader, h.kind, [], h.offered, Nat.zero_le _, ?_, ?_⟩
    · rw [hnone]
      rfl
    · rw [frameUsage_eq h.counted fun _ => hsome]
      exact husage

/-- A header says one identity. -/
theorem ReadsHeader.unique {id' : Option ResponseId} {model' : Option ModelId}
    (h : ReadsHeader body id model) (h' : ReadsHeader body id' model') : id = id' ∧ model = model' :=
  ⟨Except.ok.inj (h.id.symm.trans h'.id), Except.ok.inj (h.model.symm.trans h'.model)⟩

/-- **Chunks that are read are read as what they say.** -/
theorem Chunks.reads (h : Chunks body whole chunks deltas) :
    ∀ {frames : List Frame},
      List.Forall₂ (fun chunk frame => readFrame config structured chunk = .ok frame) chunks frames →
      ∃ id model reason usage said, Reads config body whole deltas id model reason usage said ∧
        Speaks id model reason usage frames (saidText said) (said.flatMap Prod.snd) := by
  induction h with
  | last hchunk hchoice =>
    intro frames hall
    cases hall with
    | @cons _ frame _ _ hread hall =>
      cases hall
      obtain ⟨hheader, hindex, husage, c, hc, hreads, hreason⟩ := (hchunk.reads hchoice).mp hread
      obtain ⟨id, model, choice, usage⟩ := frame
      obtain rfl : choice = some c := hc
      refine ⟨id, model, c.reason, usage, [(c.content, c.fragments)],
        ⟨hheader, hindex, optional?_nonnull _ ▸ hreason, husage, .cons hreads .nil⟩, ?_⟩
      have hspeaks : Speaks id model c.reason usage [⟨id, model, some c, usage⟩] (c.content.getD "")
          c.fragments := .last c rfl
      simpa [saidText, concat] using hspeaks
  | tail hsome hchunk hchoice htail =>
    intro frames hall
    cases hall with
    | @cons _ frame _ _ hread hall =>
      cases hall with
      | @cons _ frame' _ _ hread' hall =>
        cases hall
        obtain ⟨hheader, hindex, husage, c, hc, hreads, hreason⟩ := (hchunk.reads hchoice).mp hread
        obtain ⟨hheader', husage', hnone⟩ := (htail.reads_tail hsome).mp hread'
        obtain ⟨id, model, choice, usage⟩ := frame
        obtain ⟨id', model', choice', usage'⟩ := frame'
        obtain rfl : choice = some c := hc
        obtain rfl : choice' = none := hnone
        obtain rfl : none = usage := Except.ok.inj husage
        obtain ⟨rfl, rfl⟩ := hheader.unique hheader'
        refine ⟨id, model, c.reason, usage', [(c.content, c.fragments)],
          ⟨hheader, hindex, optional?_nonnull _ ▸ hreason, husage', .cons hreads .nil⟩, ?_⟩
        have hspeaks : Speaks id model c.reason usage'
            [⟨id, model, some c, none⟩, ⟨id, model, none, usage'⟩] (c.content.getD "") c.fragments :=
          .tail c rfl
        simpa [saidText, concat] using hspeaks
  | more hchunk hchoice _ ih =>
    intro frames hall
    cases hall with
    | @cons _ frame _ frames hread hall =>
      obtain ⟨hheader, hindex, husage, c, hc, hreads, hreason⟩ := (hchunk.reads hchoice).mp hread
      obtain ⟨id', model', reason, usage', said, hreads', hspeaks⟩ := ih hall
      obtain ⟨id, model, choice, usage⟩ := frame
      obtain rfl : choice = some c := hc
      obtain rfl : none = usage := Except.ok.inj husage
      obtain ⟨rfl, rfl⟩ := hheader.unique hreads'.header
      refine ⟨id, model, reason, usage', (c.content, c.fragments) :: said,
        ⟨hheader, hindex, hreads'.ends, hreads'.counted, .cons hreads hreads'.deltas⟩, ?_⟩
      exact .more c (Option.some.inj hreason).symm hspeaks

/-- **Chunks that say something readable are read.** -/
theorem Chunks.readable (h : Chunks body whole chunks deltas) :
    ∀ {id : Option ResponseId} {model : Option ModelId} {reason : Option String}
      {usage : Option TokenUsage} {said : List (Option String × List Fragment)},
      Reads config body whole deltas id model reason usage said →
      ∃ frames,
        List.Forall₂ (fun chunk frame => readFrame config structured chunk = .ok frame) chunks frames ∧
          Speaks id model reason usage frames (saidText said) (said.flatMap Prod.snd) := by
  induction h with
  | last hchunk hchoice =>
    rintro id model reason usage said ⟨hheader, hindex, hends, hcounted, hdeltas⟩
    cases hdeltas with
    | @cons _ s _ _ hreads hdeltas =>
      cases hdeltas
      refine ⟨[⟨id, model, some ⟨s.1, s.2, reason⟩, usage⟩], .cons ((hchunk.reads hchoice).mpr
        ⟨hheader, hindex, hcounted, _, rfl, hreads, (optional?_nonnull _).trans hends⟩) .nil, ?_⟩
      have hspeaks : Speaks id model reason usage [⟨id, model, some ⟨s.1, s.2, reason⟩, usage⟩]
          (s.1.getD "") s.2 := .last ⟨s.1, s.2, reason⟩ rfl
      simpa [saidText, concat] using hspeaks
  | tail hsome hchunk hchoice htail =>
    rintro id model reason usage said ⟨hheader, hindex, hends, hcounted, hdeltas⟩
    cases hdeltas with
    | @cons _ s _ _ hreads hdeltas =>
      cases hdeltas
      refine ⟨[⟨id, model, some ⟨s.1, s.2, reason⟩, none⟩, ⟨id, model, none, usage⟩],
        .cons ((hchunk.reads hchoice).mpr
          ⟨hheader, hindex, rfl, _, rfl, hreads, (optional?_nonnull _).trans hends⟩)
        (.cons ((htail.reads_tail hsome).mpr ⟨hheader, hcounted, rfl⟩) .nil), ?_⟩
      have hspeaks : Speaks id model reason usage
          [⟨id, model, some ⟨s.1, s.2, reason⟩, none⟩, ⟨id, model, none, usage⟩] (s.1.getD "") s.2 :=
        .tail ⟨s.1, s.2, reason⟩ rfl
      simpa [saidText, concat] using hspeaks
  | more hchunk hchoice _ ih =>
    rintro id model reason usage said ⟨hheader, hindex, hends, hcounted, hdeltas⟩
    cases hdeltas with
    | @cons _ s _ said hreads hdeltas =>
      obtain ⟨frames, hframes, hspeaks⟩ := ih ⟨hheader, hindex, hends, hcounted, hdeltas⟩
      exact ⟨⟨id, model, some ⟨s.1, s.2, none⟩, none⟩ :: frames, .cons ((hchunk.reads hchoice).mpr
        ⟨hheader, hindex, rfl, _, rfl, hreads, rfl⟩) hframes, .more ⟨s.1, s.2, none⟩ rfl hspeaks⟩

end Chunks

/-! ## The chunk of a completion -/

section Rewriting

variable {body whole message message' chunk value v : Json} {key key' : String}

theorem field?_setField_of_ne (hne : key' ≠ key) : field? (setField key v value) key' = field? value key' := by
  cases value with
  | object entries => exact SortedMap.lookup_upsertEntries_of_ne hne
  | _ => rfl

theorem field?_setField_self (h : (asObject? value).isSome) :
    field? (setField key v value) key = some v := by
  cases value with
  | object entries => exact SortedMap.lookup_upsertEntries_self
  | _ => cases h

theorem asObject?_setField (h : (asObject? value).isSome) : (asObject? (setField key v value)).isSome := by
  cases value with
  | object entries => rfl
  | _ => cases h

theorem asObject?_eraseField (h : (asObject? value).isSome) : (asObject? (eraseField key value)).isSome := by
  cases value with
  | object entries => rfl
  | _ => cases h

theorem field?_eraseField_of_ne (hne : key' ≠ key) : field? (eraseField key value) key' = field? value key' := by
  cases value with
  | object entries =>
    show (entries.filter _).lookup key' = entries.lookup key'
    induction entries with
    | nil => rfl
    | cons entry entries ih =>
      by_cases hkey : entry.1 = key
      · have hbeq : (key' == entry.1) = false := beq_false_of_ne (hkey ▸ hne)
        rw [List.filter_cons_of_neg (by simp [hkey]), List.lookup_cons, hbeq]
        exact ih
      · rw [List.filter_cons_of_pos (by simp [hkey]), List.lookup_cons, List.lookup_cons]
        cases key' == entry.1 with
        | true => rfl
        | false => exact ih
  | _ => rfl

/-- A value with a field is an object. -/
theorem asObject?_of_field? (h : field? value key = some v) : (asObject? value).isSome := by
  cases value with
  | object entries => rfl
  | _ => cases h

/-- The text of a field. -/
theorem bind_asStr?_eq_some {value : Option Json} {text : String} :
    value.bind asStr? = some text ↔ value = some (.string text) := by
  cases value with
  | none => simp
  | some v => cases v <;> simp [asStr?]

/-- The choice of a completion as the choice of a chunk, around its message. -/
def rewrittenChoice (whole message' : Json) : Json := setField "delta" message' (eraseField "message" whole)

/-- A body as a chunk, around its message. -/
def rewritten (body whole message' : Json) : Json :=
  setField "object" (.string "chat.completion.chunk")
    (setField "choices" (.array [rewrittenChoice whole message']) body)

theorem chunkChoice_eq_ok {choice : Json} (hmessage : field? whole "message" = some message) :
    chunkChoice whole = .ok choice ↔ field? message "role" = some (.string "assistant") ∧
      ∃ message', indexMessage message = .ok message' ∧ choice = rewrittenChoice whole message' := by
  have hnone : ¬(asObject? whole).isNone = true := by
    rw [← Option.not_isSome, asObject?_of_field? hmessage]
    decide
  unfold chunkChoice
  rw [if_neg hnone, hmessage]
  simp only
  by_cases hrole : field? message "role" = some (.string "assistant")
  · rw [if_neg (not_not.mpr (bind_asStr?_eq_some.mpr hrole))]
    constructor
    · intro h
      obtain ⟨message', hindex, h⟩ := bind_eq_ok.mp h
      exact ⟨hrole, message', hindex, (Except.ok.inj h).symm⟩
    · rintro ⟨-, message', hindex, rfl⟩
      exact bind_eq_ok.mpr ⟨message', hindex, rfl⟩
  · rw [if_pos (mt bind_asStr?_eq_some.mp hrole)]
    exact ⟨fun h => (by cases h), fun h => absurd h.1 hrole⟩

/-- **A body of an assistant message is rewritten into a chunk.** -/
theorem chunkOf_eq_ok (hchoices : field? body "choices" = some (.array [whole]))
    (hmessage : field? whole "message" = some message) : chunkOf body = .ok chunk ↔
      field? body "object" = some (.string "chat.completion") ∧
      field? message "role" = some (.string "assistant") ∧
      ∃ message', indexMessage message = .ok message' ∧ chunk = rewritten body whole message' := by
  have harray : (some (Json.array [whole])).bind asArray? = some [whole] := rfl
  unfold chunkOf
  by_cases hkind : field? body "object" = some (.string "chat.completion")
  · rw [if_neg (not_not.mpr (bind_asStr?_eq_some.mpr hkind)), hchoices, harray]
    simp only
    constructor
    · intro h
      obtain ⟨choice, hchoice, h⟩ := bind_eq_ok.mp h
      obtain ⟨hrole, message', hindex, rfl⟩ := (chunkChoice_eq_ok hmessage).mp hchoice
      exact ⟨hkind, hrole, message', hindex, (Except.ok.inj h).symm⟩
    · rintro ⟨-, hrole, message', hindex, rfl⟩
      exact bind_eq_ok.mpr ⟨_, (chunkChoice_eq_ok hmessage).mpr ⟨hrole, message', hindex, rfl⟩, rfl⟩
  · rw [if_pos (mt bind_asStr?_eq_some.mp hkind)]
    exact ⟨fun h => (by cases h), fun h => absurd h.1 hkind⟩

/-- The chunk of a completion says all of its body. -/
theorem chunks_rewritten (hchoices : field? body "choices" = some (.array [whole]))
    (hmessage : field? whole "message" = some message) :
    Chunks body whole [rewritten body whole message'] [message'] := by
  have hbody := asObject?_of_field? hchoices
  have hwhole : (asObject? (eraseField "message" whole)).isSome :=
    asObject?_eraseField (asObject?_of_field? hmessage)
  have hfield : ∀ {key : String}, key ≠ "object" → key ≠ "choices" →
      field? (rewritten body whole message') key = field? body key := fun h h' => by
    unfold rewritten
    rw [field?_setField_of_ne h, field?_setField_of_ne h']
  have hchoice : ∀ {key : String}, key ≠ "delta" → key ≠ "message" →
      field? (rewrittenChoice whole message') key = field? whole key := fun h h' => by
    unfold rewrittenChoice
    rw [field?_setField_of_ne h, field?_eraseField_of_ne h']
  have hchunk : ChunkOf body [rewrittenChoice whole message'] (nonnull (field? body "usage"))
      (rewritten body whole message') := by
    refine ⟨fun kind hkind => ?_, ?_, ?_, ?_, ?_, ?_⟩
    · unfold rewritten at hkind
      rw [field?_setField_self (asObject?_setField hbody)] at hkind
      exact (Option.some.inj hkind).symm
    · rw [hfield (by decide) (by decide)]
    · exact hfield (by decide) (by decide)
    · exact hfield (by decide) (by decide)
    · unfold rewritten
      rw [field?_setField_of_ne (by decide), field?_setField_self hbody]
    · rw [hfield (by decide) (by decide)]
  refine .last hchunk ⟨?_, ?_, ?_⟩
  · exact hchoice (by decide) (by decide)
  · exact field?_setField_self hwhole
  · rw [hchoice (by decide) (by decide)]

end Rewriting

end GroupAgent.Genai
