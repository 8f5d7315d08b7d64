import GroupAgent.Model.Response
import Mathlib.Data.List.Induction

/-!
# Requests

Model of `GenerationConfig` (`request.rs:10-16`, `validate` 106-129) and `ChatRequest`
(`request.rs:154-162`, `validate` 250-301) of `crates/group-agent-model/src`, with the errors of
their checks (320-359).

* `validate` checks that there is a message, then the generation, the names of the tools, the tool
  choice, and last the transcript, which it walks over once with the identifiers of the calls it
  has seen and of the calls that have a result. That walk is `Ledger.walk`.
* Floats of the configuration are their bits; a range is a comparison on them.
* `Linked` is what the walk accepts: every result answers a call before it, no identifier is that
  of two calls, and none is answered twice.

Results:
* **`linked_snoc`**: one message more; **`Linked.round`**: a round of tool results more.
* **`validate_iff`**: what `validate` comes to for the requests of the prebuilt agents.

A call without a result is accepted: the source asks for results of calls only, not for calls to
have results.
-/

namespace GroupAgent.Model

open GroupAgent.Lib

/-! ## Generation controls -/

/-- Common provider-neutral generation controls. -/
structure GenerationConfig where
  temperature : Option F64
  topP : Option F64
  maxOutputTokens : Option UInt32
  stopSequences : List String
  parallelToolCalls : Option Bool

/-- A provider-neutral request validation failure. -/
inductive RequestValidationError where
  | emptyMessages
  | invalidTemperature (value : F64)
  | invalidTopP (value : F64)
  | zeroMaxOutputTokens
  | emptyStopSequence (index : Nat)
  | duplicateToolDefinition (name : ToolName)
  | unknownNamedTool (name : ToolName)
  | requiredToolChoiceWithoutTools
  | duplicateToolCallId (id : ToolCallId)
  | unknownToolCallReference (id : ToolCallId) (messageIndex : Nat)
  | duplicateToolResult (id : ToolCallId)
  deriving DecidableEq

namespace GenerationConfig

/-- A configuration that leaves every value to the provider. -/
def new : GenerationConfig := ⟨none, none, none, [], none⟩

def validate (self : GenerationConfig) : Except RequestValidationError Unit := do
  if let some value := self.temperature then
    if !value.isFinite || value.ltZero then throw (.invalidTemperature value)
  if let some value := self.topP then
    if !value.isFinite || value.ltZero || value.gtOne then throw (.invalidTopP value)
  if self.maxOutputTokens = some 0 then throw .zeroMaxOutputTokens
  match self.stopSequences.findIdx? (· == "") with
  | some index => throw (.emptyStopSequence index)
  | none => pure ()

@[simp] theorem validate_new : new.validate = .ok () := rfl

end GenerationConfig

/-! ## Requests -/

/-- A complete provider-neutral chat request. -/
structure ChatRequest where
  output : Option StructuredOutput
  messages : List Message
  tools : List ToolDefinition
  toolChoice : ToolChoice
  generation : GenerationConfig
  extensions : Extensions

/-- A request for some messages, everything else at its default. -/
def ChatRequest.new (messages : List Message) : ChatRequest where
  output := none
  messages
  tools := []
  toolChoice := .auto
  generation := .new
  extensions := .empty

/-- The calls a transcript made so far, and those that have a result. -/
structure Ledger where
  knownCalls : List ToolCallId
  completedCalls : List ToolCallId

namespace Ledger

def empty : Ledger := ⟨[], []⟩

/-- The calls of one assistant message must be new. -/
def addCalls : Ledger → List ToolCallId → Except RequestValidationError Ledger
  | ledger, [] => .ok ledger
  | ledger, id :: ids =>
    if id ∈ ledger.knownCalls then .error (.duplicateToolCallId id)
    else addCalls { ledger with knownCalls := id :: ledger.knownCalls } ids

/-- A result needs a known call without a result. -/
def addResult (ledger : Ledger) (messageIndex : Nat) (id : ToolCallId) :
    Except RequestValidationError Ledger :=
  if id ∉ ledger.knownCalls then .error (.unknownToolCallReference id messageIndex)
  else if id ∈ ledger.completedCalls then .error (.duplicateToolResult id)
  else .ok { ledger with completedCalls := id :: ledger.completedCalls }

def add (ledger : Ledger) (messageIndex : Nat) : Message → Except RequestValidationError Ledger
  | .system _ => .ok ledger
  | .user _ => .ok ledger
  | .assistant message => ledger.addCalls message.callIds
  | .tool message => ledger.addResult messageIndex message.toolCallId

/-- The walk over a transcript. -/
def walk : Ledger → Nat → List Message → Except RequestValidationError Ledger
  | ledger, _, [] => .ok ledger
  | ledger, messageIndex, message :: messages => do
    let ledger ← ledger.add messageIndex message
    walk ledger (messageIndex + 1) messages

end Ledger

/-- Names must not repeat. -/
def checkNames : List ToolName → List ToolName → Except RequestValidationError Unit
  | _, [] => .ok ()
  | seen, name :: names =>
    if name ∈ seen then .error (.duplicateToolDefinition name) else checkNames (name :: seen) names

/-- Provider-neutral request invariants. -/
def ChatRequest.validate (self : ChatRequest) : Except RequestValidationError Unit := do
  if self.messages.isEmpty then throw .emptyMessages
  self.generation.validate
  let toolNames := self.tools.map ToolDefinition.name
  checkNames [] toolNames
  if let .named name := self.toolChoice then
    if name ∉ toolNames then throw (.unknownNamedTool name)
  if self.toolChoice = .required ∧ self.tools.isEmpty then throw .requiredToolChoiceWithoutTools
  let _ ← Ledger.empty.walk 0 self.messages

/-! ## What a walk accepts -/

namespace Ledger

theorem addCalls_eq_ok {ids : List ToolCallId} : ∀ {ledger ledger' : Ledger},
    ledger.addCalls ids = .ok ledger' ↔ ids.Nodup ∧ (∀ id ∈ ids, id ∉ ledger.knownCalls) ∧
      ledger' = { ledger with knownCalls := ids.reverse ++ ledger.knownCalls } := by
  induction ids with
  | nil =>
    intro ledger ledger'
    show Except.ok ledger = .ok ledger' ↔ _
    rw [Except.ok.injEq]
    exact ⟨fun h => ⟨List.nodup_nil, by simp, h.symm⟩, fun h => h.2.2.symm⟩
  | cons id ids ih =>
    intro ledger ledger'
    unfold addCalls
    by_cases h : id ∈ ledger.knownCalls
    · simp [h]
    · rw [if_neg h, ih, List.nodup_cons]
      constructor
      · rintro ⟨hn, hnew, rfl⟩
        refine ⟨⟨fun hid => hnew id hid List.mem_cons_self, hn⟩, ?_, by simp⟩
        intro i hi
        rcases List.mem_cons.mp hi with rfl | hi
        · exact h
        · exact fun hk => hnew i hi (List.mem_cons_of_mem id hk)
      · rintro ⟨⟨hid, hn⟩, hnew, rfl⟩
        refine ⟨hn, fun i hi hk => ?_, by simp⟩
        rcases List.mem_cons.mp hk with rfl | hk
        · exact hid hi
        · exact hnew i (List.mem_cons_of_mem id hi) hk

theorem walk_append (ms ms' : List Message) : ∀ (ledger : Ledger) (n : Nat),
    ledger.walk n (ms ++ ms') = ledger.walk n ms >>= fun l => l.walk (n + ms.length) ms' := by
  induction ms with
  | nil => intro ledger n; rfl
  | cons m ms ih =>
    intro ledger n
    show (ledger.add n m >>= fun l => l.walk (n + 1) (ms ++ ms')) =
      (ledger.add n m >>= fun l => l.walk (n + 1) ms) >>= _
    rw [bind_assoc]
    refine congrArg (ledger.add n m >>= ·) (funext fun l => ?_)
    rw [ih, List.length_cons, Nat.add_assoc, Nat.add_comm 1]

end Ledger

/-- The identifiers of the calls a transcript makes. -/
def callsOf (messages : List Message) : List ToolCallId :=
  messages.flatMap fun m => (m.asAssistant.map AssistantMessage.callIds).getD []

/-- The identifiers a transcript has results for. -/
def resultsOf (messages : List Message) : List ToolCallId :=
  messages.filterMap fun m => m.asTool.map ToolMessage.toolCallId

@[simp] theorem callsOf_append (ms ms' : List Message) :
    callsOf (ms ++ ms') = callsOf ms ++ callsOf ms' := List.flatMap_append

@[simp] theorem resultsOf_append (ms ms' : List Message) :
    resultsOf (ms ++ ms') = resultsOf ms ++ resultsOf ms' := List.filterMap_append

theorem callsOf_assistant (a : AssistantMessage) : callsOf [.assistant a] = a.callIds :=
  List.append_nil _

@[simp] theorem callsOf_tools (ts : List ToolMessage) : callsOf (ts.map .tool) = [] := by
  induction ts with
  | nil => rfl
  | cons t ts ih => exact ih

@[simp] theorem resultsOf_tools (ts : List ToolMessage) :
    resultsOf (ts.map .tool) = ts.map ToolMessage.toolCallId := by
  induction ts with
  | nil => rfl
  | cons t ts ih => exact congrArg (List.cons t.toolCallId) ih

/-- The calls and results of a transcript are linked: every call is new, and every result is the
only one of an earlier call. -/
def Linked (messages : List Message) : Prop := ∃ ledger, Ledger.empty.walk 0 messages = .ok ledger

/-- The next message of a linked transcript. -/
def Links (messages : List Message) : Message → Prop
  | .system _ => True
  | .user _ => True
  | .assistant message =>
    message.callIds.Nodup ∧ ∀ id ∈ message.callIds, id ∉ callsOf messages
  | .tool message => message.toolCallId ∈ callsOf messages ∧ message.toolCallId ∉ resultsOf messages

namespace Ledger

/-- What a message adds to the ledger. -/
structure Adds (ledger : Ledger) (m : Message) (ledger' : Ledger) : Prop where
  known : ∀ id, id ∈ ledger'.knownCalls ↔ id ∈ ledger.knownCalls ∨ id ∈ callsOf [m]
  completed : ∀ id, id ∈ ledger'.completedCalls ↔ id ∈ ledger.completedCalls ∨ id ∈ resultsOf [m]

theorem add_adds {ledger ledger' : Ledger} {n : Nat} {m : Message}
    (h : ledger.add n m = .ok ledger') : ledger.Adds m ledger' := by
  cases m with
  | system _ => cases h; exact ⟨by simp [callsOf, Message.asAssistant], by simp [resultsOf, Message.asTool]⟩
  | user _ => cases h; exact ⟨by simp [callsOf, Message.asAssistant], by simp [resultsOf, Message.asTool]⟩
  | assistant a =>
    obtain ⟨-, -, rfl⟩ := addCalls_eq_ok.mp h
    refine ⟨fun id => ?_, by simp [resultsOf, Message.asTool]⟩
    rw [callsOf_assistant, List.mem_append, List.mem_reverse, or_comm]
  | tool t =>
    replace h : ledger.addResult n t.toolCallId = .ok ledger' := h
    unfold addResult at h
    split at h
    · cases h
    · split at h
      · cases h
      · cases h
        refine ⟨by simp [callsOf, Message.asAssistant], fun id => ?_⟩
        simp [resultsOf, Message.asTool, or_comm]

/-- The ledger of a transcript holds its calls and results. -/
theorem walk_adds : ∀ {ms : List Message} {ledger ledger' : Ledger} {n : Nat},
    ledger.walk n ms = .ok ledger' →
      (∀ id, id ∈ ledger'.knownCalls ↔ id ∈ ledger.knownCalls ∨ id ∈ callsOf ms) ∧
      ∀ id, id ∈ ledger'.completedCalls ↔ id ∈ ledger.completedCalls ∨ id ∈ resultsOf ms
  | [], ledger, ledger', n, h => by
    cases h
    exact ⟨by simp [callsOf], by simp [resultsOf]⟩
  | m :: ms, ledger, ledger', n, h => by
    obtain ⟨l, hl, h⟩ := bind_eq_ok.mp h
    obtain ⟨hk, hc⟩ := walk_adds h
    have hadds := add_adds hl
    rw [← List.singleton_append, callsOf_append, resultsOf_append]
    constructor
    · intro id
      rw [hk, hadds.known, List.mem_append, or_assoc]
    · intro id
      rw [hc, hadds.completed, List.mem_append, or_assoc]

end Ledger

theorem linked_snoc {ms : List Message} {m : Message} :
    Linked (ms ++ [m]) ↔ Linked ms ∧ Links ms m := by
  have hstep : ∀ {l : Ledger}, Ledger.empty.walk 0 ms = .ok l →
      ((∃ l', l.add ms.length m = .ok l') ↔ Links ms m) := by
    intro l hl
    obtain ⟨hk, hc⟩ := Ledger.walk_adds hl
    have hknown : ∀ id, id ∈ l.knownCalls ↔ id ∈ callsOf ms := by
      intro id
      rw [hk]
      simp [Ledger.empty]
    have hdone : ∀ id, id ∈ l.completedCalls ↔ id ∈ resultsOf ms := by
      intro id
      rw [hc]
      simp [Ledger.empty]
    cases m with
    | system _ => exact ⟨fun _ => trivial, fun _ => ⟨l, rfl⟩⟩
    | user _ => exact ⟨fun _ => trivial, fun _ => ⟨l, rfl⟩⟩
    | assistant a =>
      constructor
      · rintro ⟨l', h⟩
        obtain ⟨hn, hnew, -⟩ := Ledger.addCalls_eq_ok.mp h
        exact ⟨hn, fun id hid hcall => hnew id hid ((hknown id).mpr hcall)⟩
      · rintro ⟨hn, hnew⟩
        exact ⟨_, Ledger.addCalls_eq_ok.mpr ⟨hn, fun id hid h => hnew id hid ((hknown id).mp h), rfl⟩⟩
    | tool t =>
      show (∃ l', l.addResult ms.length t.toolCallId = .ok l') ↔
        t.toolCallId ∈ callsOf ms ∧ t.toolCallId ∉ resultsOf ms
      unfold Ledger.addResult
      simp only [hknown, hdone]
      by_cases h : t.toolCallId ∈ callsOf ms
      · by_cases h' : t.toolCallId ∈ resultsOf ms <;> simp [h, h']
      · simp [h]
  unfold Linked
  rw [Ledger.walk_append]
  constructor
  · rintro ⟨l', h⟩
    obtain ⟨l, hl, h⟩ := bind_eq_ok.mp h
    obtain ⟨l'', hadd, -⟩ := bind_eq_ok.mp h
    rw [Nat.zero_add] at hadd
    exact ⟨⟨l, hl⟩, (hstep hl).mp ⟨l'', hadd⟩⟩
  · rintro ⟨⟨l, hl⟩, hlinks⟩
    obtain ⟨l', hadd⟩ := (hstep hl).mpr hlinks
    refine ⟨l', ?_⟩
    rw [hl, ok_bind, Nat.zero_add]
    show (l.add ms.length m >>= fun l => l.walk (ms.length + 1) []) = .ok l'
    rw [hadd]
    rfl

/-- What a linked transcript begins with is linked. -/
theorem Linked.of_append {ms ms' : List Message} (h : Linked (ms ++ ms')) : Linked ms := by
  obtain ⟨ledger, hledger⟩ := h
  rw [Ledger.walk_append] at hledger
  obtain ⟨ledger', hledger', -⟩ := bind_eq_ok.mp hledger
  exact ⟨ledger', hledger'⟩

/-- Every result of a linked transcript is for one of its calls. -/
theorem Linked.results_subset {ms : List Message} (h : Linked ms) : resultsOf ms ⊆ callsOf ms := by
  induction ms using List.reverseRecOn with
  | nil => exact List.nil_subset _
  | append_singleton ms m ih =>
    obtain ⟨hms, hm⟩ := linked_snoc.mp h
    intro id hid
    rw [resultsOf_append, List.mem_append] at hid
    rw [callsOf_append]
    refine List.mem_append_left _ ?_
    rcases hid with hid | hid
    · exact ih hms hid
    · cases m with
      | tool t =>
        rw [List.mem_singleton.mp hid]
        exact hm.1
      | _ => cases hid

/-- Results for calls that have none yet. -/
theorem Linked.tools {ms : List Message} (h : Linked ms) : ∀ {ts : List ToolMessage},
    (ts.map ToolMessage.toolCallId).Nodup →
      (∀ t ∈ ts, t.toolCallId ∈ callsOf ms ∧ t.toolCallId ∉ resultsOf ms) →
      Linked (ms ++ ts.map .tool) := by
  intro ts
  induction ts using List.reverseRecOn with
  | nil =>
    intro _ _
    rw [List.map_nil, List.append_nil]
    exact h
  | append_singleton ts t ih =>
    intro hn hall
    rw [List.map_append, List.nodup_append] at hn
    obtain ⟨hn, -, hne⟩ := hn
    obtain ⟨hcall, hresult⟩ := hall t (List.mem_append_right ts List.mem_cons_self)
    rw [List.map_append, ← List.append_assoc]
    refine linked_snoc.mpr ⟨ih hn fun t' ht' => hall t' (List.mem_append_left _ ht'), ?_, ?_⟩
    · rw [callsOf_append]
      exact List.mem_append_left _ hcall
    · rw [resultsOf_append, resultsOf_tools, List.mem_append]
      rintro (hid | hid)
      · exact hresult hid
      · exact hne _ hid _ List.mem_cons_self rfl

/-- A whole tool round keeps a transcript linked when the identifiers of its calls are new. -/
theorem Linked.round {ms : List Message} {a : AssistantMessage} {ts : List ToolMessage}
    (h : Linked (ms ++ [.assistant a])) (hts : ts.map ToolMessage.toolCallId = a.callIds) :
    Linked (ms ++ [.assistant a] ++ ts.map .tool) := by
  obtain ⟨hms, hn, hnew⟩ := linked_snoc.mp h
  refine h.tools (hts ▸ hn) fun t ht => ?_
  have hid : t.toolCallId ∈ a.callIds := hts ▸ List.mem_map_of_mem ht
  rw [callsOf_append, resultsOf_append, callsOf_assistant]
  refine ⟨List.mem_append_right _ hid, ?_⟩
  rw [List.mem_append]
  rintro (hres | hres)
  · exact hnew _ hid (hms.results_subset hres)
  · cases hres

/-! ## What validation accepts -/

theorem checkNames_eq_ok {names : List ToolName} : ∀ {seen : List ToolName},
    checkNames seen names = .ok () ↔ names.Nodup ∧ ∀ name ∈ names, name ∉ seen := by
  induction names with
  | nil => simp [checkNames]
  | cons name names ih =>
    intro seen
    unfold checkNames
    by_cases h : name ∈ seen
    · simp [h]
    · rw [if_neg h, ih, List.nodup_cons]
      constructor
      · rintro ⟨hn, hnew⟩
        refine ⟨⟨fun hname => hnew name hname List.mem_cons_self, hn⟩, fun n hmem => ?_⟩
        rcases List.mem_cons.mp hmem with rfl | hmem
        · exact h
        · exact fun hs => hnew n hmem (List.mem_cons_of_mem name hs)
      · rintro ⟨⟨hname, hn⟩, hnew⟩
        refine ⟨hn, fun n hmem hs => ?_⟩
        rcases List.mem_cons.mp hs with rfl | hs
        · exact hname hmem
        · exact hnew n (List.mem_cons_of_mem name hmem) hs

/-- Declared tools with distinct names, left to the model or switched off, leave only the
transcript to check. -/
theorem validate_iff {r : ChatRequest} (hgeneration : r.generation = .new)
    (hnames : (r.tools.map ToolDefinition.name).Nodup)
    (hchoice : r.toolChoice = .auto ∨ r.toolChoice = .none) :
    r.validate = .ok () ↔ r.messages ≠ [] ∧ Linked r.messages := by
  have hcheck : checkNames [] (r.tools.map ToolDefinition.name) = .ok () :=
    checkNames_eq_ok.mpr ⟨hnames, fun _ _ => List.not_mem_nil⟩
  have hwalk : (do let _ ← Ledger.empty.walk 0 r.messages) = .ok () ↔ Linked r.messages := by
    unfold Linked
    cases Ledger.empty.walk 0 r.messages with
    | ok l => exact ⟨fun _ => ⟨l, rfl⟩, fun _ => rfl⟩
    | error e =>
      constructor
      · intro h
        cases h
      · rintro ⟨_, h⟩
        cases h
  unfold ChatRequest.validate
  rw [hgeneration]
  simp only [GenerationConfig.validate_new, hcheck, ok_bind]
  cases hm : r.messages with
  | nil =>
    constructor
    · intro h
      cases h
    · rintro ⟨h, -⟩
      exact absurd rfl h
  | cons m ms =>
    rw [hm] at hwalk
    rcases hchoice with hc | hc
    · simpa [hc] using hwalk
    · simpa [hc] using hwalk

end GroupAgent.Model
