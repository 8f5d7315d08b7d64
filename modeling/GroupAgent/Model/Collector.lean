import GroupAgent.Lib.Method
import GroupAgent.Model.Stream

/-!
# The stream collector, statement by statement

`ChatStreamCollector::push` (`stream.rs:322-340`, with `push_active` 342-390 and `push_tool_delta`
441-508 of `crates/group-agent-model/src`) changes the collector it is called on. `pushInPlace` is
that method with its assignments where the source has them, so that an error leaves what was
assigned before it.

* A method in place is an instance of `Lib.Method`: what it returns or raises, and the object it
  leaves. Assignments with nothing fallible between them are one `modify`.
* All checks of a fragment come before its call is entered into the map; the checks of other events
  come before the first assignment as well.
* `Protocol`: what a collector does next, by its state.
* `Settled`: a finished collector holds what its response needs.

Results:
* **`on_pushInPlace`**: the method agrees with `push`, so nothing is assigned before the last
  check.
* **`Settled.protocol`**: being settled is all the protocol rests on.

`Fragments` says what a collector holds in terms of the events it was given.
-/

namespace GroupAgent.Model

open GroupAgent.Lib GroupAgent.Lib.Method

/-- The event is the end of a stream. -/
def IsTerminal : ChatStreamEvent → Prop
  | .finished _ => True
  | _ => False

/-! ## In place -/

/-- A method that changes its collector, and may fail on the way. -/
abbrev InPlace (α : Type) : Type := Method ModelError ChatStreamCollector α

namespace ChatStreamCollector

/-- Change the data of the collector. -/
def assign (f : Collected → Collected) : InPlace Unit :=
  modify fun self => { self with data := f self.data }

/-- Change the pending call of an index, which is there. -/
def assignCall (index : Nat) (f : PendingToolCall → PendingToolCall) : InPlace Unit :=
  assign fun data =>
    { data with toolCalls := data.toolCalls.upsert index fun pending => f (pending.getD .default) }

def pushToolDeltaInPlace (delta : ToolCallDelta) : InPlace Unit := do
  let self ← get
  let existing := (self.data.toolCalls.get? delta.index).getD .default
  raise (checkToolDelta self.limits existing delta)
  -- `entry(index).or_default()`
  assignCall delta.index id
  if let some id := delta.id then assignCall delta.index fun pending => { pending with id := some id }
  if let some name := delta.name then
    assignCall delta.index fun pending => { pending with name := some name }
  assignCall delta.index fun pending =>
    { pending with arguments := pending.arguments ++ delta.argumentsFragment }
  assignCall delta.index fun pending =>
    { pending with extensions := pending.extensions.commitIdempotentMerge delta.extensions }

section Reading

variable (fromStr : String → Except String Json)

def pushActiveInPlace : ChatStreamEvent → InPlace Unit
  | .responseStarted responseId model extensions => do
    if (← get).data.responseStarted then throw (protocolError .duplicateResponseStarted)
    assign fun data => { data with responseStarted := true }
    assign fun data => { data with responseId }
    assign fun data => { data with model }
    assign fun data => { data with extensions }
  | .textDelta delta => do
    let self ← get
    if self.limits.maxTextBytes < self.data.text.utf8ByteSize + delta.utf8ByteSize then
      throw (protocolError (.textLimitExceeded self.limits.maxTextBytes))
    assign fun data => { data with text := data.text ++ delta }
  | .toolCallDelta delta => pushToolDeltaInPlace delta
  | .usage usage => do
    match (← get).data.usage with
    | some existing =>
      let merged ← raise ((existing.mergeSnapshot usage).mapError fun source =>
        protocolError (.invalidUsage source))
      assign fun data => { data with usage := some merged }
    | none => assign fun data => { data with usage := some usage }
  | .finished reason => do
    raise (validateFinished fromStr (← get).data)
    assign fun data => { data with finishReason := some reason }
    modify fun self => { self with state := .finished }

/-- Apply one event in place. -/
def pushInPlace (event : ChatStreamEvent) : InPlace Unit := do
  match (← get).state with
  | .failed => throw (protocolError .collectorAlreadyFailed)
  | .finished => throw (protocolError (.eventAfterFinished (eventName event)))
  | .active =>
    tryCatch (pushActiveInPlace fromStr event) fun error => do
      modify fun self => { self with state := .failed }
      throw error

end Reading

/-! ## It agrees with the atomic form -/

/-- The collector with the pending call of an index changed. -/
def mapCall (self : ChatStreamCollector) (index : Nat)
    (g : Option PendingToolCall → PendingToolCall) : ChatStreamCollector :=
  { self with data :=
    { self.data with toolCalls := self.data.toolCalls.upsert index g } }

theorem mapCall_mapCall (self : ChatStreamCollector) (index : Nat)
    (g g' : Option PendingToolCall → PendingToolCall) :
    (self.mapCall index g).mapCall index g' = self.mapCall index fun old => g' (some (g old)) := by
  unfold mapCall
  rw [SortedMap.upsert_upsert]

theorem mapCall_eq (self : ChatStreamCollector) (index : Nat)
    (g : Option PendingToolCall → PendingToolCall) :
    self.mapCall index g = self.mapCall index fun _ => g (self.data.toolCalls.get? index) := by
  unfold mapCall
  rw [SortedMap.upsert_eq]

section Running

variable {α : Type} {self : ChatStreamCollector}

theorem on_assignCall (index : Nat) (g : PendingToolCall → PendingToolCall) :
    on (assignCall index g) self = (.ok (), self.mapCall index fun old => g (old.getD .default)) :=
  rfl

theorem on_assignCall_bind (index : Nat) (g : PendingToolCall → PendingToolCall) (x : InPlace α) :
    on (assignCall index g >>= fun _ => x) self =
      on x (self.mapCall index fun old => g (old.getD .default)) := rfl

/-- The commits of a tool fragment come down to one. -/
theorem on_pushToolDeltaInPlace (delta : ToolCallDelta) :
    on (pushToolDeltaInPlace delta) self =
      match pushToolDelta self.limits self.data delta with
      | .ok data => (.ok (), { self with data })
      | .error error => (.error error, self) := by
  unfold pushToolDeltaInPlace
  rw [on_get_bind, on_raise_bind]
  cases hcheck : checkToolDelta self.limits ((self.data.toolCalls.get? delta.index).getD .default)
      delta with
  | error error =>
    have hpush : pushToolDelta self.limits self.data delta = .error error := by
      unfold pushToolDelta
      simp only [hcheck]
      rfl
    rw [hpush]
  | ok u =>
    have hpush : pushToolDelta self.limits self.data delta = .ok (self.mapCall delta.index fun _ =>
        PendingToolCall.extend ((self.data.toolCalls.get? delta.index).getD .default) delta).data := by
      unfold pushToolDelta
      simp only [hcheck]
      rfl
    rw [hpush]
    unfold PendingToolCall.extend
    -- what is assigned depends on the fields the fragment has
    cases hid : delta.id <;> cases hname : delta.name
    all_goals
      simp only [on_assignCall_bind, on_assignCall, mapCall_mapCall]
      rw [mapCall_eq]
      rfl

/-- The body of a push agrees with its atomic form. -/
theorem on_pushActiveInPlace (fromStr : String → Except String Json) (event : ChatStreamEvent)
    (hs : self.state = .active) : on (pushActiveInPlace fromStr event) self =
      match pushActive fromStr self.limits self.data event with
      | .ok (state, data) => (.ok (), { self with state, data })
      | .error error => (.error error, self) := by
  obtain ⟨state, data, limits⟩ := self
  obtain rfl : state = .active := hs
  cases event with
  | responseStarted responseId model extensions =>
    unfold pushActiveInPlace
    rw [on_get_bind]
    cases hd : data.responseStarted with
    | true => simp [hd, pushActive]
    | false => simp [hd, pushActive]; rfl
  | textDelta delta =>
    unfold pushActiveInPlace pushActive pushText
    rw [on_get_bind]
    by_cases h : limits.maxTextBytes < data.text.utf8ByteSize + delta.utf8ByteSize
    · simp only [h, if_true]
      rfl
    · simp only [h, if_false]
      rfl
  | toolCallDelta delta =>
    show on (pushToolDeltaInPlace delta) _ = _
    rw [on_pushToolDeltaInPlace]
    show _ = match Prod.mk CollectorState.active <$> pushToolDelta limits data delta with
      | .ok (state, data) => (Except.ok (), (⟨state, data, limits⟩ : ChatStreamCollector))
      | .error error => (.error error, ⟨.active, data, limits⟩)
    simp only
    cases pushToolDelta limits data delta with
    | ok data' => rfl
    | error error => rfl
  | usage usage =>
    unfold pushActiveInPlace pushActive
    rw [on_get_bind]
    cases hu : data.usage with
    | none =>
      simp only
      rfl
    | some existing =>
      simp only
      cases hm : existing.mergeSnapshot usage with
      | ok merged => rfl
      | error source => rfl
  | finished reason =>
    unfold pushActiveInPlace pushActive
    rw [on_get_bind]
    rw [on_raise_bind]
    cases hv : validateFinished fromStr data with
    | ok u => rfl
    | error error => rfl

/-- **A push in place agrees with the atomic form**: nothing is assigned before the last check. -/
theorem on_pushInPlace (fromStr : String → Except String Json) (event : ChatStreamEvent)
    (self : ChatStreamCollector) :
    on (pushInPlace fromStr event) self = self.push fromStr event := by
  unfold pushInPlace push
  rw [on_get_bind]
  cases hs : self.state with
  | failed => rfl
  | finished => rfl
  | active =>
    simp only
    have hbody := on_pushActiveInPlace fromStr event hs
    cases hp : pushActive fromStr self.limits self.data event with
    | ok next =>
      rw [hp] at hbody
      rw [on_tryCatch, hbody]
    | error error =>
      rw [hp] at hbody
      rw [on_tryCatch, hbody]
      rfl

end Running

/-! ## What is accepted -/

section Accepting

variable {fromStr : String → Except String Json} {limits : CollectorLimits} {data : Collected}
  {next : CollectorState × Collected}

theorem started_eq_ok {responseId : Option ResponseId} {model : Option ModelId}
    {extensions : Extensions} :
    pushActive fromStr limits data (.responseStarted responseId model extensions) = .ok next ↔
      data.responseStarted = false ∧
        next = (.active, { data with responseStarted := true, responseId, model, extensions }) := by
  show (if data.responseStarted then _ else _) = _ ↔ _
  cases data.responseStarted with
  | true => exact ⟨fun h => (by cases h), fun h => absurd h.1 (by decide)⟩
  | false => exact ⟨fun h => ⟨rfl, (Except.ok.inj h).symm⟩, fun h => congrArg Except.ok h.2.symm⟩

theorem text_eq_ok {delta : String} : pushActive fromStr limits data (.textDelta delta) = .ok next ↔
    data.text.utf8ByteSize + delta.utf8ByteSize ≤ limits.maxTextBytes ∧
      next = (.active, { data with text := data.text ++ delta }) := by
  show Prod.mk CollectorState.active <$> pushText limits data delta = _ ↔ _
  unfold pushText
  by_cases h : limits.maxTextBytes < data.text.utf8ByteSize + delta.utf8ByteSize
  · rw [if_pos h]
    exact ⟨fun h => (by cases h), fun h' => absurd h'.1 (not_le.mpr h)⟩
  · rw [if_neg h]
    exact ⟨fun h' => ⟨not_lt.mp h, (Except.ok.inj h').symm⟩, fun h => congrArg Except.ok h.2.symm⟩

theorem tool_eq_ok {delta : ToolCallDelta} :
    pushActive fromStr limits data (.toolCallDelta delta) = .ok next ↔
      checkToolDelta limits ((data.toolCalls.get? delta.index).getD .default) delta = .ok () ∧
        next = (.active, { data with toolCalls := data.toolCalls.upsert delta.index fun _ =>
          ((data.toolCalls.get? delta.index).getD .default).extend delta }) := by
  show Prod.mk CollectorState.active <$> pushToolDelta limits data delta = _ ↔ _
  unfold pushToolDelta
  constructor
  · intro h
    obtain ⟨_, hpush, rfl⟩ := map_eq_ok.mp h
    obtain ⟨_, hcheck, rfl⟩ := map_eq_ok.mp hpush
    exact ⟨hcheck, rfl⟩
  · rintro ⟨h, rfl⟩
    simp only
    rw [h]
    rfl

/-- Usage is merged with the usage so far. -/
def mergeUsage (existing : Option TokenUsage) (usage : TokenUsage) : Except TokenUsageError TokenUsage :=
  match existing with
  | some existing => existing.mergeSnapshot usage
  | none => .ok usage

theorem usage_eq_ok {usage : TokenUsage} :
    pushActive fromStr limits data (.usage usage) = .ok next ↔
      ∃ merged, mergeUsage data.usage usage = .ok merged ∧
        next = (.active, { data with usage := some merged }) := by
  unfold pushActive mergeUsage
  simp only
  cases data.usage with
  | none =>
    constructor
    · intro h
      exact ⟨usage, rfl, (Except.ok.inj h).symm⟩
    · rintro ⟨merged, h, rfl⟩
      cases h
      rfl
  | some existing =>
    simp only
    cases existing.mergeSnapshot usage with
    | ok merged =>
      constructor
      · intro h
        exact ⟨merged, rfl, (Except.ok.inj h).symm⟩
      · rintro ⟨_, h, rfl⟩
        cases h
        rfl
    | error source =>
      constructor
      · intro h
        cases h
      · rintro ⟨_, h, -⟩
        cases h

theorem finished_eq_ok {reason : FinishReason} :
    pushActive fromStr limits data (.finished reason) = .ok next ↔
      validateFinished fromStr data = .ok () ∧
        next = (.finished, { data with finishReason := some reason }) := by
  constructor
  · intro h
    obtain ⟨_, hvalid, h⟩ := bind_eq_ok.mp h
    exact ⟨hvalid, (Except.ok.inj h).symm⟩
  · rintro ⟨hvalid, rfl⟩
    exact bind_eq_ok.mpr ⟨(), hvalid, rfl⟩

/-- Only text adds to the text. -/
theorem pushActive_text {event : ChatStreamEvent} (h : pushActive fromStr limits data event = .ok next)
    (hevent : ∀ text, event ≠ .textDelta text) : next.2.text = data.text := by
  cases event with
  | responseStarted responseId model extensions => rw [(started_eq_ok.mp h).2]
  | textDelta text => exact absurd rfl (hevent text)
  | toolCallDelta delta => rw [(tool_eq_ok.mp h).2]
  | usage usage =>
    obtain ⟨_, -, rfl⟩ := usage_eq_ok.mp h
    rfl
  | finished reason => rw [(finished_eq_ok.mp h).2]

end Accepting

/-! ## Sequences of events -/

section Sequences

variable (fromStr : String → Except String Json)

/-- Push events one after the other, whatever becomes of each. -/
def pushAll : ChatStreamCollector → List ChatStreamEvent →
    List (Except ModelError Unit) × ChatStreamCollector
  | self, [] => ([], self)
  | self, event :: events =>
    let pushed := on (pushInPlace fromStr event) self
    let rest := pushAll pushed.2 events
    (pushed.1 :: rest.1, rest.2)

/-- A new collector with limits of its own. -/
def withLimits (limits : CollectorLimits) : ChatStreamCollector := { new with limits }

/-- The response carries the data: a call for each pending index, in order. -/
structure Carries (data : Collected) (response : ChatResponse) : Prop where
  calls : List.Forall₂ (fun entry call => entry.2.id = some call.id ∧ entry.2.name = some call.name ∧
    fromStr entry.2.arguments = .ok call.arguments ∧ entry.2.extensions = call.extensions)
    data.toolCalls.entries response.message.toolCalls
  content : response.message.content = if data.text = "" then [] else [.text data.text]
  message : response.message.extensions = .empty
  reason : data.finishReason = some response.finishReason
  usage : response.usage = data.usage
  responseId : response.responseId = data.responseId
  model : response.model = data.model
  extensions : response.extensions = data.extensions

/-- Every pending call has an identifier, a name and arguments that can be read. -/
def Complete (data : Collected) : Prop :=
  ∀ entry ∈ data.toolCalls.entries, ∃ id name arguments, entry.2.id = some id ∧
    entry.2.name = some name ∧ fromStr entry.2.arguments = .ok arguments

/-- A finished collector holds what its response needs. -/
def Settled (self : ChatStreamCollector) : Prop :=
  self.state = .finished → Complete fromStr self.data ∧ ∃ reason, self.data.finishReason = some reason

variable {fromStr}

theorem completeCall_eq_ok {entry : Nat × PendingToolCall} {call : ToolCall} :
    completeCall fromStr entry = .ok call ↔ entry.2.id = some call.id ∧
      entry.2.name = some call.name ∧ fromStr entry.2.arguments = .ok call.arguments ∧
      entry.2.extensions = call.extensions := by
  obtain ⟨index, id, name, arguments, extensions⟩ := entry
  obtain ⟨cid, cname, carguments, cextensions⟩ := call
  unfold completeCall
  cases id with
  | none => simp
  | some id =>
    cases name with
    | none => simp
    | some name =>
      simp only [Option.some.injEq]
      constructor
      · intro h
        obtain ⟨args, hargs, h⟩ := bind_eq_ok.mp h
        cases h
        exact ⟨rfl, rfl, mapError_eq_ok.mp hargs, rfl⟩
      · rintro ⟨rfl, rfl, hargs, rfl⟩
        rw [hargs]
        rfl

/-- The check at the end is that every call is complete. -/
theorem validateFinished_eq_ok {data : Collected} :
    validateFinished fromStr data = .ok () ↔ Complete fromStr data := by
  unfold validateFinished Complete
  rw [forM_eq_ok]
  refine forall_congr' fun entry => forall_congr' fun _ => ?_
  constructor
  · intro h
    obtain ⟨call, hcall, -⟩ := bind_eq_ok.mp h
    obtain ⟨hid, hname, harguments, -⟩ := completeCall_eq_ok.mp hcall
    exact ⟨_, _, _, hid, hname, harguments⟩
  · rintro ⟨id, name, arguments, hid, hname, harguments⟩
    have hcall : completeCall fromStr entry = .ok ⟨id, name, arguments, entry.2.extensions⟩ :=
      completeCall_eq_ok.mpr ⟨hid, hname, harguments, rfl⟩
    rw [hcall]
    rfl

/-- A complete collection has a response, which carries it. -/
theorem finish_carries {self : ChatStreamCollector} (hs : self.state = .finished)
    (hcomplete : Complete fromStr self.data) {reason : FinishReason}
    (hreason : self.data.finishReason = some reason) :
    ∃ response, self.finish fromStr = .ok response ∧ Carries fromStr self.data response := by
  have hcalls : ∃ calls, self.data.toolCalls.entries.mapM (completeCall fromStr) = .ok calls := by
    refine mapM_ok_of_forall fun entry hentry => ?_
    obtain ⟨id, name, arguments, hid, hname, harguments⟩ := hcomplete entry hentry
    exact ⟨⟨id, name, arguments, entry.2.extensions⟩,
      completeCall_eq_ok.mpr ⟨hid, hname, harguments, rfl⟩⟩
  obtain ⟨calls, hcalls⟩ := hcalls
  unfold finish
  rw [hs]
  simp only [hreason, hcalls, ok_bind, pure_eq_ok]
  refine ⟨_, rfl, ?_, rfl, rfl, hreason, rfl, rfl, rfl, rfl⟩
  exact (mapM_eq_ok.mp hcalls).imp fun _ _ h => completeCall_eq_ok.mp h

theorem pushAll_append (self : ChatStreamCollector) (es es' : List ChatStreamEvent) :
    (pushAll fromStr self (es ++ es')).2 = (pushAll fromStr (pushAll fromStr self es).2 es').2 := by
  induction es generalizing self with
  | nil => rfl
  | cons event es ih => exact ih _

/-- A collector that rejects every event as it is stays as it is. -/
theorem pushAll_stuck {self : ChatStreamCollector} {f : ChatStreamEvent → ModelError}
    (h : ∀ event, self.push fromStr event = (.error (f event), self)) (es : List ChatStreamEvent) :
    pushAll fromStr self es = (es.map fun event => .error (f event), self) := by
  induction es with
  | nil => rfl
  | cons event es ih =>
    unfold pushAll
    rw [on_pushInPlace, h]
    simp only
    rw [ih]
    rfl

theorem pushAll_failed {self : ChatStreamCollector} (hs : self.state = .failed)
    (es : List ChatStreamEvent) : pushAll fromStr self es =
      (es.map fun _ => .error (protocolError .collectorAlreadyFailed), self) := by
  refine pushAll_stuck (fun event => ?_) es
  unfold push
  rw [hs]

theorem pushAll_finished {self : ChatStreamCollector} (hs : self.state = .finished)
    (es : List ChatStreamEvent) : pushAll fromStr self es =
      (es.map fun event => .error (protocolError (.eventAfterFinished (eventName event))), self) := by
  refine pushAll_stuck (fun event => ?_) es
  unfold push
  rw [hs]

/-- What a collector does next, by its state. -/
structure Protocol (fromStr : String → Except String Json) (self : ChatStreamCollector) : Prop where
  rejected : self.state = .active → ∀ event error self',
    on (pushInPlace fromStr event) self = (.error error, self') →
      self' = { self with state := .failed }
  failed : self.state = .failed → (∀ es, pushAll fromStr self es =
      (es.map fun _ => .error (protocolError .collectorAlreadyFailed), self)) ∧
    self.finish fromStr = .error (protocolError .collectorAlreadyFailed)
  accepted : self.state = .active → ∀ reason self',
    on (pushInPlace fromStr (.finished reason)) self = (.ok (), self') ↔
      Complete fromStr self.data ∧ self' = { self with
        state := .finished, data := { self.data with finishReason := some reason } }
  finished : self.state = .finished →
    (∀ es, pushAll fromStr self es =
      (es.map fun event => .error (protocolError (.eventAfterFinished (eventName event))), self)) ∧
    ∃ response, self.finish fromStr = .ok response ∧ Carries fromStr self.data response
  active : self.state = .active → self.finish fromStr = .error (protocolError .missingFinished)

/-- A settled collector follows the protocol. -/
theorem Settled.protocol {self : ChatStreamCollector} (hsettled : Settled fromStr self) :
    Protocol fromStr self := by
  refine ⟨fun hs event error self' h => ?_, fun hs => ⟨pushAll_failed hs, ?_⟩,
    fun hs reason self' => ?_, fun hs => ⟨pushAll_finished hs, ?_⟩, fun hs => ?_⟩
  · rw [on_pushInPlace] at h
    unfold push at h
    rw [hs] at h
    simp only at h
    split at h
    · cases h
    · cases h
      rfl
  · unfold finish
    rw [hs]
    rfl
  · rw [on_pushInPlace]
    unfold push
    rw [hs, ← validateFinished_eq_ok]
    simp only [pushActive]
    cases hv : validateFinished fromStr self.data with
    | error error =>
      constructor
      · intro h
        cases h
      · rintro ⟨h, -⟩
        cases h
    | ok u =>
      constructor
      · intro h
        exact ⟨rfl, (congrArg Prod.snd h).symm⟩
      · rintro ⟨-, rfl⟩
        rfl
  · obtain ⟨hcomplete, reason, hreason⟩ := hsettled hs
    exact finish_carries hs hcomplete hreason
  · unfold finish
    rw [hs]
    rfl

end Sequences

end ChatStreamCollector

end GroupAgent.Model
