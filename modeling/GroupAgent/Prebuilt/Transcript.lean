import GroupAgent.Prebuilt.Limits

/-!
# The transcripts of an agent

A request is rejected when two calls of its transcript have the same identifier
(`ChatRequest::validate`, `crates/group-agent-model/src/request.rs`). The agent checks the calls of
one response only (`state.rs:114-175` of `crates/group-agent-prebuilt/src`).

* `NewIds`: every response uses identifiers that the transcript before it does not.
* `Turn.linked`: a turn keeps a transcript linked when its response uses new identifiers.
* `lineage_linked`: what is committed keeps a transcript linked exactly as long as that holds.

Results: **`ToolCallingAgent.transcripts_sendable`**: the transcripts of a run, over any number of
calls, can be sent exactly as long as that holds. `Bench.transcript_rejected` is a run in which it
does not.

Premise: the transcript a run starts with is linked; the caller hands it in. What else a provider
may refuse is not looked at here.
-/

namespace GroupAgent.Prebuilt

open GroupAgent.Lib GroupAgent.Model GroupAgent.Core GroupAgent.Tool

/-- What an update adds to the transcript. -/
def AgentUpdate.messages : AgentUpdate → List Message
  | .modelCompleted message _ => [.assistant message]
  | .toolsCompleted messages _ => messages.map .tool

/-- The calls of a response have different identifiers, which the transcript does not use. -/
def AgentUpdate.UsesNew (messages : List Message) : AgentUpdate → Prop
  | .modelCompleted message _ =>
    message.callIds.Nodup ∧ ∀ id ∈ message.callIds, id ∉ callsOf messages
  | .toolsCompleted _ _ => True

/-- Every response uses new identifiers. -/
def NewIds : List Message → List AgentUpdate → Prop
  | _, [] => True
  | messages, update :: updates =>
    update.UsesNew messages ∧ NewIds (messages ++ update.messages) updates

theorem newIds_snoc {update : AgentUpdate} : ∀ {updates : List AgentUpdate} {messages : List Message},
    NewIds messages (updates ++ [update]) ↔ NewIds messages updates ∧
      update.UsesNew (messages ++ updates.flatMap AgentUpdate.messages)
  | [], messages => by
    rw [List.nil_append, List.flatMap_nil, List.append_nil]
    exact and_comm
  | u :: us, messages => by
    show _ ∧ NewIds _ (us ++ [update]) ↔ (_ ∧ NewIds _ us) ∧ _
    rw [newIds_snoc, List.flatMap_cons, List.append_assoc, and_assoc]

namespace ToolCallingAgent

variable {self : ToolCallingAgent} {p q : Position self.program}

/-- A turn adds the messages of its update. -/
theorem Turn.messages {update : AgentUpdate} (h : self.Turn p update q) :
    q.state.messages = p.state.messages ++ update.messages := by
  cases h with
  | model => rfl
  | tools => rfl

/-- **A turn keeps a transcript linked when its response uses new identifiers.** -/
theorem Turn.linked {update : AgentUpdate} (h : self.Turn p update q) :
    Linked q.state.messages ↔ Linked p.state.messages ∧ update.UsesNew p.state.messages := by
  rw [h.messages]
  cases h with
  | model => exact linked_snoc
  | @tools calls messages frontier pending settles =>
    obtain ⟨ms, a, hms, rfl⟩ := AgentState.pendingToolCalls_eq.mp pending.pending
    rw [hms]
    constructor
    · exact fun hlinked => ⟨hlinked.of_append, trivial⟩
    · exact fun hlinked => hlinked.1.round settles.answers

/-- **What is committed keeps a transcript linked as long as every response uses new identifiers.** -/
theorem lineage_linked {ds : List (Deed self.program)}
    (h : Lineage self.graph AgentState.Alike p ds q) :
    q.state.messages = p.state.messages ++ (updates ds).flatMap AgentUpdate.messages ∧
      (Linked q.state.messages ↔
        Linked p.state.messages ∧ NewIds p.state.messages (updates ds)) := by
  induction h with
  | refl => exact ⟨(List.append_nil _).symm, by simp [NewIds]⟩
  | @work q ds w _ _ ih =>
    have hupdates : updates (ds ++ [.worked w]) = updates ds := by
      rw [updates_append]
      exact List.append_nil _
    rw [hupdates]
    exact ih
  | @step q r ds update _ hstep ih =>
    obtain ⟨hmessages, hlinked⟩ := ih
    have hturn := step_cases hstep
    rw [updates_append, updates_committed]
    refine ⟨?_, ?_⟩
    · rw [hturn.messages, hmessages, List.flatMap_append, List.append_assoc]
      simp
    · rw [hturn.linked, hlinked, newIds_snoc, ← hmessages, and_assoc]
  | @reload q r ds _ hreload ih =>
    obtain ⟨snapshot, s, hsnapshot, hrestore, halike⟩ := hreload.state
    obtain rfl := Except.ok.inj hsnapshot
    obtain rfl := Except.ok.inj hrestore
    have hmessages : r.state.messages = q.state.messages :=
      (congrArg AgentSnapshot.messages halike).symm
    rw [hmessages]
    exact ih

/-- A fresh run is left with its initial messages and what was committed. -/
theorem leaves_fresh {initial : List Message} {H : Host self.program} {sink : Bool}
    {events : EventConfig} {runControl : RunControl} {checkpoints : Option CheckpointConfig}
    {m : ProgramMachine self.program H} {ds : List (Deed self.program)}
    (hleaves : (self.fresh initial sink events runControl checkpoints).Leaves self.graph m ds p) :
    ∃ r : Position self.program, r.state.messages = initial ∧
      Lineage self.graph AgentState.Alike r ds p := by
  obtain ⟨ls, hopens, hlineage⟩ :=
    hleaves.lineage self.compiled self.flat sound_fresh AgentState.Alike
  refine ⟨ls.position, ?_, hlineage⟩
  cases hopens with
  | invoke position =>
    rw [position]
    cases sink <;> rfl
  | load hread => exact hread.elim

/-- **The transcripts of an agent** can be sent as long as every response uses new identifiers,
wherever a run is left and however it is taken up again. -/
theorem transcripts_sendable (self : ToolCallingAgent) (initial : List Message)
    (hvalid : (self.modelNode.request initial).validate = .ok ()) {H : Host self.program}
    (sink : Bool) (events : EventConfig) (runControl : RunControl)
    (checkpoints : Option CheckpointConfig) (m : ProgramMachine self.program H)
    {ds ds' : List (Deed self.program)} {p q : Position self.program}
    (hleaves : (self.fresh initial sink events runControl checkpoints).Leaves self.graph m ds p)
    (hchain : Chain self.graph AgentState.Alike p ds' q) :
    (self.modelNode.request q.state.messages).validate = .ok () ↔
      NewIds initial (updates (ds ++ ds')) := by
  obtain ⟨hne, hlinked⟩ := (self.modelNode.validate_request initial).mp hvalid
  obtain ⟨r, hinitial, hlineage⟩ := leaves_fresh hleaves
  have hwhole := hlineage.trans (hchain.lineage self.compiled self.flat)
  obtain ⟨hmessages, hiff⟩ := lineage_linked hwhole
  rw [hinitial] at hmessages hiff
  rw [ModelNode.validate_request, hiff]
  constructor
  · exact fun h => h.2.2
  · intro h
    refine ⟨?_, hlinked, h⟩
    rw [hmessages]
    exact List.append_ne_nil_of_left_ne_nil hne _

end ToolCallingAgent

/-! ### A response that repeats an identifier -/

namespace Bench

def threeRounds : AgentConfig := ⟨3, false, by decide, by decide⟩

def hello : List Message := [.user ⟨[.text "hello"]⟩]

def invoking : ToolCallingAgent.AgentCall :=
  .invoke hello false quiet uncontrolled (some ⟨⟨"t"⟩, .everySuperstep, none, none⟩)

/-- Whether the call fails at a node, the tools it executed, and whether the transcript in store can
be sent. -/
def left {agent : ToolCallingAgent} {response : ChatResponse} {α : Type} :
    EStateM.Result Stop
      (ProgramMachine agent.program (Core.Bench.host agent.program (perform response))) α →
      Bool × List Nat × Option Bool
  | .ok _ m => (false, executed m, sendable m)
  | .error (.error (.nodeFailed _ _ _)) m => (true, executed m, sendable m)
  | .error _ m => (false, executed m, sendable m)
where
  executed (m : ProgramMachine agent.program (Core.Bench.host agent.program (perform response))) :
      List Nat :=
    (jobs m).filterMap fun w =>
      match w.job with
      | .tools calls => some calls.length
      | _ => none
  sendable (m : ProgramMachine agent.program (Core.Bench.host agent.program (perform response))) :
      Option Bool :=
    m.world.1.map fun checkpoint =>
      match (agent.modelNode.request checkpoint.snapshot.messages).validate with
      | .ok _ => true
      | .error _ => false

/-- The model calls the tool under the same identifier in every round. The second batch is executed
and committed, and the third round cannot be sent. -/
theorem transcript_rejected :
    ((agent threeRounds).modelNode.request hello).validate = .ok () ∧
      left (run (agent threeRounds) calling none invoking) = (true, [1, 1], some false) :=
  ⟨rfl, by decide +kernel⟩

/-! ### A conversation over two calls -/

/-- The response that calls the tool under another identifier. -/
def callingAgain : ChatResponse :=
  .new ⟨[], [⟨⟨"b", by decide +kernel⟩, echo.definition.name, .null, .empty⟩], .empty⟩ .toolCalls

/-- A model that calls the tool in two rounds, under an identifier of its own each time, and then
answers. -/
def converse : (job : AgentJob) → job.Reply
  | .model (.complete request) =>
    Except.ok (match request.messages.length with
      | 1 => calling
      | 3 => callingAgain
      | _ => answering)
  | job => perform answering job

/-- A machine on which it answers, with this checkpoint in store. -/
def conversing (stored : Option (Checkpoint AgentSnapshot AgentValue)) :
    ProgramMachine (agent threeRounds).program
      (Core.Bench.host (agent threeRounds).program converse) :=
  ⟨(stored, []), [], []⟩

/-- An invocation that saves every boundary. -/
abbrev opening : Call ((agent threeRounds).program.env (Core.Bench.host _ converse)) :=
  (agent threeRounds).fresh hello false quiet uncontrolled (some ⟨⟨"t"⟩, .everySuperstep, none, none⟩)

/-- A resume of the latest checkpoint. -/
abbrev again : Call ((agent threeRounds).program.env (Core.Bench.host _ converse)) :=
  (agent threeRounds).call resuming

/-- The length of a transcript, and whether it can be sent. -/
def sent (state : AgentState) : Nat × Bool :=
  (state.messages.length, match ((agent threeRounds).modelNode.request state.messages).validate with
    | .ok _ => true
    | .error _ => false)

/-- The invocation saves the boundary behind its first round, and a resume of it plays a second round
and ends with the answer. -/
theorem opening_saves : ∃ request ∈ requests (opening.logAfter (agent threeRounds).graph (conversing none)),
    request.completed = false ∧ request.threadId = ⟨"t"⟩ ∧ request.step = 2 ∧ request.superstep = 2 ∧
    request.snapshot.messages.length = 3 ∧
    (6, true) ∈ ((again.followed (agent threeRounds).graph
      (conversing (some request.intoCheckpoint)) 3).map fun p => sent p.1.state) := by
  decide +kernel

/-- A resumed call reads what is in store. -/
theorem reads_again {stored : Checkpoint AgentSnapshot AgentValue} (hthread : stored.threadId = ⟨"t"⟩) :
    again.Reads (conversing (some stored)) stored := by
  obtain ⟨id, threadId, runId, parentId, graphVersion, superstep, step, snapshot, nextFrontier,
    completed, interrupt⟩ := stored
  subst hthread
  exact ⟨_, _, rfl⟩

/-- Two calls, with a round of tools in each, leave a conversation that can be sent. -/
theorem conversation_sendable : ∃ (ds ds' : List (Deed (agent threeRounds).program))
    (p q : Position (agent threeRounds).program),
    opening.Leaves (agent threeRounds).graph (conversing none) ds p ∧
      Chain (agent threeRounds).graph AgentState.Alike p ds' q ∧
      ((updates ds).flatMap AgentUpdate.messages).length = 2 ∧
      ((updates ds').flatMap AgentUpdate.messages).length = 3 ∧
      NewIds hello (updates (ds ++ ds')) := by
  obtain ⟨request, hrequest, hopen, hthread, hstep, hsuper, hlength, hmem⟩ := opening_saves
  obtain ⟨branchId, answer, hsave⟩ := exists_save hrequest
  obtain ⟨ds, p, hleaves, hkept⟩ := (Call.Writes.of_empty rfl).kept (agent threeRounds).compiled
    (agent threeRounds).flat ToolCallingAgent.sound_fresh hsave hopen
  obtain ⟨r, hr, hsent⟩ := List.mem_map.mp hmem
  obtain ⟨ctx, hreach⟩ := Call.reaches_of_mem hr
  have hrange : request.intoCheckpoint.InRange :=
    ⟨hstep.trans_le (by decide), hsuper.trans_le (by decide)⟩
  have hrange' : ∀ checkpoint, again.Reads (conversing (some request.intoCheckpoint)) checkpoint →
      checkpoint.InRange := by
    intro checkpoint hread
    obtain rfl := hread.unique (reads_again hthread)
    exact hrange
  obtain ⟨ds', hpasses⟩ := hreach.passes (agent threeRounds).compiled (agent threeRounds).flat
    (sound_all hrange')
  have hstart : Chain (agent threeRounds).graph AgentState.Alike p [] p := .refl p
  have hchain : Chain (agent threeRounds).graph AgentState.Alike p ds' r.1.position :=
    hstart.call (reads_again hthread) hrange hkept
      (fun _ _ => ToolCallingAgent.alike_initializes) (.standing hpasses)
  have hsendable := (agent threeRounds).transcripts_sendable hello rfl _ _ _ _ _ hleaves hchain
  obtain ⟨hlength', hvalid⟩ := Prod.ext_iff.mp hsent
  obtain ⟨o, ho, hlineage⟩ := ToolCallingAgent.leaves_fresh hleaves
  have hfirst := (ToolCallingAgent.lineage_linked hlineage).1
  have hlater := (ToolCallingAgent.lineage_linked
    (hchain.lineage (agent threeRounds).compiled (agent threeRounds).flat)).1
  have hmessages : p.state.messages.length = 3 := by
    have hsnapshot := Except.ok.inj hkept.snapshot
    rw [← hlength]
    exact congrArg (fun s : AgentSnapshot => s.messages.length) hsnapshot
  refine ⟨ds, ds', p, r.1.position, hleaves, hchain, ?_, ?_, hsendable.mp ?_⟩
  · have hlen := congrArg List.length hfirst
    rw [ho, List.length_append, hmessages] at hlen
    exact (Nat.add_left_cancel (n := 1) hlen).symm
  · have hlen := congrArg List.length hlater
    rw [List.length_append, hmessages] at hlen
    exact (Nat.add_left_cancel (n := 3) (hlength'.symm.trans hlen)).symm
  · show ((agent threeRounds).modelNode.request r.1.state.messages).validate = .ok ()
    unfold sent at hvalid
    simp only at hvalid
    split at hvalid
    · assumption
    · cases hvalid

end Bench

end GroupAgent.Prebuilt
