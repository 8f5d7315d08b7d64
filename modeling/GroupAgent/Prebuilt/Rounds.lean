import GroupAgent.Prebuilt.Turns

/-!
# The rounds of an agent

A fresh run of an agent plays rounds: a response of the model (`agent_nodes.rs:22-103`), and the
results of its calls (137-208), as the state commits them (`state.rs:114-175`).

* `Round`, `Records`: a transcript as the rounds after its first messages, with the state's
  counters.
* `Stage`: what has been played by the frontier of a run, with the node executions it took.
* `Plays.turn`: a turn of the agent plays on.
* `Shortfall`: what a run may stop for beside its rounds: a node that fails, its controls and
  counters, the store, or the want of one for an approval.

Results: **`ToolCallingAgent.agent_loop`**: wherever a fresh run stands its state records the
rounds of a stage, and it ends with an answer, at the round limit, suspended, or with a
`Shortfall`.

A resumed run is not fresh: it plays on from what its checkpoint holds. `Transcript`, `Limits` and
`Outcome` are about those.
-/

namespace GroupAgent.Prebuilt

open GroupAgent.Lib GroupAgent.Model GroupAgent.Core

/-- A response, and the results of its calls if they were committed. -/
structure Round where
  message : AssistantMessage
  usage : Option TokenUsage
  results : List ToolMessage

namespace Round

def messages (r : Round) : List Message := .assistant r.message :: r.results.map .tool

/-- The calls were executed: each is answered by one result, in the order of the calls. -/
structure Executed (r : Round) : Prop where
  ne_nil : r.message.toolCalls ≠ []
  ids : r.results.map ToolMessage.toolCallId = r.message.toolCalls.map ToolCall.id
  unique : (r.message.toolCalls.map ToolCall.id).Nodup

/-- A response without calls. -/
structure Final (r : Round) : Prop where
  calls : r.message.toolCalls = []
  results : r.results = []

end Round

/-- The state is that of a conversation that began with these messages and played these rounds. -/
structure Records (initial : List Message) (rounds : List Round) (s : AgentState) : Prop where
  messages : s.messages = initial ++ rounds.flatMap Round.messages
  count : s.modelRounds = rounds.length
  usage : s.usageByRound = rounds.map Round.usage

/-- What has been played by a frontier, with the stop reason and the node executions. -/
inductive Stage (maxRounds : Nat) :
    List Round → Option AgentStopReason → List Nat → Nat → Prop where
  | model {rounds : List Round} (limit : rounds.length < maxRounds)
      (executed : ∀ r ∈ rounds, r.Executed) : Stage maxRounds rounds none [0] (rounds.length * 2)
  | tools {rounds : List Round} {r : Round} (limit : rounds.length < maxRounds)
      (executed : ∀ r ∈ rounds, r.Executed) (calls : r.message.toolCalls ≠ []) (results : r.results = []) :
      Stage maxRounds (rounds ++ [r]) none [1] (rounds.length * 2 + 1)
  | answered {rounds : List Round} {r : Round} (limit : rounds.length < maxRounds)
      (executed : ∀ r ∈ rounds, r.Executed) (final : r.Final) :
      Stage maxRounds (rounds ++ [r]) (some .finalAnswer) [] (rounds.length * 2 + 1)
  | limit {rounds : List Round} (limit : rounds.length = maxRounds)
      (executed : ∀ r ∈ rounds, r.Executed) :
      Stage maxRounds rounds (some .maxRounds) [] (rounds.length * 2)

namespace Stage

variable {maxRounds : Nat} {rounds : List Round} {stop : Option AgentStopReason}
  {frontier : List Nat} {steps : Nat}

theorem length_le (h : Stage maxRounds rounds stop frontier steps) : rounds.length ≤ maxRounds := by
  cases h with
  | model limit executed => exact limit.le
  | tools limit executed calls results =>
    rw [List.length_append]
    exact limit
  | answered limit executed final =>
    rw [List.length_append]
    exact limit
  | limit limit executed => exact limit.le

/-- What is left to execute fits the step limit, two nodes a round. -/
theorem budget (h : Stage maxRounds rounds stop frontier steps) :
    steps + frontier.length ≤ maxRounds * 2 := by
  cases h with
  | model limit executed =>
    rw [List.length_singleton]
    omega
  | tools limit executed calls results =>
    rw [List.length_singleton]
    omega
  | answered limit executed final =>
    rw [List.length_nil]
    omega
  | limit limit executed => rw [List.length_nil, limit, Nat.add_zero]

/-- Nothing is left to execute after an answer, or at the limit. -/
theorem ended (h : Stage maxRounds rounds stop [] steps) :
    (stop = some .finalAnswer ∧ ∃ before r, rounds = before ++ [r] ∧ r.Final ∧
      ∀ r ∈ before, r.Executed) ∨
    (stop = some .maxRounds ∧ rounds.length = maxRounds ∧ ∀ r ∈ rounds, r.Executed) := by
  cases h with
  | answered limit executed final => exact .inl ⟨rfl, _, _, rfl, final, executed⟩
  | limit limit executed => exact .inr ⟨rfl, limit, executed⟩

theorem length_frontier (h : Stage maxRounds rounds stop frontier steps) : frontier.length ≤ 1 := by
  cases h <;> simp

/-- The model is only to be asked below the limit. -/
theorem at_model (h : Stage maxRounds rounds stop frontier steps) (hmem : 0 ∈ frontier) :
    stop = none ∧ rounds.length < maxRounds := by
  cases h with
  | model limit executed => exact ⟨rfl, limit⟩
  | tools => simp at hmem
  | answered => cases hmem
  | limit => cases hmem

/-- Calls are only to be executed when the last round waits for them. -/
theorem at_tools (h : Stage maxRounds rounds stop frontier steps) (hmem : 1 ∈ frontier) :
    stop = none ∧ ∃ before r, rounds = before ++ [r] ∧ before.length < maxRounds ∧
      (∀ r ∈ before, r.Executed) ∧ r.message.toolCalls ≠ [] ∧ r.results = [] := by
  cases h with
  | model => simp at hmem
  | tools limit executed calls results => exact ⟨rfl, _, _, rfl, limit, executed, calls, results⟩
  | answered => cases hmem
  | limit => cases hmem

end Stage

namespace Records

variable {initial : List Message} {rounds : List Round} {s : AgentState}

theorem new (messages : List Message) : Records messages [] (.new messages) where
  messages := (List.append_nil messages).symm
  count := rfl
  usage := rfl

theorem setSink (h : Records initial rounds s) (sink : AgentEventSink) :
    Records initial rounds (s.setSink sink) := ⟨h.messages, h.count, h.usage⟩

theorem addRound (h : Records initial rounds s) (message : AssistantMessage)
    (usage : Option TokenUsage) :
    Records initial (rounds ++ [⟨message, usage, []⟩]) (s.addRound message usage) where
  messages := by
    show s.messages ++ [.assistant message] = _
    rw [h.messages, List.flatMap_append, List.append_assoc]
    rfl
  count := by
    show s.modelRounds + 1 = _
    rw [h.count, List.length_append]
    rfl
  usage := by
    show s.usageByRound ++ [usage] = _
    rw [h.usage, List.map_append]
    rfl

/-- The results go to the last round. -/
theorem addResults {r : Round} (h : Records initial (rounds ++ [r]) s) (hr : r.results = [])
    (messages : List ToolMessage) (reached : Bool) :
    Records initial (rounds ++ [{ r with results := messages }]) (s.addResults messages reached) where
  messages := by
    show s.messages ++ messages.map Message.tool = _
    rw [h.messages, List.flatMap_append, List.flatMap_append, List.append_assoc, List.append_assoc]
    simp [Round.messages, hr]
  count := by
    show s.modelRounds = _
    rw [h.count, List.length_append, List.length_append]
    rfl
  usage := by
    show s.usageByRound = _
    rw [h.usage, List.map_append, List.map_append]
    rfl

/-- The pending calls are those of the last round. -/
theorem pending {r : Round} (h : Records initial (rounds ++ [r]) s) (hr : r.results = []) :
    s.pendingToolCalls = some r.message.toolCalls := by
  refine AgentState.pendingToolCalls_eq.mpr ⟨initial ++ rounds.flatMap Round.messages, r.message, ?_, rfl⟩
  rw [h.messages, List.flatMap_append, ← List.append_assoc]
  simp [Round.messages, hr]

end Records

namespace ToolCallingAgent

variable {self : ToolCallingAgent} {initial : List Message}

/-- A position of a fresh run, after some node executions. -/
structure Plays (self : ToolCallingAgent) (initial : List Message) (p : Position self.program)
    (steps : Nat) : Prop where
  fresh : p.resume = none
  stage : ∃ rounds, Records initial rounds p.state ∧
    Stage self.config.maxRounds rounds p.state.stopReason p.frontier steps

variable {p q : Position self.program} {steps : Nat}

/-- What the tools were answered with in a fresh run was executed. -/
theorem Settles.unique {calls : List ToolCall} {messages : List ToolMessage}
    (h : self.Settles p calls messages) (hfresh : p.resume = none) :
    (calls.map ToolCall.id).Nodup := by
  cases h with
  | executed approved unique ids => exact unique
  | rejected approval decision =>
    rw [Position.offered_none hfresh] at decision
    cases decision

/-- **A turn plays on.** -/
theorem Plays.turn {update : AgentUpdate} (h : self.Plays initial p steps)
    (hturn : self.Turn p update q) : self.Plays initial q (steps + 1) := by
  obtain ⟨hfresh, rounds, hrecords, hstage⟩ := h
  cases hturn with
  | @model message usage frontier answers running aligned =>
    rw [frontier, running] at hstage
    cases hstage with
    | model limit executed =>
      refine ⟨rfl, _, hrecords.addRound message usage, ?_⟩
      show Stage _ _ (if message.toolCalls.isEmpty then some .finalAnswer else none) _ _
      by_cases hcalls : message.toolCalls.isEmpty = true
      · rw [if_pos hcalls, if_pos hcalls]
        exact .answered limit executed ⟨List.isEmpty_iff.mp hcalls, rfl⟩
      · rw [if_neg hcalls, if_neg hcalls]
        exact .tools limit executed (fun h => hcalls (List.isEmpty_iff.mpr h)) rfl
  | @tools calls messages frontier pending settles running rounds' aligned =>
    rw [frontier, running] at hstage
    cases hstage with
    | @tools before r limit executed hcalls hresults =>
      obtain rfl : r.message.toolCalls = calls :=
        Option.some.inj ((hrecords.pending hresults).symm.trans pending.pending)
      refine ⟨rfl, _, hrecords.addResults hresults messages _, ?_⟩
      have hall : ∀ r' ∈ before ++ [{ r with results := messages }], r'.Executed := by
        intro r' hr'
        rcases List.mem_append.mp hr' with hr' | hr'
        · exact executed r' hr'
        · obtain rfl := List.mem_singleton.mp hr'
          exact ⟨hcalls, settles.answers, settles.unique hfresh⟩
      have hlength : p.state.modelRounds = (before ++ [{ r with results := messages }]).length := by
        rw [hrecords.count, List.length_append, List.length_append]
        rfl
      have hsteps : before.length * 2 + 1 + 1 =
          (before ++ [{ r with results := messages }]).length * 2 := by
        rw [List.length_append, List.length_singleton]
        omega
      show Stage _ _ (if (p.state.modelRounds == self.config.maxRounds) = true then
        some .maxRounds else p.state.stopReason) _ _
      rw [running, hsteps]
      by_cases hmax : p.state.modelRounds = self.config.maxRounds
      · rw [if_pos (beq_iff_eq.mpr hmax), if_pos hmax]
        exact .limit (hlength ▸ hmax) hall
      · rw [if_neg (fun h => hmax (beq_iff_eq.mp h)), if_neg hmax]
        have hle := pending.rounds
        exact .model (hlength ▸ Nat.lt_of_le_of_ne hle hmax) hall

/-! ## Fresh runs -/

variable {H : Host self.program} {sink : Bool} {events : EventConfig} {runControl : RunControl}
  {checkpoints : Option CheckpointConfig} {m : ProgramMachine self.program H}

/-- The call of a fresh run. -/
def fresh (self : ToolCallingAgent) {H : Host self.program} (messages : List Message) (sink : Bool)
    (events : EventConfig) (runControl : RunControl) (checkpoints : Option CheckpointConfig) :
    Call (self.program.env H) := self.call (.invoke messages sink events runControl checkpoints)

theorem sound_fresh : Sound self.graph .all
    (self.fresh (H := H) initial sink events runControl checkpoints) m :=
  sound_all fun _ hread => hread.elim

theorem plays_opening {ls : LoopState (self.program.env H) Nat}
    (h : (self.fresh initial sink events runControl checkpoints).Opens self.graph m ls) :
    self.Plays initial ls.position 0 ∧ ls.steps = 0 ∧ ls.superstep = 0 := by
  cases h with
  | invoke position steps superstep =>
    rw [position]
    have hlimit : 0 < self.config.maxRounds := Nat.pos_of_ne_zero self.config.pos
    refine ⟨⟨rfl, [], ?_, ?_⟩, steps, superstep⟩
    · cases sink with
      | false => exact Records.new initial
      | true => exact (Records.new initial).setSink _
    · have hstop : (withSink sink (.new initial)).stopReason = none := by
        cases sink <;> rfl
      show Stage _ _ (withSink sink (.new initial)).stopReason _ _
      rw [hstop]
      exact .model hlimit (by simp)
  | load hread => exact hread.elim

/-- Wherever a fresh run stands it plays rounds, and its steps are the node executions. -/
theorem plays_of_passes {ctx : RunContext} {ds : List (Deed self.program)}
    {p : LoopState (self.program.env H) Nat × ProgramMachine self.program H}
    (h : (self.fresh initial sink events runControl checkpoints).Passes self.graph m ctx ds p) :
    self.Plays initial p.1.position (updates ds).length := by
  induction h with
  | enter h =>
    have hopens := (wp_of_ok (wp_opened self.compiled self.flat _ m) h).1.opens
    exact (plays_opening hopens).1
  | turn _ _ hstep ih =>
    have hplays := ih.turn (step_cases hstep)
    simp only [updates_append, updates_worked, List.append_nil, updates_committed, List.length_append,
      List.length_singleton]
    exact hplays

theorem plays_of_leaves {ds : List (Deed self.program)} {q : Position self.program}
    (h : (self.fresh (H := H) initial sink events runControl checkpoints).Leaves self.graph m ds q) :
    self.Plays initial q (updates ds).length := by
  cases h with
  | standing hpasses => exact plays_of_passes hpasses
  | during hpasses =>
    rw [updates_append, updates_worked, List.append_nil]
    exact plays_of_passes hpasses
  | committed hpasses _ _ hstep =>
    have hplays := (plays_of_passes hpasses).turn (step_cases hstep)
    simp only [updates_append, updates_worked, List.append_nil, updates_committed, List.length_append,
      List.length_singleton]
    exact hplays

/-- How a fresh run may fail: at a node, from outside, at the store, or because an approval cannot be
kept without one. -/
inductive Shortfall (self : ToolCallingAgent) (checkpoints : Option CheckpointConfig) :
    Stop → Prop where
  | node (path : NodePath) (step : Nat) (source : SourceError) :
      Shortfall self checkpoints (.error (.nodeFailed path step source))
  | outer {e : Stop} (h : Outer e) : Shortfall self checkpoints e
  | save {error : GraphRunError} (h : Saves error) (hstore : checkpoints ≠ none) :
      Shortfall self checkpoints (.error error)
  | approval (id : InterruptId) (path : NodePath) (step : Nat)
      (h : self.config.toolApproval = true) (hstore : checkpoints = none) :
      Shortfall self checkpoints (.error (.interruptRequiresCheckpoint id path step))

section Ends

variable {ctx : RunContext} {ds : List (Deed self.program)}
  {p : LoopState (self.program.env H) Nat × ProgramMachine self.program H}
  (h : (self.fresh initial sink events runControl checkpoints).Passes self.graph m ctx ds p)

include h

/-- The node executions left fit the step limit. -/
theorem fresh_budget : p.1.steps = (updates ds).length ∧ p.1.superstep = (updates ds).length ∧
    ctx.absoluteStepLimit = self.config.maxRounds * 2 ∧ ctx.hops = 3 := by
  obtain ⟨ls, m₁, henter, hsteps, hsuper⟩ := h.counts self.compiled self.flat sound_fresh
  obtain ⟨hopened, hlimit, -⟩ := wp_of_ok (wp_opened self.compiled self.flat _ m) henter
  obtain ⟨-, hzero, hzero'⟩ := plays_opening hopened.opens
  have hmax : ctx.maxSteps = self.config.maxRounds * 2 := hopened.adopts.maxSteps
  have hbounded := self.config.bounded
  simp only at hlimit
  rw [hzero, hmax, Nat.zero_add, Nat.min_eq_left hbounded] at hlimit
  rw [hzero, Nat.zero_add] at hsteps
  rw [hzero', Nat.zero_add] at hsuper
  exact ⟨hsteps, hsuper, hlimit, hopened.adopts.hops⟩

/-- A fresh run checkpoints as it is told to. -/
theorem fresh_mode : (p.1.checkpoints = .disabled ∧ checkpoints = none) ∨
    ((∃ c, p.1.checkpoints = .enabled c) ∧ checkpoints ≠ none) := by
  obtain ⟨ls, hstarts, halike⟩ := h.reaches.mode self.compiled sound_fresh
  have hmode := hstarts.2.2.2
  rw [hmode] at halike
  cases checkpoints with
  | none =>
    left
    generalize hk : p.1.checkpoints = k at halike
    cases halike with
    | refl => exact ⟨rfl, rfl⟩
  | some config =>
    right
    refine ⟨?_, by simp⟩
    generalize hk : p.1.checkpoints = k at halike
    change RuntimeCheckpoint.Alike (.enabled _) k at halike
    cases halike with
    | refl => exact ⟨_, rfl⟩
    | enabled => exact ⟨_, rfl⟩

/-- An update that is come to can be applied. -/
theorem fresh_applies {i : Nat} {a : NodeAttempt AgentNode AgentState AgentValue}
    {update : AgentUpdate} (ha : Tries self.program self.graph p.1.position i a)
    (hcomes : self.program.Comes a (.update update)) :
    ∃ state, p.1.state.apply update = .ok state := by
  obtain ⟨hfresh, rounds, hrecords, hstage⟩ := plays_of_passes h
  have hmem := ha.mem
  have hcount : p.1.state.modelRounds = rounds.length := hrecords.count
  have husage : p.1.state.usageByRound = rounds.map Round.usage := hrecords.usage
  have haligned : p.1.state.usageByRound.length = p.1.state.modelRounds := by
    rw [husage, List.length_map, hcount]
  have hwhat := comes_of_tries ha hcomes
  cases hwhat with
  | model hanswers =>
    obtain ⟨hstop, hlimit⟩ := hstage.at_model hmem
    have hbounded := self.config.bounded
    exact ⟨_, AgentState.apply_model.mpr ⟨hstop, haligned, by omega, rfl⟩⟩
  | tools hpending hsettles =>
    obtain ⟨hstop, before, r, rfl, -⟩ := hstage.at_tools hmem
    rw [List.length_append, List.length_singleton] at hcount
    refine ⟨_, AgentState.apply_tools.mpr ⟨hstop, by omega, haligned, ?_, rfl⟩⟩
    exact ⟨_, hpending.pending, hpending.ne_nil, hsettles.answers⟩

/-- A fresh run falls short for these reasons only. -/
theorem shortfall_of_fault {e : Stop} (hfault : Fault self.graph ctx p.1 e) :
    self.Shortfall checkpoints e := by
  obtain ⟨hsteps, hsuper, hlimit, hhops⟩ := fresh_budget h
  obtain ⟨hfresh, rounds, hrecords, hstage⟩ := plays_of_passes h
  have hbudget : p.1.steps + p.1.frontier.length ≤ ctx.absoluteStepLimit := by
    rw [hsteps, hlimit]
    exact hstage.budget
  cases hfault with
  | outer houter => exact .outer houter
  | node => exact .node _ _ _
  | budget hover => omega
  | update hl ha hcomes herror =>
    obtain ⟨state, hstate⟩ := fresh_applies h ha hcomes
    replace herror : p.1.state.apply _ = .error _ := herror
    rw [hstate] at herror
    cases herror
  | route hl ha hcomes happly hn hnone =>
    obtain ⟨next, hnext⟩ := leads_of_apply ha hcomes happly hn
    exact absurd hnext (hnone next)
  | interrupt hsuspends herror =>
    obtain ⟨i, a, hl, ha, hcomes⟩ := hsuspends
    have hwhat := comes_of_tries ha hcomes
    cases hwhat with
    | suspended pending approval offered id =>
      rcases fresh_mode h with ⟨hmode, hnone⟩ | ⟨⟨c, hmode⟩, -⟩
      · rw [hmode] at herror
        obtain rfl := Option.some.inj herror
        exact .approval _ _ _ approval hnone
      · rw [hmode] at herror
        cases herror
  | save hc hsaves =>
    refine .save hsaves fun hnone => ?_
    rcases fresh_mode h with ⟨hmode, -⟩ | ⟨-, hsome⟩
    · rw [hmode] at hc
      cases hc
    · exact hsome hnone
  | batch htwo =>
    have hone : p.1.frontier.length ≤ 1 := hstage.length_frontier
    omega
  | counter hcount =>
    have hbounded := self.config.bounded
    unfold usizeMax at hcount hbounded
    omega
  | hops hzero => omega

end Ends

/-- **The loop of an agent.** -/
theorem agent_loop (self : ToolCallingAgent) {H : Host self.program} (messages : List Message)
    (sink : Bool) (events : EventConfig) (runControl : RunControl)
    (checkpoints : Option CheckpointConfig) (m : ProgramMachine self.program H) :
    (∀ ds q, (self.fresh (H := H) messages sink events runControl checkpoints).Leaves self.graph m
        ds q → ∃ rounds, Records messages rounds q.state ∧ rounds.length ≤ self.config.maxRounds ∧
      Stage self.config.maxRounds rounds q.state.stopReason q.frontier (updates ds).length) ∧
    wp ((self.fresh messages sink events runControl checkpoints).run self.graph)
      (fun outcome _ =>
        match outcome with
        | .completed report => ∃ rounds, Records messages rounds report.finalState ∧
          ((report.finalState.stopReason = some .finalAnswer ∧ ∃ before r, rounds = before ++ [r] ∧
              r.Final ∧ rounds.length ≤ self.config.maxRounds ∧ ∀ r ∈ before, r.Executed) ∨
            (report.finalState.stopReason = some .maxRounds ∧
              rounds.length = self.config.maxRounds ∧ ∀ r ∈ rounds, r.Executed))
        | .interrupted report => self.config.toolApproval = true ∧ ∃ before r,
          Records messages (before ++ [r]) report.state ∧ r.results = [] ∧
            before.length < self.config.maxRounds ∧ (∀ r ∈ before, r.Executed) ∧
            r.message.toolCalls ≠ [] ∧ report.interrupt.payload = .request r.message.toolCalls)
      (fun e _ => self.Shortfall checkpoints e) m := by
  refine ⟨fun ds q hleaves => ?_, ?_⟩
  · obtain ⟨-, rounds, hrecords, hstage⟩ := plays_of_leaves hleaves
    exact ⟨rounds, hrecords, hstage.length_le, hstage⟩
  refine wp_mono (run_course self.compiled self.flat sound_fresh) (fun outcome m' ho => ?_)
    fun e m' he => ?_
  · obtain ⟨ctx, p, ⟨ds, ws, hpasses, -⟩, hconcludes⟩ := ho
    obtain ⟨-, rounds, hrecords, hstage⟩ := plays_of_passes hpasses
    cases hconcludes with
    | completed hl hstate =>
      rw [hl] at hstage
      simp only
      rw [hstate]
      have hle := hstage.length_le
      refine ⟨rounds, hrecords, ?_⟩
      rcases hstage.ended with ⟨hstop, before, r, heq, hfinal, hbefore⟩ | hlimit
      · exact .inl ⟨hstop, before, r, heq, hfinal, hle, hbefore⟩
      · exact .inr hlimit
    | interrupted hsuspends hstate hinterrupt =>
      obtain ⟨i, a, hl, ha, hcomes⟩ := hsuspends
      have hwhat := comes_of_tries ha hcomes
      generalize hrequest : NodeOutcome.interrupt _ = outcome at hwhat
      cases hwhat with
      | model => cases hrequest
      | tools => cases hrequest
      | @suspended calls pending approval offered id =>
        obtain rfl := NodeOutcome.interrupt.inj hrequest
        simp only
        rw [hstate, hinterrupt]
        obtain ⟨-, before, r, rfl, limit, executed, hcalls, results⟩ := hstage.at_tools ha.mem
        obtain rfl : calls = r.message.toolCalls :=
          Option.some.inj (pending.pending.symm.trans (hrecords.pending results))
        exact ⟨approval, before, r, hrecords, results, limit, executed, hcalls, rfl⟩
  · rcases he with ⟨hrefused, -⟩ | ⟨ctx, p, ⟨ds, ws, hpasses, -⟩, hfault⟩
    · rcases hrefused with houter | ⟨hzero, -⟩ | hentry
      · exact .outer houter
      · cases hzero
      · cases hentry
    · exact shortfall_of_fault hpasses hfault

end ToolCallingAgent

end GroupAgent.Prebuilt
