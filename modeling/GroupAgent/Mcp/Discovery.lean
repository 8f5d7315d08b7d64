import GroupAgent.Mcp.ToolSet

/-!
# MCP discovery

Model of `McpClientSession::discover` (`discovery.rs:257-305`, its errors 307-313, 341-352) of
`crates/group-agent-mcp/src`.

* `Answers` is what the server answers to each request, in order; what it answers may depend on all
  that was asked before. A run is what was asked, the cursor of each request, and what it ends
  with.
* A page is asked for only after the limit on pages was checked, its tools are counted before they
  are kept, and a cursor that was seen before ends the traversal.
* The loop needs no fuel: the limit on pages bounds it.

Results:
* `traverse_ok`: the traversals that succeed.
* **`discovery_iff`**: when discovery does what it says. `default_discovers_nothing` is the
  configuration with no pages, with which it does not.

Out of scope: the time a request takes, and a session that is shut down in between, which the
server's answers cover as errors.
-/

namespace GroupAgent.Mcp

open GroupAgent.Lib GroupAgent.Model GroupAgent.Tool

/-! ## The traversal -/

structure Page where
  tools : List ProtocolTool
  nextCursor : Option String

abbrev Answers : Type := Nat → Except ServiceError Page

/-- What was asked, and what it ends with. -/
structure Traversal (α : Type) where
  requests : List (Option String)
  result : Except McpAdapterError α

def discoveryErrorKind (error : ServiceError) : McpAdapterErrorKind :=
  match serviceErrorKind error with
  | .transport => .transport
  | .sessionClosed => .sessionClosed
  | .protocol => .protocol
  | _ => .discoveryFailed

namespace McpClientSession

def paginationError (session : McpClientSession) (source : McpPaginationError) : McpAdapterError :=
  let kind : McpAdapterErrorKind :=
    match source with
    | .cursorCycle => .protocol
    | _ => .discoveryFailed
  (McpAdapterError.withSource kind (.pagination source)).withServer session.serverId

/-- The state of the loop. -/
structure Pages where
  tools : List ProtocolTool
  cursor : Option String
  seenCursors : List String
  pageCount : Nat

def Pages.new : Pages := ⟨[], none, [], 0⟩

/-- What follows an answer: the tools, if this was the last page, or the next state. -/
def turnPage (session : McpClientSession) (config : McpDiscoveryConfig) (pages : Pages) :
    Except ServiceError Page → Except McpAdapterError (List ProtocolTool ⊕ Pages)
  | .error source =>
    .error ((McpAdapterError.withSource (discoveryErrorKind source) (.service source)).withServer
      session.serverId)
  | .ok page =>
    let totalTools := pages.tools.length + page.tools.length
    if 2 ^ 64 ≤ totalTools then .error (session.paginationError .toolCountOverflow)
    else if config.maxTools.toNat < totalTools then
      .error (session.paginationError .toolLimitExceeded)
    else
      let tools := pages.tools ++ page.tools
      match page.nextCursor with
      | none => .ok (.inl tools)
      | some nextCursor =>
        if nextCursor ∈ pages.seenCursors then .error (session.paginationError .cursorCycle)
        else .ok (.inr ⟨tools, some nextCursor, nextCursor :: pages.seenCursors, pages.pageCount + 1⟩)

theorem turnPage_pageCount {session : McpClientSession} {config : McpDiscoveryConfig}
    {pages pages' : Pages} {answer : Except ServiceError Page}
    (h : turnPage session config pages answer = .ok (.inr pages')) :
    pages'.pageCount = pages.pageCount + 1 := by
  cases answer with
  | error source => cases h
  | ok page =>
    obtain ⟨-, h⟩ := ite_error_eq_ok.mp h
    obtain ⟨-, h⟩ := ite_error_eq_ok.mp h
    simp only at h
    split at h
    · cases h
    · obtain ⟨-, h⟩ := ite_error_eq_ok.mp h
      cases h
      rfl

/-- The loop, which turns one page after the other. -/
def traverse (session : McpClientSession) (config : McpDiscoveryConfig) (answers : Answers)
    (pages : Pages) : Traversal (List ProtocolTool) :=
  if 2 ^ 64 ≤ pages.pageCount + 1 then ⟨[], .error (session.paginationError .pageCountOverflow)⟩
  else if config.maxPages.toNat < pages.pageCount + 1 then
    ⟨[], .error (session.paginationError .pageLimitExceeded)⟩
  else
    match _h : turnPage session config pages (answers pages.pageCount) with
    | .error error => ⟨[pages.cursor], .error error⟩
    | .ok (.inl tools) => ⟨[pages.cursor], .ok tools⟩
    | .ok (.inr pages') =>
      let rest := traverse session config answers pages'
      ⟨pages.cursor :: rest.requests, rest.result⟩
termination_by config.maxPages.toNat - pages.pageCount
decreasing_by
  have := turnPage_pageCount _h
  omega

/-- Discover all pages, and return a new immutable tool snapshot. -/
def discover (compile : Compile) (session : McpClientSession) (view : SessionView)
    (config : McpDiscoveryConfig) (answers : Answers) : Traversal McpToolSet :=
  match session.peer view with
  | .error error => ⟨[], .error error⟩
  | .ok () =>
    match view.peerInfo with
    | none => ⟨[], .error ((McpAdapterError.new .initializationFailed).withServer session.serverId)⟩
    | some serverInfo =>
      if serverInfo.tools = false then
        ⟨[], .error ((McpAdapterError.new .capabilityMissing).withServer session.serverId)⟩
      else
        let traversal := traverse session config answers .new
        ⟨traversal.requests,
          traversal.result >>= fun tools => McpToolSet.fromDiscovered compile session tools config⟩

end McpClientSession

/-! ## The traversals that succeed -/

section Chain

open McpClientSession

variable {session : McpClientSession} {config : McpDiscoveryConfig} {answers : Answers}

/-- The pages from one request on, up to the first that has no next cursor. -/
inductive Chain (answers : Answers) : Nat → List Page → Prop
  | last {i page} : answers i = .ok page → page.nextCursor = none → Chain answers i [page]
  | next {i page nextCursor pages} : answers i = .ok page → page.nextCursor = some nextCursor →
      Chain answers (i + 1) pages → Chain answers i (page :: pages)

def cursorsOf (chain : List Page) : List String := chain.filterMap (·.nextCursor)

def toolsOf (chain : List Page) : List ProtocolTool := chain.flatMap (·.tools)

@[simp] theorem toolsOf_nil : toolsOf [] = [] := rfl

@[simp] theorem toolsOf_cons (page : Page) (chain : List Page) :
    toolsOf (page :: chain) = page.tools ++ toolsOf chain := rfl

@[simp] theorem cursorsOf_nil : cursorsOf [] = [] := rfl

theorem cursorsOf_cons_none {page : Page} (h : page.nextCursor = none) (chain : List Page) :
    cursorsOf (page :: chain) = cursorsOf chain := List.filterMap_cons_none h

theorem cursorsOf_cons_some {page : Page} {nextCursor : String}
    (h : page.nextCursor = some nextCursor) (chain : List Page) :
    cursorsOf (page :: chain) = nextCursor :: cursorsOf chain := List.filterMap_cons_some h

theorem turnPage_last {pages : Pages} {answer : Except ServiceError Page}
    {tools : List ProtocolTool} : turnPage session config pages answer = .ok (.inl tools) ↔
      ∃ page, answer = .ok page ∧ page.nextCursor = none ∧
        (pages.tools ++ page.tools).length ≤ config.maxTools.toNat ∧
          tools = pages.tools ++ page.tools := by
  cases answer with
  | error source => simp [turnPage]
  | ok page =>
    have hbound := config.maxTools.toNat_lt
    unfold turnPage
    simp only [ite_error_eq_ok, List.length_append, Except.ok.injEq, exists_eq_left']
    cases hnext : page.nextCursor with
    | none =>
      simp only [Except.ok.injEq, Sum.inl.injEq, true_and]
      constructor
      · rintro ⟨-, hle, rfl⟩
        exact ⟨by omega, rfl⟩
      · rintro ⟨hle, rfl⟩
        exact ⟨by omega, by omega, rfl⟩
    | some nextCursor =>
      simp only [reduceCtorEq, false_and, iff_false, not_and]
      intro _ _
      split <;> simp

theorem turnPage_next {pages pages' : Pages} {answer : Except ServiceError Page} :
    turnPage session config pages answer = .ok (.inr pages') ↔
      ∃ page nextCursor, answer = .ok page ∧ page.nextCursor = some nextCursor ∧
        (pages.tools ++ page.tools).length ≤ config.maxTools.toNat ∧
          nextCursor ∉ pages.seenCursors ∧ pages' = ⟨pages.tools ++ page.tools, some nextCursor,
            nextCursor :: pages.seenCursors, pages.pageCount + 1⟩ := by
  cases answer with
  | error source => simp [turnPage]
  | ok page =>
    have hbound := config.maxTools.toNat_lt
    unfold turnPage
    simp only [ite_error_eq_ok, List.length_append, Except.ok.injEq]
    cases hnext : page.nextCursor with
    | none => simp [hnext]
    | some nextCursor =>
      constructor
      · rintro ⟨-, hle, h⟩
        obtain ⟨hnew, h⟩ := ite_error_eq_ok.mp h
        cases h
        exact ⟨page, nextCursor, rfl, hnext, by omega, hnew, rfl⟩
      · rintro ⟨_, c, rfl, hc, hle, hnew, rfl⟩
        rw [hnext] at hc
        cases hc
        exact ⟨by omega, by omega, ite_error_eq_ok.mpr ⟨hnew, rfl⟩⟩

/-- What the traversal needs of the pages that follow a state. -/
structure Reads (config : McpDiscoveryConfig) (answers : Answers) (pages : Pages)
    (chain : List Page) : Prop where
  ends : Chain answers pages.pageCount chain
  pageCount : pages.pageCount + chain.length ≤ config.maxPages.toNat
  toolCount : (pages.tools ++ toolsOf chain).length ≤ config.maxTools.toNat
  distinct : (cursorsOf chain).Nodup
  unseen : ∀ cursor ∈ cursorsOf chain, cursor ∉ pages.seenCursors

theorem Reads.last {pages : Pages} {page : Page}
    (hlimit : pages.pageCount < config.maxPages.toNat) (hpage : answers pages.pageCount = .ok page)
    (hnext : page.nextCursor = none)
    (hcount : (pages.tools ++ page.tools).length ≤ config.maxTools.toNat) :
    Reads config answers pages [page] where
  ends := .last hpage hnext
  pageCount := hlimit
  toolCount := by simpa using hcount
  distinct := by simp [cursorsOf_cons_none hnext]
  unseen := by simp [cursorsOf_cons_none hnext]

theorem Reads.next {pages : Pages} {page : Page} {nextCursor : String} {chain : List Page}
    (hpage : answers pages.pageCount = .ok page) (hnext : page.nextCursor = some nextCursor)
    (hnew : nextCursor ∉ pages.seenCursors)
    (h : Reads config answers ⟨pages.tools ++ page.tools, some nextCursor,
      nextCursor :: pages.seenCursors, pages.pageCount + 1⟩ chain) :
    Reads config answers pages (page :: chain) where
  ends := .next hpage hnext h.ends
  pageCount := by
    have := h.pageCount
    simp only [List.length_cons] at this ⊢
    omega
  toolCount := by
    have := h.toolCount
    rwa [toolsOf_cons, ← List.append_assoc]
  distinct := by
    rw [cursorsOf_cons_some hnext, List.nodup_cons]
    exact ⟨fun hmem => h.unseen _ hmem List.mem_cons_self, h.distinct⟩
  unseen := by
    rw [cursorsOf_cons_some hnext, List.forall_mem_cons]
    exact ⟨hnew, fun cursor hcursor hseen => h.unseen cursor hcursor (List.mem_cons_of_mem _ hseen)⟩

/-- A chain that is read has one page, or goes on. -/
theorem Reads.cases {pages : Pages} {chain : List Page} (h : Reads config answers pages chain) :
    (∃ page, chain = [page] ∧ answers pages.pageCount = .ok page ∧ page.nextCursor = none ∧
      (pages.tools ++ page.tools).length ≤ config.maxTools.toNat) ∨
    ∃ page nextCursor rest, chain = page :: rest ∧ answers pages.pageCount = .ok page ∧
      page.nextCursor = some nextCursor ∧
        (pages.tools ++ page.tools).length ≤ config.maxTools.toNat ∧
          nextCursor ∉ pages.seenCursors ∧ Reads config answers ⟨pages.tools ++ page.tools,
            some nextCursor, nextCursor :: pages.seenCursors, pages.pageCount + 1⟩ rest := by
  obtain ⟨hends, hpageCount, htoolCount, hdistinct, hunseen⟩ := h
  cases hends with
  | @last _ page hpage hnext => exact .inl ⟨page, rfl, hpage, hnext, by simpa using htoolCount⟩
  | @next _ page nextCursor rest hpage hnext hrest =>
    rw [toolsOf_cons, ← List.append_assoc] at htoolCount
    rw [cursorsOf_cons_some hnext] at hdistinct hunseen
    obtain ⟨hnotMem, hdistinct⟩ := List.nodup_cons.mp hdistinct
    obtain ⟨hnew, hunseen⟩ := List.forall_mem_cons.mp hunseen
    refine .inr ⟨page, nextCursor, rest, rfl, hpage, hnext, ?_, hnew, hrest, ?_, htoolCount,
      hdistinct, fun cursor hcursor hseen => ?_⟩
    · exact (List.sublist_append_left _ _).length_le.trans htoolCount
    · simp only [List.length_cons] at hpageCount ⊢
      omega
    · rcases List.mem_cons.mp hseen with rfl | hseen
      · exact hnotMem hcursor
      · exact hunseen cursor hcursor hseen

theorem traverse_stop {pages : Pages} (h : config.maxPages.toNat ≤ pages.pageCount) :
    ∃ error, traverse session config answers pages = ⟨[], .error error⟩ := by
  rw [McpClientSession.traverse]
  by_cases hoverflow : 2 ^ 64 ≤ pages.pageCount + 1
  · exact ⟨_, if_pos hoverflow⟩
  · rw [if_neg hoverflow, if_pos (by omega)]
    exact ⟨_, rfl⟩

theorem traverse_turn {pages : Pages} (h : pages.pageCount < config.maxPages.toNat) :
    traverse session config answers pages =
      match turnPage session config pages (answers pages.pageCount) with
      | .error error => ⟨[pages.cursor], .error error⟩
      | .ok (.inl tools) => ⟨[pages.cursor], .ok tools⟩
      | .ok (.inr pages') =>
        ⟨pages.cursor :: (traverse session config answers pages').requests,
          (traverse session config answers pages').result⟩ := by
  have hbound := config.maxPages.toNat_lt
  rw [McpClientSession.traverse, if_neg (by omega), if_neg (by omega)]
  cases turnPage session config pages (answers pages.pageCount) with
  | error error => rfl
  | ok turned => cases turned <;> rfl

/-- The traversal succeeds with the tools of a chain, which it asked for page by page. -/
theorem traverse_ok {pages : Pages} {requests : List (Option String)} {tools : List ProtocolTool} :
    traverse session config answers pages = ⟨requests, .ok tools⟩ ↔
      ∃ chain, Reads config answers pages chain ∧ tools = pages.tools ++ toolsOf chain ∧
        requests = pages.cursor :: (cursorsOf chain).map some := by
  -- on the requests that are left
  induction hleft : config.maxPages.toNat - pages.pageCount generalizing pages requests with
  | zero =>
    have hstop : ∃ error, traverse session config answers pages = ⟨[], .error error⟩ :=
      traverse_stop (Nat.le_of_sub_eq_zero hleft)
    obtain ⟨error, hstop⟩ := hstop
    rw [hstop]
    constructor
    · intro h
      cases h
    · rintro ⟨chain, hreads, -, -⟩
      have hcount := hreads.pageCount
      cases hreads.ends <;> simp at hcount <;> omega
  | succ left ih =>
    rw [traverse_turn (by omega)]
    constructor
    · intro h
      split at h
      · cases h
      · rename_i hturn
        cases h
        obtain ⟨page, hpage, hnext, hcount, rfl⟩ := turnPage_last.mp hturn
        exact ⟨[page], .last (by omega) hpage hnext hcount, by simp,
          by simp [cursorsOf_cons_none hnext]⟩
      · rename_i pages' hturn
        obtain ⟨page, nextCursor, hpage, hnext, hcount, hnew, hpages⟩ := turnPage_next.mp hturn
        obtain ⟨hasked, hresult⟩ := Traversal.mk.inj h
        have hrest : traverse session config answers pages' =
            ⟨(traverse session config answers pages').requests, .ok tools⟩ := by rw [← hresult]
        obtain ⟨chain, hreads, htools, hrequests⟩ :=
          (ih (by rw [hpages]; simp only; omega)).mp hrest
        rw [hrequests] at hasked
        subst hpages
        refine ⟨page :: chain, hreads.next hpage hnext hnew, ?_, ?_⟩
        · rw [htools, toolsOf_cons, List.append_assoc]
        · rw [← hasked, cursorsOf_cons_some hnext]
          rfl
    · rintro ⟨chain, hreads, rfl, rfl⟩
      rcases hreads.cases with ⟨page, rfl, hpage, hnext, hcount⟩ |
        ⟨page, nextCursor, rest, rfl, hpage, hnext, hcount, hnew, hrest⟩
      · rw [turnPage_last.mpr ⟨page, hpage, hnext, hcount, rfl⟩]
        simp [cursorsOf_cons_none hnext]
      · rw [turnPage_next.mpr ⟨page, nextCursor, hpage, hnext, hcount, hnew, rfl⟩]
        have htools : pages.tools ++ toolsOf (page :: rest) =
            (pages.tools ++ page.tools) ++ toolsOf rest := by
          rw [toolsOf_cons, List.append_assoc]
        simp only
        rw [(ih (by simp only; omega)).mpr ⟨rest, hrest, htools, rfl⟩, cursorsOf_cons_some hnext]
        rfl

theorem traverse_requests_le {pages : Pages} :
    (traverse session config answers pages).requests.length ≤
      config.maxPages.toNat - pages.pageCount := by
  induction hleft : config.maxPages.toNat - pages.pageCount generalizing pages with
  | zero =>
    have hstop : ∃ error, traverse session config answers pages = ⟨[], .error error⟩ :=
      traverse_stop (Nat.le_of_sub_eq_zero hleft)
    obtain ⟨error, hstop⟩ := hstop
    rw [hstop]
    exact Nat.le_refl 0
  | succ left ih =>
    rw [traverse_turn (by omega)]
    split
    · exact Nat.succ_le_succ (Nat.zero_le left)
    · exact Nat.succ_le_succ (Nat.zero_le left)
    · rename_i pages' hturn
      have hcount := turnPage_pageCount hturn
      exact Nat.succ_le_succ (ih (by omega))

theorem traverse_requests_pos {pages : Pages} (h : pages.pageCount < config.maxPages.toNat) :
    0 < (traverse session config answers pages).requests.length := by
  rw [traverse_turn h]
  split <;> exact Nat.succ_pos _

/-- What the traversal needs from the start. -/
theorem reads_new {chain : List Page} : Reads config answers .new chain ↔
    Chain answers 0 chain ∧ chain.length ≤ config.maxPages.toNat ∧
      (toolsOf chain).length ≤ config.maxTools.toNat ∧ (cursorsOf chain).Nodup := by
  constructor
  · rintro ⟨hends, hpages, htools, hdistinct, -⟩
    exact ⟨hends, (Nat.zero_add chain.length).symm ▸ hpages, htools, hdistinct⟩
  · rintro ⟨hends, hpages, htools, hdistinct⟩
    exact ⟨hends, (Nat.zero_add chain.length).symm ▸ hpages, htools, hdistinct,
      fun _ _ h => absurd h List.not_mem_nil⟩

end Chain

/-! ## The tools that map -/

section Tools

open McpToolSet

variable {compile : Compile} {session : McpClientSession} {config : McpDiscoveryConfig}

theorem trim_ne_empty {s : String} {c : Char} {l : List Char} (hs : s.toList = c :: l)
    (hc : isWhitespace c = false) : trim s ≠ "" := by
  intro h
  have htext := congrArg String.toList h
  rw [trim_toList, hs, List.dropWhile_cons_of_neg (by simp [hc])] at htext
  have hall := List.rdropWhile_eq_nil_iff.mp htext c List.mem_cons_self
  rw [hc] at hall
  cases hall

/-- A tool that has no description gets one. -/
theorem descriptionOf_nonblank (tool : ProtocolTool) : trim (descriptionOf tool) ≠ "" := by
  unfold descriptionOf
  cases hfilter : tool.description.filter fun description => trim description ≠ "" with
  | none =>
    have htext : ("MCP tool `" ++ tool.name ++ "`").toList =
        'M' :: ("CP tool `".toList ++ (tool.name.toList ++ "`".toList)) := by
      rw [String.toList_append, String.toList_append, List.append_assoc]
      rfl
    exact trim_ne_empty htext rfl
  | some description =>
    obtain ⟨-, hne⟩ := Option.filter_eq_some_iff.mp hfilter
    exact of_decide_eq_true hne

/-- A listed tool that maps under every policy. -/
structure WellFormed (compile : Compile) (tool : ProtocolTool) : Prop where
  canonical : isCanonical tool.name
  noTask : tool.taskSupport ≠ some .required
  schema : ∃ validator, compile (.object tool.inputSchema) = .ok validator

/-- A tool that maps is registrable when its schema is compiled. -/
theorem registrable_iff {tool : ProtocolTool} {e : ToolName × LocalEntry}
    (h : Maps session config tool e) :
    Registrable compile e.2.1 ↔ ∃ validator, compile (.object tool.inputSchema) = .ok validator := by
  obtain ⟨name, entry⟩ := e
  obtain ⟨hname, hentry⟩ := h
  dsimp only at hname hentry
  subst hentry
  obtain ⟨hcanonical, -, hvalue⟩ := localNameOf_eq_ok.mp hname
  have hlocal : isCanonical name.value := hvalue ▸ isCanonical_localText hcanonical
  obtain ⟨-, htrim, hcontrol⟩ := isCanonical_iff.mp hlocal
  have hadmitted : isCanonicalName name.value := by
    unfold isCanonicalName
    simpa [htrim] using hcontrol
  unfold Registrable
  constructor
  · rintro ⟨entry, hentry⟩
    obtain ⟨-, -, -, -, validator, hvalidator, -⟩ := entryOf_eq_ok.mp hentry
    exact ⟨validator, hvalidator⟩
  · rintro ⟨validator, hvalidator⟩
    exact ⟨_, entryOf_eq_ok.mpr ⟨rfl, hadmitted, descriptionOf_nonblank tool,
      validate_behaviorFor config tool.name, validator, hvalidator, rfl⟩⟩

theorem exists_maps {tool : ProtocolTool} (hcanonical : isCanonical tool.name)
    (htask : tool.taskSupport ≠ some .required) : ∃ e, Maps session config tool e := by
  have hlocal : ∃ name, config.namePolicy.localName session.serverId tool.name = .ok name :=
    exists_localName hcanonical
  obtain ⟨name, hname⟩ := hlocal
  exact ⟨(name, McpToolSet.entryOf session config tool name),
    localNameOf_eq_ok.mpr ⟨hcanonical, htask, (localName_eq_ok.mp hname).2⟩, rfl⟩

/-- The set has the listed tools, and no others. -/
def HoldsListed (session : McpClientSession) (config : McpDiscoveryConfig) (tools : List ProtocolTool)
    (set : McpToolSet) : Prop :=
  ∃ es, List.Forall₂ (Maps session config) tools es ∧ set.tools.Perm (es.map (·.2.1)) ∧
    set.mappings.Perm (es.map (·.2.2))

theorem forall_wellFormed_iff : ∀ {tools : List ProtocolTool} {es : List (ToolName × LocalEntry)},
    List.Forall₂ (Maps session config) tools es →
      ((∀ tool ∈ tools, WellFormed compile tool) ↔ ∀ e ∈ es, Registrable compile e.2.1)
  | [], [], .nil => by simp
  | tool :: tools, e :: es, .cons h hall => by
    rw [List.forall_mem_cons, List.forall_mem_cons, forall_wellFormed_iff hall, registrable_iff h]
    obtain ⟨hcanonical, htask, -⟩ := localNameOf_eq_ok.mp h.named
    exact and_congr_left fun _ => ⟨fun hwell => hwell.schema, fun hschema =>
      ⟨hcanonical, htask, hschema⟩⟩

theorem exists_forall_maps : ∀ {tools : List ProtocolTool},
    (∀ tool ∈ tools, WellFormed compile tool) → ∃ es, List.Forall₂ (Maps session config) tools es
  | [], _ => ⟨[], .nil⟩
  | tool :: tools, h => by
    obtain ⟨htool, htools⟩ := List.forall_mem_cons.mp h
    have hmaps : ∃ e, Maps session config tool e := exists_maps htool.canonical htool.noTask
    obtain ⟨e, he⟩ := hmaps
    obtain ⟨es, hes⟩ := exists_forall_maps htools
    exact ⟨e :: es, .cons he hes⟩

/-- The listed tools that make a set. -/
theorem exists_fromDiscovered {tools : List ProtocolTool} :
    (∃ set, fromDiscovered compile session tools config = .ok set) ↔
      (∀ tool ∈ tools, WellFormed compile tool) ∧ (tools.map (·.name)).Nodup ∧
        ∀ name ∈ config.overrideNames, name ∈ tools.map (·.name) := by
  constructor
  · rintro ⟨set, h⟩
    obtain ⟨es, hall, hnames, hoverrides, hholds, -⟩ := fromDiscovered_eq_ok.mp h
    have hperm := SortedMap.insertAll_empty_perm ((Maps.nodup_iff hall).mpr hnames)
    exact ⟨(forall_wellFormed_iff hall).mpr fun e he =>
      hholds.registrable e (hperm.mem_iff.mpr he), hnames, hoverrides⟩
  · rintro ⟨hwell, hnames, hoverrides⟩
    have hmaps : ∃ es, List.Forall₂ (Maps session config) tools es := exists_forall_maps hwell
    obtain ⟨es, hall⟩ := hmaps
    have hperm := SortedMap.insertAll_empty_perm ((Maps.nodup_iff hall).mpr hnames)
    obtain ⟨set, hown, htools, hmappings, hregistry⟩ := exists_holds.mpr
      ⟨fun e he => Maps.all_own hall e (hperm.mem_iff.mp he), fun e he =>
        (forall_wellFormed_iff hall).mp hwell e (hperm.mem_iff.mp he)⟩
    let whole : McpToolSet := ⟨set.registry, set.tools, set.mappings, [session.serverId],
      [config.namePolicy.kind]⟩
    exact ⟨whole, fromDiscovered_eq_ok.mpr ⟨es, hall, hnames, hoverrides,
      ⟨hown, htools, hmappings, hregistry⟩, rfl, rfl⟩⟩

theorem holdsListed_of_ok {tools : List ProtocolTool} {set : McpToolSet}
    (h : fromDiscovered compile session tools config = .ok set) :
    HoldsListed session config tools set := by
  obtain ⟨es, hall, hnames, -, hholds, -⟩ := fromDiscovered_eq_ok.mp h
  have hperm := SortedMap.insertAll_empty_perm ((Maps.nodup_iff hall).mpr hnames)
  refine ⟨es, hall, ?_, ?_⟩
  · rw [hholds.tools]
    exact hperm.map _
  · rw [hholds.mappings]
    exact hperm.map _

end Tools

/-! ## Discovery -/

section Discovery

open McpClientSession

variable {compile : Compile} {session : McpClientSession} {view : SessionView}
  {config : McpDiscoveryConfig} {answers : Answers}

/-- The session is active, and its server has tools. -/
def Ready (session : McpClientSession) (view : SessionView) : Prop :=
  session.peer view = .ok () ∧ ∃ info, view.peerInfo = some info ∧ info.tools = true

theorem discover_of_ready (h : Ready session view) :
    discover compile session view config answers =
      ⟨(traverse session config answers .new).requests,
        (traverse session config answers .new).result >>= fun tools =>
          McpToolSet.fromDiscovered compile session tools config⟩ := by
  obtain ⟨hpeer, info, hinfo, htools⟩ := h
  unfold discover
  simp [hpeer, hinfo, htools]

variable (compile config answers) in
theorem discover_of_not_ready (h : ¬Ready session view) :
    ∃ error, discover compile session view config answers = ⟨[], .error error⟩ := by
  unfold discover
  split
  · exact ⟨_, rfl⟩
  · rename_i hpeer
    split
    · exact ⟨_, rfl⟩
    · rename_i info hinfo
      by_cases htools : info.tools = false
      · exact ⟨_, if_pos htools⟩
      · exact absurd ⟨hpeer, info, hinfo, Bool.eq_true_of_not_eq_false htools⟩ h

/-- A chain of pages that keeps the limits, repeats no cursor and lists tools that make a set. -/
structure Discoverable (compile : Compile) (config : McpDiscoveryConfig) (answers : Answers)
    (chain : List Page) : Prop where
  ends : Chain answers 0 chain
  pages : chain.length ≤ config.maxPages.toNat
  tools : (toolsOf chain).length ≤ config.maxTools.toNat
  cursors : (cursorsOf chain).Nodup
  wellFormed : ∀ tool ∈ toolsOf chain, WellFormed compile tool
  names : ((toolsOf chain).map (·.name)).Nodup
  overrides : ∀ name ∈ config.overrideNames, name ∈ (toolsOf chain).map (·.name)

/-- Discovery succeeds on the chains that are discoverable, which it asked for page by page. -/
theorem discover_ok {set : McpToolSet}
    (h : (discover compile session view config answers).result = .ok set) :
    ∃ chain, Discoverable compile config answers chain ∧
      HoldsListed session config (toolsOf chain) set ∧
        (discover compile session view config answers).requests =
          none :: (cursorsOf chain).map some := by
  by_cases hready : Ready session view
  · rw [discover_of_ready hready] at h ⊢
    obtain ⟨tools, htools, hset⟩ := bind_eq_ok.mp h
    have hrun : traverse session config answers .new =
        ⟨(traverse session config answers .new).requests, .ok tools⟩ := by rw [← htools]
    obtain ⟨chain, hreads, rfl, hrequests⟩ := traverse_ok.mp hrun
    obtain ⟨hends, hpages, hcount, hcursors⟩ := reads_new.mp hreads
    obtain ⟨hwell, hnames, hoverrides⟩ := exists_fromDiscovered.mp ⟨set, hset⟩
    exact ⟨chain, ⟨hends, hpages, hcount, hcursors, hwell, hnames, hoverrides⟩,
      holdsListed_of_ok hset, hrequests⟩
  · obtain ⟨error, herror⟩ := discover_of_not_ready compile config answers hready
    rw [herror] at h
    cases h

/-- What discovery succeeds on. -/
theorem exists_discover : (∃ set, (discover compile session view config answers).result = .ok set) ↔
    Ready session view ∧ ∃ chain, Discoverable compile config answers chain := by
  constructor
  · rintro ⟨set, h⟩
    obtain ⟨chain, hchain, -⟩ := discover_ok h
    refine ⟨?_, chain, hchain⟩
    by_contra hready
    obtain ⟨error, herror⟩ := discover_of_not_ready compile config answers hready
    rw [herror] at h
    cases h
  · rintro ⟨hready, chain, hchain⟩
    have hreads : Reads config answers .new chain :=
      reads_new.mpr ⟨hchain.ends, hchain.pages, hchain.tools, hchain.cursors⟩
    have hrun : traverse session config answers .new =
        ⟨none :: (cursorsOf chain).map some, .ok (toolsOf chain)⟩ :=
      traverse_ok.mpr ⟨chain, hreads, rfl, rfl⟩
    rw [discover_of_ready hready, hrun]
    exact exists_fromDiscovered.mpr ⟨hchain.wellFormed, hchain.names, hchain.overrides⟩

/-- What discovery is said to do, with the answers of one server. -/
structure Discovers (compile : Compile) (session : McpClientSession) (view : SessionView)
    (config : McpDiscoveryConfig) (answers : Answers) : Prop where
  /-- It asks for at least one page. -/
  asks : Ready session view → 1 ≤ (discover compile session view config answers).requests.length
  /-- It asks for no more pages than it may. -/
  bounded : (discover compile session view config answers).requests.length ≤ config.maxPages.toNat
  /-- It succeeds on the chains that are discoverable. -/
  accepts : (∃ set, (discover compile session view config answers).result = .ok set) ↔
    Ready session view ∧ ∃ chain, Discoverable compile config answers chain
  /-- The set has the tools that were listed. -/
  contains : ∀ set, (discover compile session view config answers).result = .ok set →
    ∃ chain, Chain answers 0 chain ∧ HoldsListed session config (toolsOf chain) set
  /-- Without overrides, one page with one tool is discoverable. -/
  single : Ready session view → config.overrideNames = [] → ∀ tool, answers 0 = .ok ⟨[tool], none⟩ →
    WellFormed compile tool → ∃ set, (discover compile session view config answers).result = .ok set

theorem discover_bounded :
    (discover compile session view config answers).requests.length ≤ config.maxPages.toNat := by
  by_cases hready : Ready session view
  · rw [discover_of_ready hready]
    exact traverse_requests_le
  · obtain ⟨error, herror⟩ := discover_of_not_ready compile config answers hready
    rw [herror]
    exact Nat.zero_le _

theorem discover_asks (hready : Ready session view) :
    1 ≤ (discover compile session view config answers).requests.length ↔ 0 < config.maxPages := by
  rw [discover_of_ready hready, UInt64.lt_iff_toNat_lt, UInt64.toNat_zero]
  constructor
  · intro h
    exact h.trans traverse_requests_le
  · exact fun h => traverse_requests_pos h

/-- One page with one tool is discoverable when both limits are positive. -/
theorem discoverable_single (hoverrides : config.overrideNames = []) {tool : ProtocolTool}
    (hpage : answers 0 = .ok ⟨[tool], none⟩) (hwell : WellFormed compile tool) :
    (∃ chain, Discoverable compile config answers chain) ↔
      0 < config.maxPages ∧ 0 < config.maxTools := by
  rw [UInt64.lt_iff_toNat_lt, UInt64.lt_iff_toNat_lt, UInt64.toNat_zero]
  constructor
  · rintro ⟨chain, hchain⟩
    obtain ⟨hends, hpages, htools, -⟩ := hchain
    cases hends with
    | last h hnext =>
      rw [hpage] at h
      cases h
      exact ⟨hpages, htools⟩
    | next h hnext _ =>
      rw [hpage] at h
      cases h
      cases hnext
  · rintro ⟨hpages, htools⟩
    refine ⟨[⟨[tool], none⟩], .last hpage rfl, hpages, htools, List.nodup_nil, ?_, ?_, ?_⟩
    · simpa using hwell
    · simp
    · rw [hoverrides]
      exact fun _ h => absurd h List.not_mem_nil

theorem limits_of_discovers (h : Discovers compile session view config answers)
    (hready : Ready session view) : 0 < config.maxPages ∧ (config.overrideNames = [] → ∀ tool,
      answers 0 = .ok ⟨[tool], none⟩ → WellFormed compile tool → 0 < config.maxTools) := by
  refine ⟨(discover_asks hready).mp (h.asks hready), fun hoverrides tool hpage hwell => ?_⟩
  have hdone := exists_discover.mp (h.single hready hoverrides tool hpage hwell)
  exact ((discoverable_single hoverrides hpage hwell).mp hdone.2).2

theorem discovers_of_limits (h : Ready session view → 0 < config.maxPages ∧
    (config.overrideNames = [] → ∀ tool, answers 0 = .ok ⟨[tool], none⟩ →
      WellFormed compile tool → 0 < config.maxTools)) :
    Discovers compile session view config answers := by
  refine ⟨fun hready => (discover_asks hready).mpr (h hready).1, discover_bounded,
    exists_discover, fun set hset => ?_, fun hready hoverrides tool hpage hwell => ?_⟩
  · obtain ⟨chain, hchain, hlisted, -⟩ := discover_ok hset
    exact ⟨chain, hchain.ends, hlisted⟩
  · obtain ⟨hpages, htools⟩ := h hready
    exact exists_discover.mpr ⟨hready, (discoverable_single hoverrides hpage hwell).mpr
      ⟨hpages, htools hoverrides tool hpage hwell⟩⟩

/-- A configuration that starts from `new` keeps what discovery says. -/
theorem discovers_of_new (h : Built .new config) : Discovers compile session view config answers := by
  obtain ⟨hpages, htools⟩ := h.limits_pos (by decide) (by decide)
  exact discovers_of_limits fun _ => ⟨hpages, fun _ _ _ _ => htools⟩

variable (compile session view config answers) in
/-- **Discovery does what it says exactly when it may ask for a page and, where no override is set
and the server has one page with one tool that maps, may accept a tool.** -/
theorem discovery_iff : Discovers compile session view config answers ↔
    (Ready session view → 0 < config.maxPages ∧ (config.overrideNames = [] → ∀ tool,
      answers 0 = .ok ⟨[tool], none⟩ → WellFormed compile tool → 0 < config.maxTools)) :=
  ⟨limits_of_discovers, discovers_of_limits⟩

/-- The default configuration, on a server with one page and one tool. -/
theorem default_discovers_nothing : Constructible .default ∧
    ∃ compile session view answers, Ready session view ∧
      (∃ tool, answers 0 = .ok ⟨[tool], none⟩ ∧ WellFormed compile tool) ∧
        ¬Discovers compile session view .default answers := by
  have hready : Ready ⟨⟨"s", by decide⟩, 0⟩ ⟨.active, false, some ⟨true⟩⟩ := ⟨rfl, _, rfl, rfl⟩
  refine ⟨.inr .start, fun _ => .ok fun _ => .ok (), _, _,
    fun _ => .ok ⟨[⟨"search", none, [], none⟩], none⟩, hready,
    ⟨_, rfl, ⟨by decide, nofun, _, rfl⟩⟩, fun h => ?_⟩
  have hpages := (discover_asks hready).mp (h.asks hready)
  exact absurd hpages (by decide)

end Discovery

end GroupAgent.Mcp
