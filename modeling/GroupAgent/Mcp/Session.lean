import GroupAgent.Mcp.Config

/-!
# MCP sessions

Model of `McpAdapterError` (`error.rs:66-71`) and of `McpClientSession` (`session.rs:34-36`, `peer`
and `call_tool` 419-456), up to its shutdown, of `crates/group-agent-mcp/src`. What rmcp and the
server do is a parameter where it matters.

* Clones of a session share one inner session, which `inner` names.
* `SessionView` is what the inner session reads at one moment: its state, whether its transport is
  closed and what the peer says of itself.
* An error has a kind, a source, and the server and the tool it is about, where they are known.

Out of scope: connecting. A session here is one that was initialized.
-/

namespace GroupAgent.Mcp

open GroupAgent.Lib GroupAgent.Model GroupAgent.Tool

/-! ## Errors -/

/-- `rmcp::ServiceError`. -/
inductive ServiceError where
  | transportSend (text : String)
  | transportClosed
  | unexpectedResponse
  | mcpError (text : String)
  | cancelled (reason : Option String)
  | timeout
  | other (text : String)

inductive McpProtocolDefinitionError where
  | taskExecutionRequired

inductive McpPaginationError where
  | cursorCycle
  | pageLimitExceeded
  | toolLimitExceeded
  | pageCountOverflow
  | toolCountOverflow

/-- `tokio::task::JoinError`: a task that panicked, or was aborted. -/
structure JoinError where
  text : String

/-- What an adapter error stems from. -/
inductive McpErrorSource where
  | config (source : McpConfigError)
  | definition (source : McpProtocolDefinitionError)
  | pagination (source : McpPaginationError)
  | registry (source : ToolRegistryError)
  | service (source : ServiceError)
  | join (source : JoinError)
  | process (text : String)

/-- Payload-safe MCP adapter error with an optional concrete source. -/
structure McpAdapterError where
  kind : McpAdapterErrorKind
  serverId : Option McpServerId
  toolName : Option ToolName
  source : Option McpErrorSource

namespace McpAdapterError

def new (kind : McpAdapterErrorKind) : McpAdapterError := ⟨kind, none, none, none⟩

def withSource (kind : McpAdapterErrorKind) (source : McpErrorSource) : McpAdapterError :=
  ⟨kind, none, none, some source⟩

def withServer (error : McpAdapterError) (serverId : McpServerId) : McpAdapterError :=
  { error with serverId := some serverId }

def withTool (error : McpAdapterError) (toolName : ToolName) : McpAdapterError :=
  { error with toolName := some toolName }

/-- `From<McpConfigError>`. -/
def ofConfig (source : McpConfigError) : McpAdapterError := withSource .invalidConfig (.config source)

end McpAdapterError

def serviceErrorKind : ServiceError → McpAdapterErrorKind
  | .transportSend _ => .transport
  | .transportClosed => .transport
  | .unexpectedResponse => .protocol
  | .mcpError _ => .protocol
  | .cancelled _ => .callFailed
  | .timeout => .callFailed
  | .other _ => .other

/-! ## The session -/

inductive SessionState where
  | active
  | closing
  | closed
  deriving DecidableEq, Repr

/-- What the server said of itself: whether it has tools. -/
structure ServerInfo where
  tools : Bool

structure SessionView where
  state : SessionState
  transportClosed : Bool
  peerInfo : Option ServerInfo

/-- A cheaply shared, initialized MCP client session. -/
structure McpClientSession where
  serverId : McpServerId
  inner : Nat

namespace McpClientSession

/-- The peer, while the session is active and its transport open. -/
def peer (session : McpClientSession) (view : SessionView) : Except McpAdapterError Unit :=
  if view.state ≠ .active then .error ((McpAdapterError.new .sessionClosed).withServer session.serverId)
  else if view.transportClosed then
    .error ((McpAdapterError.withSource .transport (.service .transportClosed)).withServer
      session.serverId)
  else .ok ()

/-- What `call_tool` sends. -/
structure CallToolRequestParams where
  name : String
  arguments : Option (List (String × Json))

/-- `call_tool`, up to the request of the peer. -/
def callTool (session : McpClientSession) (view : SessionView) (remoteName : String)
    (arguments : Json) : Except McpAdapterError CallToolRequestParams := do
  (validateRemoteName remoteName).mapError McpAdapterError.ofConfig
  session.peer view
  match arguments with
  | .object entries => pure ⟨remoteName, some entries⟩
  | .null => pure ⟨remoteName, none⟩
  | _ => throw ((McpAdapterError.new .protocol).withServer session.serverId)

/-- A request names the tool it was asked for. -/
theorem callTool_name {session : McpClientSession} {view : SessionView} {remoteName : String}
    {arguments : Json} {params : CallToolRequestParams}
    (h : session.callTool view remoteName arguments = .ok params) : params.name = remoteName := by
  obtain ⟨⟨⟩, -, h⟩ := bind_eq_ok.mp h
  obtain ⟨⟨⟩, -, h⟩ := bind_eq_ok.mp h
  split at h
  · cases h
    rfl
  · cases h
    rfl
  · cases h

end McpClientSession

end GroupAgent.Mcp
