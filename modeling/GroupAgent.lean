import GroupAgent.Lib.Effect
import GroupAgent.Lib.Guard
import GroupAgent.Lib.Method
import GroupAgent.Lib.Worklist
import GroupAgent.Lib.Canonical
import GroupAgent.Lib.Except
import GroupAgent.Lib.Blocks
import GroupAgent.Lib.Trail
import GroupAgent.Lib.Lineage
import GroupAgent.Lib.Keyed
import GroupAgent.Lib.Bytes
import GroupAgent.Lib.SortedMap
import GroupAgent.Lib.Lines
import GroupAgent.Lib.Runs
import GroupAgent.Core.Path
import GroupAgent.Core.Graph
import GroupAgent.Core.Error
import GroupAgent.Core.Transition
import GroupAgent.Core.Compile
import GroupAgent.Core.Flatten
import GroupAgent.Core.Placement
import GroupAgent.Core.Coactive
import GroupAgent.Core.Event
import GroupAgent.Core.Checkpoint
import GroupAgent.Core.Machine
import GroupAgent.Core.Runtime
import GroupAgent.Core.Resume
import GroupAgent.Core.Script
import GroupAgent.Core.Quiet
import GroupAgent.Core.Hops
import GroupAgent.Core.Advance
import GroupAgent.Core.Saving
import GroupAgent.Core.Loading
import GroupAgent.Core.Calls
import GroupAgent.Core.Durable
import GroupAgent.Core.Frontiers
import GroupAgent.Core.RoundTrip
import GroupAgent.Core.Atomic
import GroupAgent.Core.Ledger
import GroupAgent.Core.Store
import GroupAgent.Sqlite.Record
import GroupAgent.Sqlite.Tables
import GroupAgent.Sqlite.Store
import GroupAgent.Sqlite.History
import GroupAgent.Sqlite.Refine
import GroupAgent.Sqlite.Agree
import GroupAgent.Core.Program
import GroupAgent.Core.Flow
import GroupAgent.Core.Working
import GroupAgent.Core.Course
import GroupAgent.Core.Steady
import GroupAgent.Core.Sustained
import GroupAgent.Core.Openings
import GroupAgent.Core.Backed
import GroupAgent.Core.Counters
import GroupAgent.Core.Watched
import GroupAgent.Core.Scoping
import GroupAgent.Core.Budget
import GroupAgent.Core.Sights
import GroupAgent.Core.Deadlines
import GroupAgent.Model.Extensions
import GroupAgent.Model.Message
import GroupAgent.Model.Response
import GroupAgent.Model.Usage
import GroupAgent.Model.Serialize
import GroupAgent.Model.Schema
import GroupAgent.Model.Strict
import GroupAgent.Model.Request
import GroupAgent.Model.Stream
import GroupAgent.Model.Facade
import GroupAgent.Model.Collector
import GroupAgent.Model.Validating
import GroupAgent.Model.Fragments
import GroupAgent.Tool.Runtime
import GroupAgent.Tool.Batch
import GroupAgent.Tool.Schedule
import GroupAgent.Tool.Observers
import GroupAgent.Prebuilt.State
import GroupAgent.Prebuilt.Nodes
import GroupAgent.Prebuilt.Agent
import GroupAgent.Prebuilt.Turns
import GroupAgent.Core.Bench
import GroupAgent.Prebuilt.Rounds
import GroupAgent.Prebuilt.Approval
import GroupAgent.Prebuilt.Limits
import GroupAgent.Prebuilt.Transcript
import GroupAgent.Prebuilt.Outcome
import GroupAgent.Prebuilt.EventStream
import GroupAgent.Model.Snapshots
import GroupAgent.Genai.Mapping
import GroupAgent.Genai.Sse
import GroupAgent.Genai.Framing
import GroupAgent.Genai.Decode
import GroupAgent.Genai.Stream
import GroupAgent.Genai.Frames
import GroupAgent.Genai.Gather
import GroupAgent.Genai.Accept
import GroupAgent.Genai.Emission
import GroupAgent.Genai.Content
import GroupAgent.Genai.Complete
import GroupAgent.Genai.Reading
import GroupAgent.Genai.Chunked
import GroupAgent.Genai.Cutting
import GroupAgent.Genai.Encoding
import GroupAgent.Genai.Request
import GroupAgent.Genai.Wire
import GroupAgent.Genai.Returning
import GroupAgent.Lib.BinarySearch
import GroupAgent.Tool.Registry
import GroupAgent.Mcp.Config
import GroupAgent.Mcp.Session
import GroupAgent.Mcp.ToolSet
import GroupAgent.Mcp.Combining
import GroupAgent.Mcp.Discovery
import GroupAgent.Mcp.Child
import GroupAgent.Lib.Fairness
import GroupAgent.Mcp.Shutdown
import GroupAgent.Mcp.Closing
import GroupAgent.Mcp.Awaiting
import GroupAgent.Genai.Usage
import GroupAgent.Genai.Responses
import GroupAgent.Genai.Attribution
import GroupAgent.Genai.EventStream
import GroupAgent.Genai.Retained
import GroupAgent.Genai.Yielding
import GroupAgent.Genai.TextOnly
import GroupAgent.Lib.Code
import GroupAgent.Core.Rendering
import GroupAgent.Lib.Counted
import GroupAgent.Core.Decoded
import GroupAgent.Prebuilt.Composite
import GroupAgent.Core.Resolving
import GroupAgent.Core.Nesting
import GroupAgent.Model.Canonical
import GroupAgent.Model.Writing
import GroupAgent.Model.Contract
import GroupAgent.Lib.Parts
import GroupAgent.Core.Chaining
import GroupAgent.Core.Serial
import GroupAgent.Core.Caching
import GroupAgent.Lib.Follow
import GroupAgent.Core.Protocol
import GroupAgent.Core.Housing
import GroupAgent.Core.Telling
import GroupAgent.Core.Crossing
import GroupAgent.Core.Reporting
import GroupAgent.Core.Stream
import GroupAgent.Lib.Outcome
import GroupAgent.Core.Behaviour
import GroupAgent.Core.Determined
import GroupAgent.Core.Race
import GroupAgent.Core.Deterministic
import GroupAgent.Core.Equivalence
