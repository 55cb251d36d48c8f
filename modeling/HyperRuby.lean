import HyperRuby.Library.Search
import HyperRuby.Library.Run
import HyperRuby.Library.Emission
import HyperRuby.Library.Cuts
import HyperRuby.Library.Transition
import HyperRuby.Library.Ledger
import HyperRuby.Library.Reply
import HyperRuby.Library.Progress
import HyperRuby.Library.Fallible
import HyperRuby.Library.Settings
import HyperRuby.Library.Word
import HyperRuby.Library.BigEndian
import HyperRuby.Library.Hash
import HyperRuby.Framing.Bytes
import HyperRuby.Framing.LinesCodec
import HyperRuby.Framing.Framer
import HyperRuby.Framing.Session
import HyperRuby.Framing.Cursor
import HyperRuby.Framing.Containment
import HyperRuby.Framing.Reference
import HyperRuby.Framing.Drained
import HyperRuby.Framing.Chunking
import HyperRuby.Framing.RoundTrip
import HyperRuby.Framing.Delivered
import HyperRuby.Framing.Held
import HyperRuby.Framing.Oversize
import HyperRuby.Framing.InnerLoop
import HyperRuby.Framing.Arithmetic
import HyperRuby.Framing.Trace
import HyperRuby.Framing.Soundness
import HyperRuby.Framing.Reason
import HyperRuby.Proxy.Header
import HyperRuby.Proxy.Grammar
import HyperRuby.Proxy.Reading
import HyperRuby.Dispatch.State
import HyperRuby.Dispatch.Connection
import HyperRuby.Dispatch.System
import HyperRuby.Dispatch.Steps
import HyperRuby.Dispatch.Listeners
import HyperRuby.Dispatch.Interleaving
import HyperRuby.Dispatch.Door
import HyperRuby.Dispatch.Accounts
import HyperRuby.Dispatch.Credits
import HyperRuby.Dispatch.Admission
import HyperRuby.Dispatch.Conservation
import HyperRuby.Dispatch.Sweep
import HyperRuby.Dispatch.Backlog
import HyperRuby.Dispatch.Attempts
import HyperRuby.Dispatch.StopAndWait
import HyperRuby.Dispatch.Outstanding
import HyperRuby.Dispatch.Verdicts
import HyperRuby.Dispatch.Refinement
import HyperRuby.Dispatch.Provenance
import HyperRuby.Dispatch.Attribution
import HyperRuby.Dispatch.Footprint
import HyperRuby.Dispatch.Rest
import HyperRuby.Dispatch.Idle
import HyperRuby.Dispatch.Shutdown
import HyperRuby.SocketFile
import HyperRuby.Startup.Listeners
import HyperRuby.Startup.Failure
import HyperRuby.Startup.Configure
import HyperRuby.Worker.Calls
import HyperRuby.Worker.Schedule
import HyperRuby.Worker.NextItem
import HyperRuby.Worker.Stopping
import HyperRuby.Http.Message
import HyperRuby.Http.FillBuffer
import HyperRuby.Http.Handoff
import HyperRuby.Http.Steps
import HyperRuby.Http.Owners
import HyperRuby.Http.Exchange
import HyperRuby.Http.Frame
import HyperRuby.Http.Response
import HyperRuby.Http.ReadBack
import HyperRuby.Http.Accessors
import HyperRuby.Http.Truncated
import HyperRuby.Http.Shape
import HyperRuby.Http.Refusals
import HyperRuby.Http.Attended
import HyperRuby.Http.Waiters
import HyperRuby.Http.Completion
import HyperRuby.Http.Served
import HyperRuby.Http.Returns
import HyperRuby.Server.Machine
import HyperRuby.Server.Steps
import HyperRuby.Server.Views
import HyperRuby.Server.Overtaking
import HyperRuby.Server.Returns
import HyperRuby.Server.Process
import HyperRuby.Server.Stop
import HyperRuby.Server.Unanswered
