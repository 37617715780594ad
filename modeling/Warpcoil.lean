import Warpcoil.Library.BigEndian
import Warpcoil.Library.Incremental
import Warpcoil.Library.Emission
import Warpcoil.Library.Transition
import Warpcoil.Types
import Warpcoil.Value
import Warpcoil.Serialization
import Warpcoil.Parser
import Warpcoil.Decode
import Warpcoil.RoundTrip
import Warpcoil.Acceptance
import Warpcoil.BufferedWriter
import Warpcoil.SendOrder
import Warpcoil.Messages
import Warpcoil.Side
import Warpcoil.Conservation
import Warpcoil.RejectedValue
import Warpcoil.Custody
import Warpcoil.Uninterrupted
import Warpcoil.Calm
import Warpcoil.CalmStep
import Warpcoil.Trace
import Warpcoil.Pending
import Warpcoil.Serial
import Warpcoil.Regular
import Warpcoil.Failure
import Warpcoil.BeginParseValue
import Warpcoil.Completion
import Warpcoil.ZeroWidth
import Warpcoil.VariantIndex
import Warpcoil.Exclusive
import Warpcoil.RefusedArgument
import Warpcoil.Lockstep
import Warpcoil.Splitter
import Warpcoil.Waiters
import Warpcoil.Stranded
import Warpcoil.Library.RecordedBuffer
import Warpcoil.JavaScript
import Warpcoil.JavaScriptClient
import Warpcoil.Replies
import Warpcoil.Matching
import Warpcoil.Library.Cuts
import Warpcoil.ArrivalOrder
import Warpcoil.Dispatch
import Warpcoil.Dispatched
import Warpcoil.Owing
import Warpcoil.Sharing
import Warpcoil.FailedWrite
import Warpcoil.Tended
import Warpcoil.HostileInput
import Warpcoil.NestedSerialization
import Warpcoil.Library.Answering
import Warpcoil.JavaScriptParser
import Warpcoil.JavaScriptText
import Warpcoil.Library.Unicode
import Warpcoil.ReceivedArguments
import Warpcoil.JavaScriptReceiver
import Warpcoil.JavaScriptConnection
import Warpcoil.Library.Trichotomy
import Warpcoil.StructureOrder
import Warpcoil.Library.Writing
import Warpcoil.Library.Grounded
import Warpcoil.SharedCode
import Warpcoil.Library.Separated
import Warpcoil.StructureNames
import Warpcoil.StructureSet
import Warpcoil.ThenHandler
import Warpcoil.AsyncStreamAdaptor
import Warpcoil.FailedStream
import Warpcoil.Requests
import Warpcoil.Outgoing
import Warpcoil.Connection
import Warpcoil.Channel
import Warpcoil.SplitterUse
