import TokimoBus.LabelledRuns
import TokimoBus.WrappingCounter
import TokimoBus.RequestTable
import TokimoBus.SlotLedger
import TokimoBus.Pipes
import TokimoBus.Lines
import TokimoBus.Fairness
import TokimoBus.Retrying
import TokimoBus.ChunkedStream
import TokimoBus.TaskLocal
import TokimoBus.BoundedStream
import TokimoBus.PaddedHex
import TokimoBus.DecimalText
import TokimoBus.MessagePack
import TokimoBus.Unpacking
import TokimoBus.Records
import TokimoBus.Frame
import TokimoBus.Outbound
import TokimoBus.Channel
import TokimoBus.Listening
import TokimoBus.Broker
import TokimoBus.Wire
import TokimoBus.Decoding
import TokimoBus.Codec
import TokimoBus.Slices
import TokimoBus.Truncation
import TokimoBus.Session
import TokimoBus.SessionFacts
import TokimoBus.Calls
import TokimoBus.Progress
import TokimoBus.Gate
import TokimoBus.Identity
import TokimoBus.Correlation
import TokimoBus.Teardown
import TokimoBus.Registrations
import TokimoBus.Replacement
import TokimoBus.Rounds
import TokimoBus.Subscriptions
import TokimoBus.Callable
import TokimoBus.Directory
import TokimoBus.Capabilities
import TokimoBus.Confinement
import TokimoBus.LocalServices
import TokimoBus.Admission
import TokimoBus.Tokens
import TokimoBus.Lockout
import TokimoBus.CallResults
import TokimoBus.Client
import TokimoBus.Addressing
import TokimoBus.ClientFacts
import TokimoBus.ClientCalls
import TokimoBus.ClientProgress
import TokimoBus.ClientTeardown
import TokimoBus.PendingTables
import TokimoBus.Shutdown
import TokimoBus.Idle
import TokimoBus.Writer
import TokimoBus.Supervisor
import TokimoBus.Config
import TokimoBus.Connecting
import TokimoBus.SupervisorFacts
import TokimoBus.SupervisorLock
import TokimoBus.SupervisorSpawns
import TokimoBus.Supervised
import TokimoBus.SupervisorLoops
import TokimoBus.SupervisorReplace
import TokimoBus.System
import TokimoBus.SystemStreams
import TokimoBus.Fanouts
import TokimoBus.Topics
import TokimoBus.SystemCalls
import TokimoBus.Deliveries
import TokimoBus.Enabled
import TokimoBus.Liveness
import TokimoBus.SupervisorLiveness
import TokimoBus.SupervisorPace
import TokimoBus.SystemProgress
import TokimoBus.EndToEnd
import TokimoBus.ByteStreams
import TokimoBus.Ambient
import TokimoBus.HttpRequests
import TokimoBus.Greeting
import TokimoBus.Conformance
import TokimoBus.Expected
import TokimoBus.Accounts
import TokimoBus.Answers
import TokimoBus.Nested
import TokimoBus.NestedFacts
import TokimoBus.NestedStreams
import TokimoBus.NestedHandlers
import TokimoBus.NestedProgress
import TokimoBus.Deadlock
