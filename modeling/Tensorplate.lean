import Tensorplate.Agent.Journal
import Tensorplate.Agent.LegacyReader
import Tensorplate.Agent.Model.AgentState
import Tensorplate.Agent.Model.Coordinator
import Tensorplate.Agent.Model.Recovery
import Tensorplate.Agent.Model.StateStore
import Tensorplate.Agent.Model.Writes
import Tensorplate.Agent.Recovery
import Tensorplate.Agent.Requests
import Tensorplate.Agent.Rollback
import Tensorplate.Agent.StateStore
import Tensorplate.Buffer.BufferManager
import Tensorplate.Buffer.Model.BufferManager
import Tensorplate.Buffer.Model.TensorView
import Tensorplate.Channel.Calls
import Tensorplate.Channel.Chunks
import Tensorplate.Channel.Kept
import Tensorplate.Channel.Model.Calls
import Tensorplate.Channel.Model.JobChannel
import Tensorplate.Channel.Model.ReleasedSessionKeys
import Tensorplate.Channel.Model.Threads
import Tensorplate.Channel.Outbox
import Tensorplate.Channel.OutboxRun
import Tensorplate.Channel.Queueing
import Tensorplate.Channel.ReleasedKeys
import Tensorplate.Channel.Sink
import Tensorplate.Channel.Told
import Tensorplate.Core.Error
import Tensorplate.Core.InferRequest
import Tensorplate.Core.InferResult
import Tensorplate.Core.Job
import Tensorplate.Core.JobEvent
import Tensorplate.Core.JobOrder
import Tensorplate.Core.Transcript
import Tensorplate.Http.Model.Message
import Tensorplate.Http.Model.Server
import Tensorplate.Http.Response
import Tensorplate.Http.Server
import Tensorplate.Lib.Base64
import Tensorplate.Lib.Bytes
import Tensorplate.Lib.Decimal
import Tensorplate.Lib.Except
import Tensorplate.Lib.Framing
import Tensorplate.Lib.Grouped
import Tensorplate.Lib.History
import Tensorplate.Lib.Json
import Tensorplate.Lib.JsonParser
import Tensorplate.Lib.KeyOrder
import Tensorplate.Lib.Linked
import Tensorplate.Lib.Pacing
import Tensorplate.Lib.Pending
import Tensorplate.Lib.Pointwise
import Tensorplate.Lib.Pool
import Tensorplate.Lib.Ring
import Tensorplate.Lib.Runs
import Tensorplate.Lib.Search
import Tensorplate.Lib.Split
import Tensorplate.Lib.Table
import Tensorplate.Lib.Utf8
import Tensorplate.Lib.Window
import Tensorplate.Lib.Word
import Tensorplate.Observability.Heartbeat
import Tensorplate.Observability.Model.Heartbeat
import Tensorplate.Observability.Model.Retention
import Tensorplate.Observability.Retention
import Tensorplate.Pipeline.Attendance
import Tensorplate.Pipeline.Frames
import Tensorplate.Pipeline.Outcomes
import Tensorplate.Pipeline.Sound
import Tensorplate.Platform.Loading
import Tensorplate.Platform.MemorySampler
import Tensorplate.Platform.Model.MemoryObservation
import Tensorplate.Platform.Model.MemorySampler
import Tensorplate.Platform.Model.Registry
import Tensorplate.Platform.Model.Row
import Tensorplate.Platform.Resolution
import Tensorplate.Protocol.ByteLexemes
import Tensorplate.Protocol.CanonicalForm
import Tensorplate.Protocol.CanonicalJson
import Tensorplate.Protocol.JsonNumbers
import Tensorplate.Protocol.Model.CanonicalJson
import Tensorplate.Protocol.Model.JsonNumbers
import Tensorplate.Protocol.Model.ObjectMembers
import Tensorplate.Protocol.ObjectMembers
import Tensorplate.Protocol.ValueScan
import Tensorplate.Scheduler.Accounts
import Tensorplate.Scheduler.FifoScheduler
import Tensorplate.Scheduler.Model.FifoScheduler
import Tensorplate.Scheduler.Tables
import Tensorplate.Sdk.Acts
import Tensorplate.Sdk.Begin
import Tensorplate.Sdk.Cancelling
import Tensorplate.Sdk.Gate
import Tensorplate.Sdk.Lock
import Tensorplate.Sdk.Model.Session
import Tensorplate.Sdk.Model.Tasks
import Tensorplate.Sdk.Open
import Tensorplate.Sdk.OpenRun
import Tensorplate.Sdk.Opening
import Tensorplate.Sdk.Order
import Tensorplate.Sdk.Pace
import Tensorplate.Sdk.Purse
import Tensorplate.Sdk.Reading
import Tensorplate.Sdk.Sends
import Tensorplate.Sdk.Writers
import Tensorplate.Serving.AsyncPolicy
import Tensorplate.Serving.Base64
import Tensorplate.Serving.Entries
import Tensorplate.Serving.Model.AsyncPolicy
import Tensorplate.Serving.Model.Base64
import Tensorplate.Serving.Model.Pipeline
import Tensorplate.Serving.Model.Router
import Tensorplate.Serving.Model.Serialization
import Tensorplate.Serving.Router
import Tensorplate.Serving.Serialization
import Tensorplate.Session.Calls
import Tensorplate.Session.Credits
import Tensorplate.Session.Machine
import Tensorplate.Session.Manager
import Tensorplate.Session.Model.Credits
import Tensorplate.Session.Model.Limits
import Tensorplate.Session.Model.Machine
import Tensorplate.Session.Model.Manager
import Tensorplate.Session.Model.OutputQueue
import Tensorplate.Session.Model.Slot
import Tensorplate.Session.Model.Timers
import Tensorplate.Session.Model.Tombstones
import Tensorplate.Session.OutputLine
import Tensorplate.Session.OutputOrder
import Tensorplate.Session.OutputQueue
import Tensorplate.Session.Slot
import Tensorplate.Session.Timers
import Tensorplate.Session.Usage
import Tensorplate.Sidecar.Calls
import Tensorplate.Sidecar.Changes
import Tensorplate.Sidecar.Closing
import Tensorplate.Sidecar.Codec
import Tensorplate.Sidecar.Continuity
import Tensorplate.Sidecar.FrameIo
import Tensorplate.Sidecar.Given
import Tensorplate.Sidecar.Jobs
import Tensorplate.Sidecar.Ledger
import Tensorplate.Sidecar.Lines
import Tensorplate.Sidecar.Model.Codec
import Tensorplate.Sidecar.Model.FrameIo
import Tensorplate.Sidecar.Model.JobObjects
import Tensorplate.Sidecar.Model.JobTable
import Tensorplate.Sidecar.Placement
import Tensorplate.Sidecar.Reading
import Tensorplate.Sidecar.Streams
import Tensorplate.Sidecar.Threads
import Tensorplate.Speech.Model.Output
import Tensorplate.Speech.Model.Resampler
import Tensorplate.Speech.Model.TranscriptCommitment
import Tensorplate.Speech.Model.VadPolicy
import Tensorplate.Speech.Resampler
import Tensorplate.Speech.Ring
import Tensorplate.Speech.TranscriptCommitment
import Tensorplate.Speech.Utterances
import Tensorplate.Speech.VadPolicy
import Tensorplate.Stream.Credit
import Tensorplate.Stream.Line
import Tensorplate.Stream.Model.Exchange
import Tensorplate.Stream.Model.Output
import Tensorplate.Stream.Notices
import Tensorplate.Stream.Output
import Tensorplate.Stream.Spending
import Tensorplate.Supervision.Model.Policy
import Tensorplate.Supervision.Model.Supervisor
import Tensorplate.Supervision.Policy
import Tensorplate.Supervision.Supervisor
