import RarChat.Library.EarlyExit
import RarChat.Library.LabelledRun
import RarChat.Library.ReadBack
import RarChat.Library.AppendLog
import RarChat.Library.Cutter
import RarChat.Driver
import RarChat.Emission
import RarChat.Text
import RarChat.Accounting
import RarChat.AttemptEnding
import RarChat.AttemptRecords
import RarChat.ChoiceMerge
import RarChat.Deadline
import RarChat.Finalization
import RarChat.Library.Interleaving
import RarChat.MainLoop
import RarChat.RecoveredTail
import RarChat.SendBuckets
import RarChat.SmallSteps
import RarChat.Bookkeeping
import RarChat.Dialing
import RarChat.CommittedReply
import RarChat.FaultTypes
import RarChat.Reporting
import RarChat.Capture
import RarChat.History
import RarChat.Bus
import RarChat.Provenance
import RarChat.Sentinel
import RarChat.Clocks
import RarChat.Arming
import RarChat.Starvation
import RarChat.Metering
import RarChat.RetryUnits
import RarChat.EnvFile
import RarChat.Settings
import RarChat.Completion
import RarChat.Utf8
import RarChat.SseGrammar
import RarChat.SseComments
import RarChat.SseDecoding
import RarChat.Overflow
import RarChat.SseBound
import RarChat.EvalRun
import RarChat.Ticks
import RarChat.Precision
import RarChat.Channels
import RarChat.ContentType
import RarChat.EnvGrammar
import RarChat.EnvQuoting
import RarChat.JsonText
import RarChat.Serialize
import RarChat.CaptureSink
import RarChat.Replay
import RarChat.Session
import RarChat.Recovery
import RarChat.StreamTasks
import RarChat.ActiveStreams
import RarChat.Stress
import RarChat.Secrets
import RarChat.TerminalSink
import RarChat.Reply
import RarChat.ServedSession
import RarChat.SettingsFile
import RarChat.Latency
import RarChat.Ceiling
