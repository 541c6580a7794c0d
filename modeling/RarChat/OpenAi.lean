import RarChat.EventHandler

/-!
# The Driver's types

The data of `openai.rs`: the configuration of one endpoint, the request it is
sent, how an attempt and a turn end, and the fault a wire ending is reported as.

Durations and instants are natural numbers of nanoseconds; an instant is counted
from a fixed origin of the monotonic clock.
-/

namespace RarChat

/-! ## Durations -/

def nanosPerSec : ℕ := 1000000000

/-- `Duration::as_secs`. -/
def asSecs (d : ℕ) : ℕ := d / nanosPerSec

/-- `Duration::as_millis`. -/
def asMillis (d : ℕ) : ℕ := d / 1000000

/-! ## Configuration and request -/

structure OpenAiConfig where
  baseUrl : String
  apiKey : String
  model : String
  requestUsage : Bool
  stallTimeout : ℕ
  firstByteBackstop : ℕ
  overallDeadline : ℕ
  throughputFloorBps : ℕ
  throughputSustained : ℕ
  systemPrompt : Option String
deriving DecidableEq, Repr

structure Message where
  role : String
  content : String
deriving DecidableEq, Repr

structure StreamOptions where
  includeUsage : Bool
deriving DecidableEq, Repr

/-- The JSON body of a request. -/
structure ChatRequest where
  model : String
  messages : List Message
  stream : Bool
  streamOptions : Option StreamOptions
deriving DecidableEq, Repr

/-- A `POST` as it is handed to the HTTP client. -/
structure Post where
  url : String
  bearerAuth : String
  json : ChatRequest
deriving DecidableEq, Repr

/-- The request of every attempt of a turn. -/
def OpenAiConfig.post (cfg : OpenAiConfig) (messages : List Message) : Post where
  url := s!"{cfg.baseUrl}/chat/completions"
  bearerAuth := cfg.apiKey
  json :=
    { model := cfg.model
      messages := messages
      stream := true
      streamOptions := if cfg.requestUsage then some ⟨true⟩ else none }

/-! ## Endings -/

inductive TurnVerdict
  | committed (outcome : ChatOutcome)
  | failover (attemptsHere : UInt32)
  | failed (fault : DriverFault)
deriving DecidableEq, Repr

inductive AttemptEnd
  | complete (resolution : TurnResolution)
  | wire (cause : StreamEndCause)
deriving DecidableEq, Repr

/-- `impl Debug for StreamEndCause`, where `wireFault` uses it.  The directives
the Driver writes need no escaping. -/
def StreamEndCause.debug : StreamEndCause → String
  | .doneSentinelConsumed => "DoneSentinelConsumed"
  | .peerClosed => "PeerClosed"
  | .closedWithNoContent => "ClosedWithNoContent"
  | .handlerDirected directive =>
      "HandlerDirected \x7b directive: \"" ++ directive ++ "\" \x7d"
  | .multipleChoicesUnsupported n =>
      "MultipleChoicesUnsupported \x7b n: " ++ toString n ++ " \x7d"
  | _ => "Cancelled"

/-- The fault a wire ending is reported as. -/
def wireFault : StreamEndCause → DriverFault
  | .stallTimeout windowSecs => .stalled windowSecs
  | .firstByteBackstop windowSecs => .stalled windowSecs
  | .throughputStarved _ sustainedSecs => .stalled sustainedSecs
  | .overallDeadline limitSecs => .stalled limitSecs
  | .bufferOverflow limitBytes => .bufferOverflow limitBytes
  | .httpError status body => .protocol s!"HTTP {status}: {body}"
  | .notAnEventStream contentType bodyPrefix =>
      .protocol s!"not an event stream (Content-Type: {contentType}): {bodyPrefix}"
  | .connectError detail => .protocol detail
  | .transportError detail => .protocol detail
  | other => .protocol other.debug

/-- The verdict as the trailer records it. -/
def TurnVerdict.record : TurnVerdict → TurnVerdictRecord
  | .committed o => .committed o.finishReason o.content.length o.usage
  | .failover attemptsHere => .failoverDirected attemptsHere
  | .failed f => .failed f.display

/-- The fault an attempt leaves to the wire-fault strategy; a committed and a
cancelled attempt leave none. -/
def AttemptEnd.fault : AttemptEnd → Option DriverFault
  | .complete (.committed _) => none
  | .complete (.fault f) => some f
  | .wire cause => if cause = .cancelled then none else some (wireFault cause)

/-- The ending goes through the wire-fault strategy. -/
def AttemptEnd.Faulting (e : AttemptEnd) : Prop := e.fault.isSome = true

instance : DecidablePred AttemptEnd.Faulting := fun e =>
  inferInstanceAs (Decidable (e.fault.isSome = true))

end RarChat
