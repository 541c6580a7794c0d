import RarChat.ReadLoop

/-!
# One attempt

`run_attempt`: the request is sent under the first-byte backstop, the response is
checked, and the body of an event stream goes to the read loop.  `Wire` is what
the other side of the connection, the clocks and the cancellation token do to one
attempt; `runAttempt` is a function of it.
-/

namespace RarChat

open EarlyExit

/-! ## Inputs -/

/-- Reading the whole body as text, under the stall timeout. -/
inductive TextRead
  | text (after : ℕ) (body : String)
  | failed (after : ℕ)
  | elapsed (late : ℕ)
deriving DecidableEq, Repr

/-- A response: its status, its `Content-Type` if that is visible text, and its
body, which is read as text or as a stream. -/
structure Response where
  status : ℕ
  contentType : Option String
  text : TextRead
  stream : BodyTrace
deriving DecidableEq, Repr

/-- What sending the request comes to, and what follows. -/
inductive Wire
  | cancelled (after : ℕ)
  | elapsed (late : ℕ)
  | connectError (after : ℕ) (detail : String)
  | response (after : ℕ) (resp : Response)
deriving DecidableEq, Repr

/-! ## The attempt -/

/-- What one call of `run_attempt` sends, emits and leaves. -/
structure AttemptRun where
  post : Post
  state : StreamState
  now : ℕ
  selectPolls : ℕ
  records : List EmissionRecord
  ended : AttemptEnd
deriving DecidableEq, Repr

/-- `StatusCode::is_success`. -/
def isSuccess (status : ℕ) : Bool := 200 ≤ status && status < 300

/-- `str::contains`. -/
def contains (text part : String) : Bool := part.toList <:+: text.toList

/-- The body text that a record carries, and the instant it is there. -/
def TextRead.result (cfg : OpenAiConfig) (now : ℕ) : TextRead → ℕ × String
  | .text after body => (now + after, body)
  | .failed after => (now + after, "")
  | .elapsed late => (now + cfg.stallTimeout + late, "(body read timed out)")

variable (cfg : OpenAiConfig) (serde : SerdeJson)

/-- An attempt that ends before its body is framed. -/
def endUnframed (post : Post) (st : StreamState) (selectPolls now : ℕ)
    (cause : StreamEndCause) : AttemptRun where
  post := post
  state := st
  now := now
  selectPolls := selectPolls
  records := [.streamEnd st.streamId st.attempt cause 0]
  ended := .wire cause

def runAttempt (messages : List Message) (st : StreamState) (selectPolls now : ℕ) :
    Wire → AttemptRun
  | .cancelled after =>
      endUnframed (cfg.post messages) st selectPolls (now + after) .cancelled
  | .elapsed late =>
      endUnframed (cfg.post messages) st selectPolls
        (now + cfg.firstByteBackstop + late)
        (.firstByteBackstop (asSecs cfg.firstByteBackstop))
  | .connectError after detail =>
      endUnframed (cfg.post messages) st selectPolls (now + after)
        (.connectError detail)
  | .response after resp =>
      let instant := now + after
      let contentType := resp.contentType.getD ""
      if isSuccess resp.status = false then
        let body := resp.text.result cfg instant
        endUnframed (cfg.post messages) st selectPolls body.1
          (.httpError resp.status body.2)
      else if contains contentType "text/event-stream" = false then
        let body := resp.text.result cfg instant
        endUnframed (cfg.post messages) st selectPolls body.1
          (.notAnEventStream contentType (String.ofList (body.2.toList.take 400)))
      else
        let loop :=
          readLoop cfg serde (ReadLoop.start st instant selectPolls) resp.stream
        { post := cfg.post messages
          state := loop.state.st
          now := loop.state.now
          selectPolls := loop.state.selectPolls
          records := loop.records
          ended := loop.ended }

/-- The response of a wire whose body is framed. -/
def Wire.framed : Wire → Option (ℕ × BodyTrace)
  | .response after resp =>
      if isSuccess resp.status ∧
          contains (resp.contentType.getD "") "text/event-stream" then
        some (after, resp.stream)
      else none
  | _ => none

/-- **An attempt whose body is framed** is its read loop. -/
theorem runAttempt_of_framed {wire : Wire} {after : ℕ} {body : BodyTrace}
    (framed : wire.framed = some (after, body)) (messages : List Message)
    (st : StreamState) (selectPolls now : ℕ) :
    runAttempt cfg serde messages st selectPolls now wire =
      { post := cfg.post messages
        state := (readLoop cfg serde
          (ReadLoop.start st (now + after) selectPolls) body).state.st
        now := (readLoop cfg serde
          (ReadLoop.start st (now + after) selectPolls) body).state.now
        selectPolls := (readLoop cfg serde
          (ReadLoop.start st (now + after) selectPolls) body).state.selectPolls
        records := (readLoop cfg serde
          (ReadLoop.start st (now + after) selectPolls) body).records
        ended := (readLoop cfg serde
          (ReadLoop.start st (now + after) selectPolls) body).ended } := by
  cases wire with
  | cancelled after' => cases framed
  | elapsed late => cases framed
  | connectError after' detail => cases framed
  | response after' resp =>
      simp only [Wire.framed] at framed
      split_ifs at framed with h
      · obtain ⟨rfl, rfl⟩ : after' = after ∧ resp.stream = body := by
          simpa using framed
        simp [runAttempt, h.1, h.2]

/-- **An attempt whose body is not framed** emits one `StreamEnd` and leaves the
stream's state alone. -/
theorem runAttempt_of_unframed {wire : Wire} (unframed : wire.framed = none)
    (messages : List Message) (st : StreamState) (selectPolls now : ℕ) :
    ∃ instant cause,
      runAttempt cfg serde messages st selectPolls now wire =
        endUnframed (cfg.post messages) st selectPolls instant cause := by
  cases wire with
  | cancelled after => exact ⟨_, _, rfl⟩
  | elapsed late => exact ⟨_, _, rfl⟩
  | connectError after detail => exact ⟨_, _, rfl⟩
  | response after resp =>
      simp only [runAttempt]
      simp only [Wire.framed] at unframed
      split_ifs with hstatus hctype
      · exact ⟨_, _, rfl⟩
      · exact ⟨_, _, rfl⟩
      · simp [hstatus, hctype] at unframed

end RarChat
