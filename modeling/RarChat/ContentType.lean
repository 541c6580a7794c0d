import RarChat.Delivery

/-!
# What is framed, and what is kept of the rest

A response is framed when its `Content-Type` contains `text/event-stream`, and otherwise
its body is cut to 400 characters for the record.  Neither is what the media type of the
header asks for: a media type has no case, the text may stand in a parameter, and a body may
be longer.  `handledByMediaType_iff` says which responses are handled as their media type asks.
-/

namespace RarChat

open EarlyExit

/-! ## The media type -/

/-- The media type of a `Content-Type`: what stands before the parameters, in lower case. -/
def mediaType (contentType : String) : String :=
  let essence := trim (String.ofList (contentType.toList.takeWhile (· ≠ ';')))
  String.ofList (essence.toList.map Char.toLower)

/-- The `Content-Type` that a response is checked by. -/
def Response.header (resp : Response) : String := resp.contentType.getD ""

/-- The media type of a response is that of an event stream. -/
def Response.IsEventStream (resp : Response) : Prop :=
  mediaType resp.header = "text/event-stream"

instance (resp : Response) : Decidable resp.IsEventStream :=
  inferInstanceAs (Decidable (_ = _))

/-! ## Framing -/

variable (cfg : OpenAiConfig) (serde : SerdeJson) (messages : List Message)
variable (st : StreamState) (selectPolls now after : ℕ)

/-- What the read loop makes of a body. -/
def framedRun (body : BodyTrace) : AttemptRun :=
  let loop := readLoop cfg serde (ReadLoop.start st (now + after) selectPolls) body
  { post := cfg.post messages
    state := loop.state.st
    now := loop.state.now
    selectPolls := loop.state.selectPolls
    records := loop.records
    ended := loop.ended }

/-- **The body is framed**: the attempt is what the read loop makes of it. -/
def FramesBody (resp : Response) : Prop :=
  runAttempt cfg serde messages st selectPolls now (.response after resp) =
    framedRun cfg serde messages st selectPolls now after resp.stream

/-- A record of the attempt carries the whole of this body. -/
def KeepsBody (resp : Response) (body : String) : Prop :=
  ∃ contentType, .streamEnd st.streamId st.attempt (.notAnEventStream contentType body) 0 ∈
    (runAttempt cfg serde messages st selectPolls now (.response after resp)).records

/-- **Handled as the media type asks**: the body is framed exactly when the response is an
event stream, and a body that is not one is kept as it was read.  The source searches the
whole header for a lower-case text, parameters included, and keeps the first 400 characters
of a body; media types are compared without case, and end before the first `;`. -/
def HandledByMediaType (resp : Response) : Prop :=
  (FramesBody cfg serde messages st selectPolls now after resp ↔ resp.IsEventStream) ∧
    (¬resp.IsEventStream → ∀ readAfter body, resp.text = .text readAfter body →
      KeepsBody cfg serde messages st selectPolls now after resp body)

/-- No read loop ends with a body that is not an event stream. -/
theorem readLoop_ended_ne_notAnEventStream (s : ReadLoop) (body : BodyTrace)
    (contentType text : String) :
    (readLoop cfg serde s body).ended ≠ .wire (.notAnEventStream contentType text) := by
  cases hstop : (run (wakeupStep cfg serde) s body.wakeups).stop with
  | some e =>
      rw [readLoop_of_stop cfg serde hstop]
      apply run_stop_of_each (wakeupStep cfg serde) _ hstop
      intro s w e h
      rcases wakeupStep_stop_cases cfg serde h with ⟨resolution, rfl⟩ | rfl | rfl <;> simp
  | none =>
      rw [readLoop_of_running cfg serde hstop, LoopEnd.after]
      generalize (run (wakeupStep cfg serde) s body.wakeups).state = s'
      cases body.last with
      | cancelled after => simp [lastWait, LoopEnd.after, ReadLoop.endWire]
      | overallDeadline late => simp [lastWait, LoopEnd.after, ReadLoop.endWire]
      | stall late =>
          simp only [lastWait, LoopEnd.after, ReadLoop.endWire]
          split_ifs <;> simp
      | closed after => simp [lastWait, peerClosed]
      | transportError after detail => simp [lastWait, ReadLoop.endWire]

section

variable {cfg serde messages st selectPolls now after}

/-- An accepted response whose header does not contain the text is one record. -/
theorem runAttempt_of_otherType {resp : Response} (success : isSuccess resp.status = true)
    (other : contains resp.header "text/event-stream" = false) :
    runAttempt cfg serde messages st selectPolls now (.response after resp) =
      endUnframed (cfg.post messages) st selectPolls (resp.text.result cfg (now + after)).1
        (.notAnEventStream resp.header
          (String.ofList ((resp.text.result cfg (now + after)).2.toList.take 400))) := by
  rw [Response.header] at other ⊢
  simp [runAttempt, success, other]

/-- **What is framed** is every accepted response whose header contains the text. -/
theorem framesBody_iff {resp : Response} (success : isSuccess resp.status = true) :
    FramesBody cfg serde messages st selectPolls now after resp ↔
      contains resp.header "text/event-stream" = true := by
  constructor
  · intro hframes
    by_contra hother
    have hended := congrArg AttemptRun.ended hframes
    rw [runAttempt_of_otherType success (Bool.eq_false_iff.mpr hother)] at hended
    exact readLoop_ended_ne_notAnEventStream cfg serde _ _ _ _ hended.symm
  · intro hcontains
    have hframed : (Wire.response after resp).framed = some (after, resp.stream) := by
      rw [Response.header] at hcontains
      simp [Wire.framed, success, hcontains]
    exact runAttempt_of_framed cfg serde hframed messages st selectPolls now

/-- **What is kept** of a body that is not framed. -/
theorem keepsBody_iff {resp : Response} (success : isSuccess resp.status = true)
    (other : contains resp.header "text/event-stream" = false) {readAfter : ℕ} {body : String}
    (read : resp.text = .text readAfter body) :
    KeepsBody cfg serde messages st selectPolls now after resp body ↔ body.length ≤ 400 := by
  unfold KeepsBody
  rw [runAttempt_of_otherType success other, read]
  simp only [endUnframed, TextRead.result, List.mem_singleton, EmissionRecord.streamEnd.injEq,
    StreamEndCause.notAnEventStream.injEq, true_and, and_true, exists_eq_left]
  constructor
  · intro hcut
    have hlength := congrArg String.length hcut
    rw [String.length_ofList, List.length_take] at hlength
    omega
  · intro hshort
    rw [List.take_of_length_le hshort, String.ofList_toList]

end

/-- A response of this type with this body. -/
def textResponse (contentType body : String) : Response :=
  ⟨200, some contentType, .text 0 body, ⟨[], .closed 0⟩⟩

end RarChat
