import RarChat.Driver

/-!
# The completion machine

The pure state machine of `machine.rs`, where it is decided whether a call
completed.  `feed` folds one event, `finalize` gives the verdict; what a whole
list of events leaves behind is read off the list: the text in order
(`feedAll_content`), the first finish reason (`feedAll_finishReason`).
-/

namespace RarChat

/-- Why the transport stopped feeding events. -/
inductive EndCause
  | streamEnded
  | handlerAbort
deriving DecidableEq, Repr

structure StreamMachine where
  content : String
  finishReason : Option String
  usage : Option (UInt32 × UInt32 × UInt32)
  sawDone : Bool
  anomalies : List String
deriving DecidableEq, Repr

namespace StreamMachine

def new : StreamMachine := ⟨"", none, none, false, []⟩

/-- Fold one event into the pending verdict. -/
def feed (m : StreamMachine) : DriverEvent → StreamMachine
  | .textDelta t =>
      { m with
        anomalies :=
          if m.finishReason.isSome then
            m.anomalies ++ ["text delta arrived after finish_reason"]
          else m.anomalies
        content := m.content ++ t }
  | .finish r =>
      match m.finishReason with
      | some prev =>
          { m with
            anomalies := m.anomalies ++
              [s!"second finish_reason '{r}' after '{prev}' — keeping the first"] }
      | none => { m with finishReason := some r }
  | .usage promptTokens completionTokens totalTokens =>
      { m with usage := some (promptTokens, completionTokens, totalTokens) }
  | .done => { m with sawDone := true }

/-- The verdict. -/
def finalize (m : StreamMachine) (cause : EndCause) :
    Except DriverFault ChatOutcome :=
  let partialChars := m.content.length
  match cause, m.finishReason with
  | .handlerAbort, _ => .error (.aborted partialChars)
  | .streamEnded, some finishReason => .ok ⟨m.content, finishReason, m.usage⟩
  | .streamEnded, none =>
      if partialChars = 0 then .error .emptyStream
      else .error (.truncated partialChars)

/-- Fold a list of events. -/
def feedAll (m : StreamMachine) (events : List DriverEvent) : StreamMachine :=
  events.foldl feed m

@[simp] theorem feedAll_nil (m : StreamMachine) : m.feedAll [] = m := rfl

@[simp] theorem feedAll_cons (m : StreamMachine) (e : DriverEvent)
    (events : List DriverEvent) :
    m.feedAll (e :: events) = (m.feed e).feedAll events := rfl

theorem feedAll_append (m : StreamMachine) (xs ys : List DriverEvent) :
    m.feedAll (xs ++ ys) = (m.feedAll xs).feedAll ys :=
  List.foldl_append

end StreamMachine

/-- The text an event carries. -/
def DriverEvent.text? : DriverEvent → Option String
  | .textDelta t => some t
  | _ => none

/-- The finish reason an event carries. -/
def DriverEvent.finish? : DriverEvent → Option String
  | .finish r => some r
  | _ => none

/-- The usage an event carries. -/
def DriverEvent.usage? : DriverEvent → Option (UInt32 × UInt32 × UInt32)
  | .usage promptTokens completionTokens totalTokens =>
      some (promptTokens, completionTokens, totalTokens)
  | _ => none

namespace StreamMachine

/-- INV-CHAT-05: the content is the text of the events, in order. -/
theorem feedAll_content (m : StreamMachine) (events : List DriverEvent) :
    (m.feedAll events).content =
      m.content ++ String.join (events.filterMap DriverEvent.text?) := by
  induction events generalizing m with
  | nil => simp
  | cons e events ih =>
      rw [feedAll_cons, ih, List.filterMap_cons]
      cases e with
      | textDelta t => simp [feed, DriverEvent.text?, String.append_assoc]
      | finish r => cases hf : m.finishReason <;> simp [feed, hf, DriverEvent.text?]
      | usage p c t => simp [feed, DriverEvent.text?]
      | done => simp [feed, DriverEvent.text?]

/-- The finish reason is the first one fed. -/
theorem feedAll_finishReason (m : StreamMachine) (events : List DriverEvent) :
    (m.feedAll events).finishReason =
      m.finishReason.or (events.filterMap DriverEvent.finish?).head? := by
  induction events generalizing m with
  | nil => simp
  | cons e events ih =>
      rw [feedAll_cons, ih, List.filterMap_cons]
      cases e with
      | textDelta t => simp [feed, DriverEvent.finish?]
      | finish r => cases hf : m.finishReason <;> simp [feed, hf, DriverEvent.finish?]
      | usage p c t => simp [feed, DriverEvent.finish?]
      | done => simp [feed, DriverEvent.finish?]

/-- The usage is the last one fed. -/
theorem feedAll_usage (m : StreamMachine) (events : List DriverEvent) :
    (m.feedAll events).usage =
      (events.filterMap DriverEvent.usage?).getLast?.or m.usage := by
  induction events generalizing m with
  | nil => simp
  | cons e events ih =>
      rw [feedAll_cons, ih, List.filterMap_cons]
      cases e with
      | textDelta t => simp [feed, DriverEvent.usage?]
      | finish r => cases hf : m.finishReason <;> simp [feed, hf, DriverEvent.usage?]
      | usage p c t =>
          simp only [feed, DriverEvent.usage?, List.getLast?_cons, Option.some_or]
          cases (events.filterMap DriverEvent.usage?).getLast? <;> rfl
      | done => simp [feed, DriverEvent.usage?]

/-- DEC-CHAT-05: until a finish reason comes, nothing is an anomaly. -/
theorem feedAll_anomalies_of_unfinished (m : StreamMachine) {events : List DriverEvent}
    (pending : m.finishReason = none)
    (none_fed : events.filterMap DriverEvent.finish? = []) :
    (m.feedAll events).anomalies = m.anomalies := by
  induction events generalizing m with
  | nil => rfl
  | cons e events ih =>
      rw [feedAll_cons]
      cases e with
      | textDelta t =>
          rw [ih (m.feed (.textDelta t)) pending none_fed]
          simp [feed, pending]
      | finish r => simp [DriverEvent.finish?] at none_fed
      | usage p c t => exact ih (m.feed (.usage p c t)) pending none_fed
      | done => exact ih (m.feed .done) pending none_fed

/-- DEC-CHAT-05: from then on, every text and every finish reason is one. -/
theorem feedAll_anomalies_of_finished (m : StreamMachine) (events : List DriverEvent)
    (finished : m.finishReason ≠ none) :
    (m.feedAll events).anomalies.length =
      m.anomalies.length + (events.filterMap DriverEvent.text?).length +
        (events.filterMap DriverEvent.finish?).length := by
  induction events generalizing m with
  | nil => rfl
  | cons e events ih =>
      obtain ⟨prev, hprev⟩ := Option.ne_none_iff_exists'.mp finished
      rw [feedAll_cons]
      cases e with
      | textDelta t =>
          rw [ih (m.feed (.textDelta t)) finished]
          simp only [feed, hprev, Option.isSome_some, if_true, DriverEvent.text?,
            DriverEvent.finish?, List.filterMap_cons, List.length_append, List.length_cons,
            List.length_nil]
          omega
      | finish r =>
          have hkept : (m.feed (.finish r)).finishReason ≠ none := by
            simp [feed, hprev]
          rw [ih (m.feed (.finish r)) hkept]
          simp only [feed, hprev, DriverEvent.text?, DriverEvent.finish?,
            List.filterMap_cons, List.length_append, List.length_cons, List.length_nil]
          omega
      | usage p c t => exact ih (m.feed (.usage p c t)) finished
      | done => exact ih (m.feed .done) finished

/-- The anomalies are what comes behind the first finish reason. -/
theorem feedAll_anomalies_of_first (m : StreamMachine) (pending : m.finishReason = none)
    {front : List DriverEvent} (none_fed : front.filterMap DriverEvent.finish? = [])
    (reason : String) (back : List DriverEvent) :
    (m.feedAll (front ++ .finish reason :: back)).anomalies.length =
      m.anomalies.length + (back.filterMap DriverEvent.text?).length +
        (back.filterMap DriverEvent.finish?).length := by
  have hpending : (m.feedAll front).finishReason = none := by
    rw [feedAll_finishReason, none_fed, pending]
    rfl
  have hfed : (m.feedAll front).feed (.finish reason) =
      { m.feedAll front with finishReason := some reason } := by
    simp only [feed, hpending]
  have hbehind := feedAll_anomalies_of_finished
    { m.feedAll front with finishReason := some reason } back (by simp)
  rw [feedAll_append, feedAll_cons, hfed, hbehind,
    feedAll_anomalies_of_unfinished m pending none_fed]

/-- A `[DONE]` leaves the verdict alone (DEC-CHAT-04). -/
theorem finalize_feed_done (m : StreamMachine) (cause : EndCause) :
    (m.feed .done).finalize cause = m.finalize cause := rfl

theorem finalize_handlerAbort (m : StreamMachine) :
    m.finalize .handlerAbort = .error (.aborted m.content.length) := rfl

/-- A stream that ended is never reported as aborted by the handler. -/
theorem finalize_streamEnded_ne_aborted (m : StreamMachine) (n : ℕ) :
    m.finalize .streamEnded ≠ .error (.aborted n) := by
  unfold finalize
  cases m.finishReason with
  | some r => simp
  | none =>
      by_cases hlen : m.content.length = 0 <;> simp [hlen]

/-- INV-CHAT-04: an ended stream commits exactly when a finish reason came. -/
theorem finalize_streamEnded_eq_ok_iff (m : StreamMachine) (o : ChatOutcome) :
    m.finalize .streamEnded = .ok o ↔
      ∃ r, m.finishReason = some r ∧ o = ⟨m.content, r, m.usage⟩ := by
  unfold finalize
  cases m.finishReason with
  | some r => simp [eq_comm]
  | none =>
      by_cases hlen : m.content.length = 0 <;> simp [hlen]

end StreamMachine

end RarChat
