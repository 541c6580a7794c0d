import RarChat.AttemptEnding
import RarChat.AttemptRecords
import RarChat.Library.LabelledRun

/-!
# An attempt in small steps

The read loop has passes within passes, and a `return` can leave all of them.  Seen
from outside it does few things: it notes something about the clocks, it takes in a
read, a frame or the peer's close (`Move`), and in the end it closes the attempt in one
of three ways (`Ends`).  Every call of `run_attempt` is a run of such moves followed by
such an end (`runAttempt_unfolds`), so that what holds of all attempts is shown once
for each move and once for each end.

The acts a run takes in are known beforehand: they are what the wire brings
(`wireActs`), whatever the stream, the instant and the attempt.
-/

namespace RarChat

open EarlyExit LabelledRun

/-! ## Moves -/

/-- What an attempt takes in: a read, a frame, or the peer's close. -/
inductive Act
  | read (item : List UInt8)
  | frame (status : InstallmentStatus) (ev : SseEvent)
  | close
deriving DecidableEq, Repr

/-- The frame of an act, if it is a complete one. -/
def Act.complete? : Act → Option SseEvent
  | .frame .complete ev => some ev
  | _ => none

/-- The bytes of an act, if it is a read. -/
def Act.item? : Act → Option (List UInt8)
  | .read item => some item
  | _ => none

/-- The frame of an act, complete or recovered. -/
def Act.frame? : Act → Option SseEvent
  | .frame _ ev => some ev
  | _ => none

/-- The record of a frame itself. -/
def ReadLoop.frameRecord (s : ReadLoop) (status : InstallmentStatus) (ev : SseEvent) :
    EmissionRecord :=
  match ev.payload with
  | .undecodable raw error => s.undecodable raw error
  | .comment text => s.installment ev .comment text status
  | .data text => s.installment ev .data text status

variable (cfg : OpenAiConfig) (serde : SerdeJson)

/-- The stream's state behind a frame. -/
def StreamState.refine (st : StreamState) (seq : ℕ) (status : InstallmentStatus)
    (ev : SseEvent) : StreamState :=
  match ev.payload with
  | .data text => (onInstallment serde st seq .data text status).state
  | _ => st

/-- What the handler emits about a frame. -/
def StreamState.refinement (st : StreamState) (seq : ℕ) (status : InstallmentStatus)
    (ev : SseEvent) : List EmissionRecord :=
  match ev.payload with
  | .data text => (onInstallment serde st seq .data text status).records
  | _ => []

/-- Where the span of the next installment starts: the tail does not touch it. -/
def ReadLoop.spanBehind (s : ReadLoop) : InstallmentStatus → ℕ
  | .complete => s.readSeq
  | .recoveredTail => s.spanStart

/-- The loop behind a frame, with the meter and the mark of the first one as given. -/
def ReadLoop.takeIn (s : ReadLoop) (status : InstallmentStatus) (ev : SseEvent)
    (ttft : Bool) (content : ℕ) : ReadLoop :=
  { s with
    st := s.st.refine serde (s.instSeq + 1) status ev
    instSeq := s.instSeq + 1
    spanStart := s.spanBehind status
    ttftEmitted := ttft
    contentBytesThisSec := content }

/-- **A small step of the read loop.** -/
inductive Move : ReadLoop → List Act → List EmissionRecord → ReadLoop → Prop
  | tick {s s' : ReadLoop} (ticked : s.Ticked s') (notes : List SchedNote) :
      Move s [] (notes.map (.scheduler s.st.streamId s.st.attempt)) s'
  | read (s : ReadLoop) (after wallUnixMs : ℕ) (item : List UInt8) :
      Move s [.read item] [s.readRecord (s.now + after) wallUnixMs item.length]
        (s.afterPush (s.now + after) item)
  | close (s : ReadLoop) (after : ℕ) :
      Move s [.close] [] (s.wakeAt (s.now + after))
  | frame (s : ReadLoop) (status : InstallmentStatus) (ev : SseEvent)
      (notes : List WireNote) (ttft : Bool) (content : ℕ) :
      Move s [.frame status ev]
        (s.frameRecord status ev ::
          (notes.map s.note ++ s.st.refinement serde (s.instSeq + 1) status ev))
        (s.takeIn serde status ev ttft content)

/-- Any number of small steps. -/
abbrev Moves : ReadLoop → List Act → List EmissionRecord → ReadLoop → Prop :=
  Run (Move serde)

variable {serde}

/-- A small step keeps to its attempt. -/
theorem Move.serves {stream : StreamId} {attempt : UInt32} {s s' : ReadLoop}
    {acts : List Act} {records : List EmissionRecord} (h : Move serde s acts records s')
    (serves : s.Serves stream attempt) : s'.Serves stream attempt := by
  cases h with
  | tick ticked notes =>
      obtain ⟨_, _, _, _, _, rfl⟩ := ticked
      exact serves
  | read after wallUnixMs item => exact serves
  | close after => exact serves
  | frame status ev notes ttft content =>
      cases hpayload : ev.payload with
      | data text =>
          have hkeeps := (onInstallment_keeps serde s.st (s.instSeq + 1) text status).1
          simp only [ReadLoop.Serves, ReadLoop.takeIn, StreamState.refine, hpayload]
          exact ⟨hkeeps.1.trans serves.1, hkeeps.2.trans serves.2⟩
      | comment text =>
          simp only [ReadLoop.Serves, ReadLoop.takeIn, StreamState.refine, hpayload]
          exact serves
      | undecodable raw error =>
          simp only [ReadLoop.Serves, ReadLoop.takeIn, StreamState.refine, hpayload]
          exact serves

/-- A run of small steps keeps to its attempt. -/
theorem Moves.serves {stream : StreamId} {attempt : UInt32} {s s' : ReadLoop}
    {acts : List Act} {records : List EmissionRecord} (h : Moves serde s acts records s')
    (serves : s.Serves stream attempt) : s'.Serves stream attempt :=
  Run.invariant (I := fun _ _ s' => s'.Serves stream attempt) serves
    (fun _ _ _ _ _ _ hserves move => Move.serves move hserves) h

/-- **What the handler emits about a frame**: notes, the events it was refined to, or the
error it was rejected with. -/
theorem refinement_cases {st : StreamState} {seq : ℕ} {status : InstallmentStatus}
    {ev : SseEvent} {r : EmissionRecord} (mem : r ∈ st.refinement serde seq status ev) :
    (∃ note, r = .wire st.streamId st.attempt note) ∨
      (∃ event, r = .normalizedEvent st.streamId st.attempt seq event) ∨
        ∃ detail, r = .normalizationError st.streamId st.attempt seq detail := by
  unfold StreamState.refinement at mem
  cases hpayload : ev.payload with
  | comment text => simp [hpayload] at mem
  | undecodable raw error => simp [hpayload] at mem
  | data text =>
      simp only [hpayload] at mem
      cases hrefined : refined serde text with
      | error detail =>
          obtain ⟨n, hstep⟩ := onInstallment_of_error hrefined st seq status
          rw [hstep, List.mem_singleton] at mem
          exact .inr (.inr ⟨detail, mem⟩)
      | ok norm =>
          rw [onInstallment_of_ok hrefined, List.mem_append, List.mem_map,
            List.mem_map] at mem
          rcases mem with ⟨ch, -, rfl⟩ | ⟨event, -, rfl⟩
          · exact .inl ⟨_, rfl⟩
          · exact .inr (.inl ⟨event, rfl⟩)

/-- Of the notes on a frame and of what the handler emits about it, nothing is observed
that hides notes, events and errors. -/
theorem filterMap_behind_frame {β : Type} {observe : EmissionRecord → Option β}
    (hidesNotes : ∀ stream attempt note, observe (.wire stream attempt note) = none)
    (hidesEvents : ∀ stream attempt seq event,
      observe (.normalizedEvent stream attempt seq event) = none)
    (hidesErrors : ∀ stream attempt seq detail,
      observe (.normalizationError stream attempt seq detail) = none)
    (s : ReadLoop) (notes : List WireNote) (status : InstallmentStatus) (ev : SseEvent) :
    (notes.map s.note ++ s.st.refinement serde (s.instSeq + 1) status ev).filterMap
      observe = [] := by
  refine List.filterMap_eq_nil_iff.mpr fun r hr => ?_
  rw [List.mem_append, List.mem_map] at hr
  rcases hr with ⟨note, -, rfl⟩ | hr
  · exact hidesNotes _ _ note
  · rcases refinement_cases hr with ⟨note, rfl⟩ | ⟨event, rfl⟩ | ⟨detail, rfl⟩
    · exact hidesNotes _ _ note
    · exact hidesEvents _ _ _ event
    · exact hidesErrors _ _ _ detail

variable (serde)

/-! ## Ends -/

/-- The cause a peer close is recorded under. -/
def ReadLoop.closeCause (s : ReadLoop) : StreamEndCause :=
  if s.st.sawAnyContent then .peerClosed else .closedWithNoContent

/-- The end behind the recovered tail, with what assembled into no frame. -/
def ReadLoop.endClosed (s : ReadLoop) (residue : List UInt8) : LoopEnd :=
  let fin := finalizeAttempt s.st .streamEnded
  ⟨{ s with st := fin.state },
    residueRecords s.st.streamId s.st.attempt residue ++
      s.streamEnd s.closeCause 0 :: fin.records ++ s.eofNote fin.resolution,
    .complete fin.resolution⟩

/-- Acts of the loop over the body that let it go on. -/
structure GoesOn (acts : List Act) : Prop where
  passing : ∀ ev, .frame .complete ev ∈ acts → frameVerdict serde ev = none
  whole : ∀ ev, .frame .recoveredTail ev ∉ acts
  unclosed : .close ∉ acts

/-- **How an attempt that has taken in `acts` ends**: on the wire, by its last frame,
or because the peer closed. -/
inductive Ends (s : ReadLoop) (acts : List Act) : LoopEnd → Prop
  | wire (cause : StreamEndCause) (goes : GoesOn serde acts) :
      Ends s acts (s.endWire cause)
  | stopped {acts' : List Act} {ev : SseEvent} {cause : StreamEndCause}
      {endCause : EndCause} (split : acts = acts' ++ [.frame .complete ev])
      (goes : GoesOn serde acts') (stops : frameVerdict serde ev = some (cause, endCause)) :
      Ends s acts (s.endComplete cause endCause)
  | closed {acts' : List Act} (tail : List SseEvent) (residue : List UInt8)
      (split : acts = acts' ++ .close :: tail.map (.frame .recoveredTail))
      (goes : GoesOn serde acts') : Ends s acts (s.endClosed residue)

variable {serde}

theorem GoesOn.nil : GoesOn serde [] := ⟨by simp, by simp, by simp⟩

theorem GoesOn.append {acts acts' : List Act} (h : GoesOn serde acts)
    (h' : GoesOn serde acts') : GoesOn serde (acts ++ acts') where
  passing := by
    intro ev hev
    rcases List.mem_append.mp hev with hev | hev
    · exact h.passing ev hev
    · exact h'.passing ev hev
  whole := by
    intro ev hev
    rcases List.mem_append.mp hev with hev | hev
    · exact h.whole ev hev
    · exact h'.whole ev hev
  unclosed := by
    intro hclose
    rcases List.mem_append.mp hclose with hclose | hclose
    · exact h.unclosed hclose
    · exact h'.unclosed hclose

theorem GoesOn.read (item : List UInt8) : GoesOn serde [.read item] :=
  ⟨by simp, by simp, by simp⟩

theorem GoesOn.frame {ev : SseEvent} (passes : frameVerdict serde ev = none) :
    GoesOn serde [.frame .complete ev] :=
  ⟨by simpa using passes, by simp, by simp⟩

/-- Acts that let the loop go on can come before the others. -/
theorem Ends.after {acts acts' : List Act} {s : ReadLoop} {e : LoopEnd}
    (goes : GoesOn serde acts) (h : Ends serde s acts' e) :
    Ends serde s (acts ++ acts') e := by
  cases h with
  | wire cause goes' => exact .wire cause (goes.append goes')
  | stopped split goes' stops =>
      refine .stopped ?_ (goes.append goes') stops
      rw [split, List.append_assoc]
  | closed tail residue split goes' =>
      refine .closed tail residue ?_ (goes.append goes')
      rw [split, List.append_assoc]

/-- An attempt that takes in the peer's close ends by it. -/
theorem Ends.of_close {s : ReadLoop} {acts : List Act} {e : LoopEnd}
    (h : Ends serde s acts e) (close : .close ∈ acts) : ∃ residue, e = s.endClosed residue := by
  cases h with
  | wire cause goes => exact absurd close goes.unclosed
  | stopped split goes stops =>
      rw [split, List.mem_append] at close
      rcases close with close | close
      · exact absurd close goes.unclosed
      · simp at close
  | closed tail residue split goes => exact ⟨residue, rfl⟩

/-! ## Passes in small steps -/

variable (serde)

/-- What a pass does, in small steps: it goes on, or it ends the attempt. -/
inductive Performs (s : ReadLoop) (acts : List Act) : LoopOutcome → Prop
  | running {records : List EmissionRecord} {s' : ReadLoop}
      (moves : Moves serde s acts records s') (goes : GoesOn serde acts) :
      Performs s acts ⟨s', records, none⟩
  | left {records : List EmissionRecord} {s' : ReadLoop} {e : LoopEnd}
      (moves : Moves serde s acts records s') (ends : Ends serde s' acts e) :
      Performs s acts (e.after records).returned

variable {serde}

/-- A pass behind one that goes on. -/
theorem Performs.trans {s : ReadLoop} {acts acts' : List Act} {o o' : LoopOutcome}
    (h : Performs serde s acts o) (running : o.stop = none)
    (h' : Performs serde o.state acts' o') :
    Performs serde s (acts ++ acts') (o'.after o.out) := by
  cases h with
  | left moves ends => cases running
  | running moves goes =>
      cases h' with
      | running moves' goes' => exact .running (moves.trans moves') (goes.append goes')
      | left moves' ends' =>
          have hleft := Performs.left (moves.trans moves') (ends'.after goes)
          simpa only [LoopEnd.after, LoopEnd.returned, Outcome.after,
            List.append_assoc] using hleft

variable (serde)

/-- A rejected payload has a verdict. -/
theorem frameVerdict_of_error {ev : SseEvent} {text detail : String}
    (payload : ev.payload = .data text) (rejected : refined serde text = .error detail) :
    frameVerdict serde ev = some (.handlerDirected "protocol_error", .handlerAbort) := by
  simp only [frameVerdict, payload, rejected]

/-- Of the accepted payloads, `[DONE]` has a verdict. -/
theorem frameVerdict_of_ok {ev : SseEvent} {text : String} {norm : Normalized}
    (payload : ev.payload = .data text) (ok : refined serde text = .ok norm) :
    frameVerdict serde ev =
      if .done ∈ norm.events then some (.doneSentinelConsumed, .streamEnded)
      else none := by
  simp only [frameVerdict, payload, ok]

/-- The notes on the timing of a data frame. -/
def ReadLoop.dataNotes (s : ReadLoop) (gap : ℕ) (ev : SseEvent) : List WireNote :=
  (if s.ttftEmitted then [] else [.ttft (asMillis (s.lastReadAt - s.turnStart))]) ++
    [.interReadGap (asMillis gap) ev.rawByteLen]

/-- A data frame is taken in before its directive is followed. -/
theorem moves_refinedTo {ev : SseEvent} {text : String}
    (payload : ev.payload = .data text) (gap : ℕ) (s : ReadLoop) (content : ℕ) :
    let step := onInstallment serde s.st (s.instSeq + 1) .data text .complete
    Moves serde s [.frame .complete ev] (s.dataRecords gap ev text step.records)
      { s.refinedTo step.state with contentBytesThisSec := content } := by
  intro step
  have hmove := @Move.frame serde s .complete ev (s.dataNotes gap ev) true
    content
  have hrecords : s.dataRecords gap ev text step.records =
      s.frameRecord .complete ev ::
        ((s.dataNotes gap ev).map s.note ++
          s.st.refinement serde (s.instSeq + 1) .complete ev) := by
    simp only [ReadLoop.dataRecords, ReadLoop.frameRecord, StreamState.refinement,
      ReadLoop.dataNotes, payload]
    cases s.ttftEmitted <;> rfl
  have hstate : { s.refinedTo step.state with contentBytesThisSec := content } =
      s.takeIn serde .complete ev true content := by
    simp only [ReadLoop.refinedTo, ReadLoop.takeIn, StreamState.refine, payload]
    rfl
  rw [hrecords, hstate]
  exact Run.single hmove

/-- **A pass over a frame** takes it in; if the frame has a verdict, that ends the
attempt. -/
theorem frameStep_performs (gap : ℕ) (s : ReadLoop) (ev : SseEvent) :
    Performs serde s [.frame .complete ev] (frameStep serde gap s ev) := by
  cases hpayload : ev.payload with
  | undecodable raw error =>
      have hmove := @Move.frame serde s .complete ev [] s.ttftEmitted
        s.contentBytesThisSec
      have hpasses : frameVerdict serde ev = none := by
        simp only [frameVerdict, hpayload]
      simp only [ReadLoop.frameRecord, StreamState.refinement, ReadLoop.takeIn,
        StreamState.refine, hpayload] at hmove
      simp only [frameStep, hpayload]
      exact .running (Run.single hmove) (.frame hpasses)
  | comment text =>
      have hmove := @Move.frame serde s .complete ev [.keepAliveComment]
        s.ttftEmitted s.contentBytesThisSec
      have hpasses : frameVerdict serde ev = none := by
        simp only [frameVerdict, hpayload]
      simp only [ReadLoop.frameRecord, StreamState.refinement, ReadLoop.takeIn,
        StreamState.refine, hpayload] at hmove
      simp only [frameStep, hpayload]
      exact .running (Run.single hmove) (.frame hpasses)
  | data text =>
      have hmoves := moves_refinedTo serde hpayload gap s
      rw [frameStep_of_data serde hpayload]
      cases hrefined : refined serde text with
      | error detail =>
          obtain ⟨n, hstep⟩ :=
            onInstallment_of_error hrefined s.st (s.instSeq + 1) .complete
          rw [hstep] at hmoves ⊢
          exact .left (hmoves s.contentBytesThisSec) (.stopped (List.nil_append _).symm
            .nil (frameVerdict_of_error serde hpayload hrefined))
      | ok norm =>
          have hstep := onInstallment_of_ok hrefined s.st (s.instSeq + 1) .complete
          have hverdict := frameVerdict_of_ok serde hpayload hrefined
          rw [hstep] at hmoves ⊢
          by_cases hdone : .done ∈ norm.events
          · simp only [hdone, if_true] at hmoves hverdict ⊢
            exact .left (hmoves s.contentBytesThisSec)
              (.stopped (List.nil_append _).symm .nil hverdict)
          · simp only [hdone, if_false] at hmoves hverdict ⊢
            simp only [ReadLoop.dataOutcome, ReadLoop.follow, Outcome.after,
              List.append_nil]
            exact .running (hmoves _) (.frame hverdict)

/-! ## What a body brings -/

/-- The frames up to the one that stops the attempt. -/
def framesUpTo : List SseEvent → List SseEvent
  | [] => []
  | ev :: rest =>
      ev :: if frameVerdict serde ev = none then framesUpTo rest else []

/-- The frames of a read that the attempt takes in: none if the rest of the buffer
overflows it. -/
def takenFrames (s : ReadLoop) (item : List UInt8) : List SseEvent :=
  if s.parser.limitBytes < (frameRest (s.parser.buf ++ item)).length then []
  else framesUpTo serde (frameEvents (s.parser.buf ++ item))

/-- The acts of a wakeup. -/
def wakeupActs (s : ReadLoop) : Wakeup → List Act
  | .tick _ _ => []
  | .read _ _ item =>
      .read item :: (takenFrames serde s item).map (.frame .complete)

/-- The acts behind a loop that was not left: a close, and the tail it recovers. -/
def ReadLoop.lastActs (s : ReadLoop) : WaitEnd → List Act
  | .closed _ => .close :: s.parser.finishWithResidue.1.map (.frame .recoveredTail)
  | _ => []

/-- The acts of a body. -/
def bodyActs (s : ReadLoop) (body : BodyTrace) : List Act :=
  gather (wakeupStep cfg serde) (wakeupActs serde) s body.wakeups ++
    if (run (wakeupStep cfg serde) s body.wakeups).stop = none then
      (run (wakeupStep cfg serde) s body.wakeups).state.lastActs body.last
    else []

/-- **The acts of an attempt on this wire**, whatever the stream and the instant. -/
def wireActs (wire : Wire) : List Act :=
  match wire.framed with
  | none => []
  | some (after, body) =>
      bodyActs cfg serde (ReadLoop.start (StreamState.new 0) (0 + after) 0) body

/-! ## The read loop in small steps -/

theorem run_frameStep_performs (gap : ℕ) (s : ReadLoop) (evs : List SseEvent) :
    Performs serde s ((framesUpTo serde evs).map (.frame .complete))
      (run (frameStep serde gap) s evs) := by
  induction evs generalizing s with
  | nil => exact .running .refl .nil
  | cons ev evs ih =>
      have hpass := frameStep_performs serde gap s ev
      have hrunning := frameStep_running_iff serde gap s ev
      cases hstop : (frameStep serde gap s ev).stop with
      | some ended =>
          have hverdict : frameVerdict serde ev ≠ none := fun h => by
            rw [hrunning.mpr h] at hstop
            cases hstop
          rw [run_cons_of_stop _ hstop, framesUpTo, if_neg hverdict]
          exact hpass
      | none =>
          rw [run_cons_of_running _ hstop, framesUpTo, if_pos (hrunning.mp hstop)]
          exact hpass.trans hstop (ih _)

theorem tickStep_performs (s : ReadLoop) (after activeStreams : ℕ) :
    Performs serde s [] (tickStep cfg s after activeStreams) := by
  obtain ⟨s', notes, hticked, hstep | hstep⟩ := tickStep_cases cfg s after activeStreams
  · rw [hstep]
    exact .running (Run.single (.tick hticked notes)) .nil
  · rw [hstep]
    exact .left (Run.single (.tick hticked notes)) (.wire _ .nil)

theorem wakeupStep_performs (s : ReadLoop) (w : Wakeup) :
    Performs serde s (wakeupActs serde s w) (wakeupStep cfg serde s w) := by
  cases w with
  | tick after activeStreams => exact tickStep_performs cfg serde s after activeStreams
  | read after wallUnixMs item =>
      have hread : Moves serde s [.read item] _ _ :=
        Run.single (.read s after wallUnixMs item)
      rw [wakeupStep, wakeupActs, takenFrames]
      by_cases hlong : s.parser.limitBytes < (frameRest (s.parser.buf ++ item)).length
      · rw [readStep_of_overflow serde hlong, if_pos hlong]
        exact .left hread (.wire _ (.read item))
      · rw [readStep_of_fits serde hlong, if_neg hlong]
        exact (Performs.running hread (.read item)).trans rfl
          (run_frameStep_performs serde _ _ _)

theorem run_wakeupStep_performs (s : ReadLoop) (wakeups : List Wakeup) :
    Performs serde s (gather (wakeupStep cfg serde) (wakeupActs serde) s wakeups)
      (run (wakeupStep cfg serde) s wakeups) := by
  induction wakeups generalizing s with
  | nil => exact .running .refl .nil
  | cons w wakeups ih =>
      have hpass := wakeupStep_performs cfg serde s w
      cases hstop : (wakeupStep cfg serde s w).stop with
      | some ended =>
          rw [run_cons_of_stop _ hstop, gather_cons_of_stop _ _ hstop]
          exact hpass
      | none =>
          rw [run_cons_of_running _ hstop, gather_cons_of_running _ _ hstop]
          exact hpass.trans hstop (ih _)

/-- A frame of the recovered tail is taken in. -/
theorem tailStep_moves (s : ReadLoop) (ev : SseEvent) :
    Moves serde s [.frame .recoveredTail ev] (tailStep serde s ev).out
      (tailStep serde s ev).state := by
  have hmove := @Move.frame serde s .recoveredTail ev [] s.ttftEmitted
    s.contentBytesThisSec
  unfold tailStep
  cases hpayload : ev.payload with
  | undecodable raw error =>
      simp only [ReadLoop.frameRecord, StreamState.refinement, ReadLoop.takeIn,
        StreamState.refine, hpayload] at hmove
      exact Run.single hmove
  | comment text =>
      simp only [ReadLoop.frameRecord, StreamState.refinement, ReadLoop.takeIn,
        StreamState.refine, hpayload] at hmove
      exact Run.single hmove
  | data text =>
      simp only [ReadLoop.frameRecord, StreamState.refinement, ReadLoop.takeIn,
        StreamState.refine, hpayload, List.map_nil, List.nil_append] at hmove
      exact Run.single hmove

theorem run_tailStep_moves (s : ReadLoop) (evs : List SseEvent) :
    Moves serde s (evs.map (.frame .recoveredTail)) (run (tailStep serde) s evs).out
      (run (tailStep serde) s evs).state := by
  induction evs generalizing s with
  | nil => exact .refl
  | cons ev evs ih =>
      rw [run_cons_of_running _ (tailStep_running serde s ev)]
      exact (tailStep_moves serde s ev).trans (ih _)

/-- **A peer close** takes the tail in and closes the attempt. -/
theorem peerClosed_performs (s : ReadLoop) (after : ℕ) :
    Performs serde s
      (.close :: s.parser.finishWithResidue.1.map (.frame .recoveredTail))
      (peerClosed serde (s.wakeAt (s.now + after))).returned := by
  have hmoves := (Run.single (@Move.close serde s after)).trans
    (run_tailStep_moves serde (s.wakeAt (s.now + after)) s.parser.finishWithResidue.1)
  have hkeeps := run_keeps (tailStep_keeps serde)
    (⟨rfl, rfl⟩ : (s.wakeAt (s.now + after)).Serves s.st.streamId s.st.attempt)
    s.parser.finishWithResidue.1
  have hend := Performs.left hmoves (.closed s.parser.finishWithResidue.1
    s.parser.finishWithResidue.2 (List.nil_append _).symm .nil)
  simp only [ReadLoop.endClosed, LoopEnd.after, hkeeps.1.1, hkeeps.1.2,
    List.nil_append] at hend
  simp only [peerClosed, List.append_assoc, List.cons_append] at hend ⊢
  exact hend

theorem lastWait_performs (s : ReadLoop) (last : WaitEnd) :
    Performs serde s (s.lastActs last) (lastWait cfg serde s last).returned := by
  have hwoken : ∀ instant, s.Ticked (s.wakeAt instant) := fun _ => ⟨_, _, _, _, _, rfl⟩
  cases last with
  | cancelled after =>
      exact .left (Run.single (.tick (hwoken _) [.selectWake "cancel"])) (.wire _ .nil)
  | overallDeadline late =>
      exact .left (Run.single (.tick (hwoken _) [.selectWake "overall_deadline"]))
        (.wire _ .nil)
  | stall late =>
      exact .left (Run.single (.tick (hwoken _) [.selectWake "stall"])) (.wire _ .nil)
  | closed after => exact peerClosed_performs serde s after
  | transportError after detail =>
      exact .left (Run.single (.tick (hwoken _) [])) (.wire _ .nil)

theorem readLoop_performs (s : ReadLoop) (body : BodyTrace) :
    Performs serde s (bodyActs cfg serde s body)
      (readLoop cfg serde s body).returned := by
  have hrun := run_wakeupStep_performs cfg serde s body.wakeups
  rw [readLoop_returned, bodyActs]
  cases hstop : (run (wakeupStep cfg serde) s body.wakeups).stop with
  | some ended =>
      rw [Outcome.andThen_of_stop hstop, if_neg (by simp), List.append_nil]
      exact hrun
  | none =>
      rw [Outcome.andThen_of_running hstop, if_pos rfl]
      exact hrun.trans hstop (lastWait_performs cfg serde _ _)

/-! ## The attempt in small steps -/

variable {serde}

/-- What a `return` performs is a run of moves and an end. -/
theorem Performs.of_returned {s : ReadLoop} {acts : List Act} {e : LoopEnd}
    (h : Performs serde s acts e.returned) :
    ∃ records s' e', Moves serde s acts records s' ∧ Ends serde s' acts e' ∧
      e = e'.after records := by
  generalize hreturned : e.returned = o at h
  cases h with
  | running moves goes => cases hreturned
  | @left records s' e' moves ends =>
      refine ⟨records, s', e', moves, ends, ?_⟩
      cases e
      simp only [LoopEnd.returned, Outcome.mk.injEq, Option.some.injEq] at hreturned
      obtain ⟨rfl, rfl, rfl⟩ := hreturned
      rfl

variable (serde)

/-- The acts of a body do not depend on the stream, the instant and the attempt. -/
theorem bodyActs_shifted {d : ℕ} {s s' : ReadLoop} (h : s.Shifted d s')
    (body : BodyTrace) : bodyActs cfg serde s' body = bodyActs cfg serde s body := by
  have hwakeup : ∀ s s' w, ReadLoop.Shifted d s s' →
      wakeupActs serde s w = wakeupActs serde s' w := by
    intro s s' w h
    cases w with
    | tick after activeStreams => rfl
    | read after wallUnixMs item => rw [wakeupActs, wakeupActs, takenFrames, takenFrames,
        h.parser]
  have hrun := run_agrees (wakeupStep_shifted cfg serde) h body.wakeups
  have hlast : ∀ s s' last, ReadLoop.Shifted d s s' →
      s.lastActs last = s'.lastActs last := by
    intro s s' last h
    cases last <;> simp only [ReadLoop.lastActs, h.parser]
  rw [bodyActs, bodyActs, ← gather_agrees (wakeupStep_shifted cfg serde) hwakeup h,
    hrun.stop, hlast _ _ _ hrun.state]

/-- **The attempt unfolds into small steps** that take in `acts`, and an end. -/
def AttemptRun.Unfolds (st : StreamState) (acts : List Act) (run : AttemptRun) : Prop :=
  ∃ instant selectPolls records s e,
    Moves serde (ReadLoop.start st instant selectPolls) acts records s ∧
      Ends serde s acts e ∧ run.records = records ++ e.records ∧ run.ended = e.ended ∧
        run.state = e.state.st

/-- **Every attempt unfolds into small steps**, which take in what its wire brings. -/
theorem runAttempt_unfolds (messages : List Message) {st : StreamState}
    (fresh : st.machine = StreamMachine.new) (selectPolls now : ℕ) (wire : Wire) :
    (runAttempt cfg serde messages st selectPolls now wire).Unfolds serde st
      (wireActs cfg serde wire) := by
  cases hframed : wire.framed with
  | none =>
      -- what is refused ends where it starts
      obtain ⟨instant, cause, hrun⟩ :=
        runAttempt_of_unframed cfg serde hframed messages st selectPolls now
      rw [hrun, wireActs, hframed]
      exact ⟨instant, selectPolls, [], _, _, .refl, .wire cause .nil, rfl, rfl, rfl⟩
  | some framed =>
      obtain ⟨after, body⟩ := framed
      have hstart : ReadLoop.Shifted now (ReadLoop.start (StreamState.new 0) (0 + after) 0)
          (ReadLoop.start st (now + after) selectPolls) :=
        ReadLoop.shifted_start fresh after selectPolls now
      obtain ⟨records, s', e, hmoves, hends, hloop⟩ :=
        (readLoop_performs cfg serde (ReadLoop.start st (now + after) selectPolls)
          body).of_returned
      rw [bodyActs_shifted cfg serde hstart] at hmoves hends
      rw [runAttempt_of_framed cfg serde hframed, wireActs, hframed, hloop]
      exact ⟨_, _, records, s', e, hmoves, hends, rfl, rfl, rfl⟩

/-! ## The acts of a read -/

theorem framesUpTo_isPrefix (evs : List SseEvent) : framesUpTo serde evs <+: evs := by
  induction evs with
  | nil => exact List.prefix_refl _
  | cons ev evs ih =>
      rw [framesUpTo]
      split_ifs
      · exact List.cons_prefix_cons.mpr ⟨rfl, ih⟩
      · exact List.cons_prefix_cons.mpr ⟨rfl, List.nil_prefix⟩

/-- A read brings no frames but those it completes. -/
theorem takenFrames_isPrefix (s : ReadLoop) (item : List UInt8) :
    takenFrames serde s item <+: frameEvents (s.parser.buf ++ item) := by
  unfold takenFrames
  split_ifs
  · exact List.nil_prefix
  · exact framesUpTo_isPrefix serde _

theorem framesUpTo_of_passing {evs : List SseEvent}
    (passing : ∀ ev ∈ evs, frameVerdict serde ev = none) (more : List SseEvent) :
    framesUpTo serde (evs ++ more) = evs ++ framesUpTo serde more := by
  induction evs with
  | nil => rfl
  | cons ev evs ih =>
      obtain ⟨hev, hevs⟩ := List.forall_mem_cons.mp passing
      rw [List.cons_append, framesUpTo, if_pos hev, ih hevs, List.cons_append]

theorem framesUpTo_eq_self {evs : List SseEvent}
    (passing : ∀ ev ∈ evs, frameVerdict serde ev = none) : framesUpTo serde evs = evs := by
  have hall := framesUpTo_of_passing serde passing []
  rwa [framesUpTo, List.append_nil] at hall

/-- **A read that lets the loop go on** is taken in whole: all frames that it completes,
and the rest into the buffer. -/
theorem wakeupStep_read_of_running {s : ReadLoop} {after wallUnixMs : ℕ}
    {item : List UInt8}
    (running : (wakeupStep cfg serde s (.read after wallUnixMs item)).stop = none) :
    takenFrames serde s item = frameEvents (s.parser.buf ++ item) ∧
      (wakeupStep cfg serde s (.read after wallUnixMs item)).state.parser.buf =
        frameRest (s.parser.buf ++ item) := by
  rw [wakeupStep] at running ⊢
  by_cases hlong : s.parser.limitBytes < (frameRest (s.parser.buf ++ item)).length
  · rw [readStep_of_overflow serde hlong] at running
    cases running
  · rw [readStep_of_fits serde hlong] at running ⊢
    rw [Outcome.after_stop, run_running_iff _ (frameStep_running_iff serde _)] at running
    rw [takenFrames, if_neg hlong, framesUpTo_eq_self serde running, Outcome.after_state,
      parser_run_frameStep]
    exact ⟨rfl, rfl⟩

/-- A tick leaves the buffer alone. -/
theorem parser_wakeupStep_tick (s : ReadLoop) (after activeStreams : ℕ) :
    (wakeupStep cfg serde s (.tick after activeStreams)).state.parser = s.parser := by
  obtain ⟨s', notes, ⟨_, _, _, _, _, rfl⟩, hstep | hstep⟩ :=
    tickStep_cases cfg s after activeStreams
  · rw [wakeupStep, hstep]
  · rw [wakeupStep, hstep]
    rfl

/-! ## The acts of an undisturbed body -/

theorem framesUpTo_of_stopping {evs : List SseEvent}
    (stopping : ¬∀ ev ∈ evs, frameVerdict serde ev = none) (more : List SseEvent) :
    framesUpTo serde (evs ++ more) = framesUpTo serde evs := by
  induction evs with
  | nil => simp at stopping
  | cons ev evs ih =>
      rw [List.cons_append, framesUpTo, framesUpTo]
      by_cases hev : frameVerdict serde ev = none
      · rw [if_pos hev, if_pos hev, ih fun hevs =>
          stopping (List.forall_mem_cons.mpr ⟨hev, hevs⟩)]
      · rw [if_neg hev, if_neg hev]

theorem filterMap_complete?_map (evs : List SseEvent) :
    (evs.map (Act.frame .complete)).filterMap Act.complete? = evs := by
  rw [List.filterMap_map]
  exact List.filterMap_some

/-- **Undisturbed wakeups** bring the complete frames of their bytes, up to the one that
stops the attempt. -/
theorem gather_wakeupActs_complete {s : ReadLoop}
    (between : frameRest s.parser.buf = s.parser.buf) {wakeups : List Wakeup}
    (quiet : Along (wakeupStep cfg serde) (Undisturbed cfg) s wakeups) :
    (gather (wakeupStep cfg serde) (wakeupActs serde) s wakeups).filterMap
        Act.complete? =
      framesUpTo serde (frameEvents (s.parser.buf ++ bodyBytes wakeups)) := by
  induction wakeups generalizing s with
  | nil =>
      rw [show bodyBytes [] = [] from rfl, List.append_nil, frameEvents_of_rest between]
      rfl
  | cons w wakeups ih =>
      obtain ⟨hw, hlater⟩ := (along_cons _ _ _ _ _).mp quiet
      cases w with
      | tick after activeStreams =>
          have hstop : (wakeupStep cfg serde s (.tick after activeStreams)).stop = none := hw
          have hparser := parser_wakeupStep_tick cfg serde s after activeStreams
          have hrest := ih (by rw [hparser, between]) (hlater hstop)
          rw [hparser] at hrest
          rw [gather_cons_of_running _ _ hstop, List.filterMap_append, hrest]
          rfl
      | read after wallUnixMs item =>
          obtain ⟨-, hparser⟩ := readStep_undisturbed serde hw after wallUnixMs
          have hfits : ¬s.parser.limitBytes <
              (frameRest (s.parser.buf ++ item)).length := fun h => by
            simp [Undisturbed, SseParser.push_eq, h, Except.isOk, Except.toBool] at hw
          have hsplit : s.parser.buf ++ bodyBytes (.read after wallUnixMs item ::
              wakeups) = (s.parser.buf ++ item) ++ bodyBytes wakeups := by
            simp [bodyBytes, Wakeup.item]
          have hrunning : (wakeupStep cfg serde s (.read after wallUnixMs item)).stop =
              none ↔ ∀ ev ∈ frameEvents (s.parser.buf ++ item),
                frameVerdict serde ev = none := by
            rw [wakeupStep, readStep_of_fits serde hfits, Outcome.after_stop]
            exact run_running_iff _ (frameStep_running_iff serde _) _ _
          have hacts : (wakeupActs serde s (.read after wallUnixMs item)).filterMap
              Act.complete? = framesUpTo serde (frameEvents (s.parser.buf ++ item)) := by
            rw [wakeupActs, takenFrames, if_neg hfits, List.filterMap_cons_none rfl,
              filterMap_complete?_map]
          rw [hsplit, frameEvents_append (s.parser.buf ++ item)]
          cases hstop : (wakeupStep cfg serde s (.read after wallUnixMs item)).stop with
          | some e =>
              -- what the later reads bring is not taken in
              rw [gather_cons_of_stop _ _ hstop, hacts, framesUpTo_of_stopping serde
                fun hall => by rw [hrunning.mpr hall] at hstop; cases hstop]
          | none =>
              have hstate : (wakeupStep cfg serde s
                  (.read after wallUnixMs item)).state.parser =
                    { s.parser with buf := frameRest (s.parser.buf ++ item) } := hparser
              have hrest := ih (by rw [hstate, frameRest_idem]) (hlater hstop)
              rw [hstate] at hrest
              rw [gather_cons_of_running _ _ hstop, List.filterMap_append, hacts, hrest,
                framesUpTo_of_passing serde (hrunning.mp hstop),
                framesUpTo_eq_self serde (hrunning.mp hstop)]

/-- **The complete frames an attempt takes in** on an undisturbed wire are those of the
bytes of its body, up to the one that stops it. -/
theorem wireActs_complete {wire : Wire} {after : ℕ} {body : BodyTrace}
    (framed : wire.framed = some (after, body))
    (quiet : Along (wakeupStep cfg serde) (Undisturbed cfg)
      (ReadLoop.start (StreamState.new 0) (0 + after) 0) body.wakeups) :
    (wireActs cfg serde wire).filterMap Act.complete? =
      framesUpTo serde (frameEvents (bodyBytes body.wakeups)) := by
  have hlast : ∀ (s : ReadLoop) last, (s.lastActs last).filterMap Act.complete? = [] := by
    intro s last
    rw [List.filterMap_eq_nil_iff]
    cases last <;> simp [ReadLoop.lastActs, Act.complete?]
  have hgather := gather_wakeupActs_complete cfg serde (s := ReadLoop.start
    (StreamState.new 0) (0 + after) 0) frameRest_nil quiet
  rw [wireActs, framed]
  simp only [bodyActs, List.filterMap_append]
  rw [hgather]
  split_ifs
  · rw [hlast, List.append_nil]
    rfl
  · rw [List.filterMap_nil, List.append_nil]
    rfl

end RarChat
