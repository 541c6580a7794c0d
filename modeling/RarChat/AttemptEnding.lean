import RarChat.Attempt
import RarChat.Delivery

/-!
# The ending of an attempt depends on its wire alone

When an attempt begins, which turn and which attempt of it this is, and what
earlier attempts counted make no difference to how it ends and to how long it
takes: two read loops that differ by a shift of the clock, with the same machine
and the same buffer, stay so (`ReadLoop.Shifted`).  `attemptEnding` and
`attemptDuration` are therefore functions of the wire, and the laws about turns
are stated with them.
-/

namespace RarChat

open EarlyExit

/-- The second loop runs `d` later than the first, and counts from elsewhere. -/
structure ReadLoop.Shifted (d : ℕ) (s s' : ReadLoop) : Prop where
  parser : s'.parser = s.parser
  machine : s'.st.machine = s.st.machine
  now : s'.now = s.now + d
  turnStart : s'.turnStart = s.turnStart + d
  lastReadAt : s'.lastReadAt = s.lastReadAt + d
  firstByteAt : s'.firstByteAt = s.firstByteAt.map (· + d)
  readSeq : s'.readSeq = s.readSeq
  emaBps : s'.emaBps = s.emaBps
  starvedDur : s'.starvedDur = s.starvedDur
  contentBytesThisSec : s'.contentBytesThisSec = s.contentBytesThisSec

/-- The outcomes leave loops shifted by `d`, in the same way. -/
abbrev LoopOutcome.Shifted (d : ℕ) (o o' : LoopOutcome) : Prop :=
  Outcome.Agrees (ReadLoop.Shifted d) (fun _ => (none : Option EmissionRecord))
    (fun _ => none) o o'

theorem LoopOutcome.shifted_of {d : ℕ} {o o' : LoopOutcome}
    (state : ReadLoop.Shifted d o.state o'.state) (stop : o.stop = o'.stop) :
    LoopOutcome.Shifted d o o' where
  state := state
  out := by rw [List.filterMap_none, List.filterMap_none]
  stop := stop

variable (cfg : OpenAiConfig) (serde : SerdeJson)

theorem endComplete_shifted {d : ℕ} {s s' : ReadLoop} (h : s.Shifted d s')
    (cause : StreamEndCause) (endCause : EndCause) :
    LoopOutcome.Shifted d (s.endComplete cause endCause).returned
      (s'.endComplete cause endCause).returned := by
  refine LoopOutcome.shifted_of { h with machine := rfl } ?_
  simp only [LoopEnd.returned, ReadLoop.endComplete, finalizeAttempt, h.machine]

theorem follow_shifted {d : ℕ} {s s' : ReadLoop} (h : s.Shifted d s') (gained : ℕ)
    (result : Except DriverFault FlowDirective) :
    LoopOutcome.Shifted d (s.follow gained result) (s'.follow gained result) := by
  unfold ReadLoop.follow
  split
  · refine LoopOutcome.shifted_of { h with contentBytesThisSec := ?_ } rfl
    simp only [h.contentBytesThisSec]
  all_goals exact endComplete_shifted h _ _

/-- What refining an installment gives does not depend on the stream's counters. -/
theorem onInstallment_shifted {st st' : StreamState} (same : st'.machine = st.machine)
    (seq seq' : ℕ) (payload : String) (status : InstallmentStatus) :
    let step := onInstallment serde st seq .data payload status
    let step' := onInstallment serde st' seq' .data payload status
    step'.state.machine = step.state.machine ∧ step'.result = step.result ∧
      step'.state.contentBytes - st'.contentBytes =
        step.state.contentBytes - st.contentBytes := by
  cases hrefined : refined serde payload with
  | error detail =>
      obtain ⟨n, hstep⟩ := onInstallment_of_error hrefined st seq status
      obtain ⟨n', hstep'⟩ := onInstallment_of_error hrefined st' seq' status
      simp only [hstep, hstep', same, Nat.sub_self, and_self]
  | ok norm =>
      simp only [onInstallment_of_ok hrefined, same, Nat.add_sub_cancel_left, and_self]

theorem frameStep_shifted {d : ℕ} (gap : ℕ) (s s' : ReadLoop) (ev : SseEvent)
    (h : s.Shifted d s') :
    LoopOutcome.Shifted d (frameStep serde gap s ev) (frameStep serde gap s' ev) := by
  cases hpayload : ev.payload with
  | undecodable raw error =>
      simp only [frameStep, hpayload]
      exact LoopOutcome.shifted_of { h with } rfl
  | comment text =>
      simp only [frameStep, hpayload]
      exact LoopOutcome.shifted_of { h with } rfl
  | data text =>
      have hstep := onInstallment_shifted serde h.machine (s.instSeq + 1)
        (s'.instSeq + 1) text .complete
      rw [frameStep_of_data serde hpayload, frameStep_of_data serde hpayload]
      generalize onInstallment serde s.st _ _ _ _ = step at hstep ⊢
      generalize onInstallment serde s'.st _ _ _ _ = step' at hstep ⊢
      obtain ⟨hmachine, hresult, hgained⟩ := hstep
      unfold ReadLoop.dataOutcome
      rw [hresult, hgained]
      refine Outcome.Agrees.after (follow_shifted ?_ _ _) (by simp)
      exact { h with machine := hmachine }

theorem readStep_shifted {d : ℕ} {s s' : ReadLoop} (h : s.Shifted d s')
    (after wallUnixMs : ℕ) (item : List UInt8) :
    LoopOutcome.Shifted d (readStep serde s after wallUnixMs item)
      (readStep serde s' after wallUnixMs item) := by
  have hpush : ReadLoop.Shifted d (s.afterPush (s.now + after) item)
      (s'.afterPush (s'.now + after) item) := by
    have hinstant : s'.now + after = s.now + after + d := by
      rw [h.now]
      omega
    refine { h with
      parser := ?_, now := hinstant, lastReadAt := hinstant, firstByteAt := ?_,
      readSeq := ?_ }
    · simp only [ReadLoop.afterPush, h.parser]
    · simp only [ReadLoop.afterPush, ReadLoop.beginRead, h.firstByteAt, hinstant]
      cases s.firstByteAt <;> rfl
    · simp only [ReadLoop.afterPush, ReadLoop.beginRead, h.readSeq]
  -- the instants are shifted, so the time between them is the same
  have hgap : s'.now + after - s'.lastReadAt = s.now + after - s.lastReadAt := by
    rw [h.now, h.lastReadAt]
    omega
  by_cases hlong : s.parser.limitBytes < (frameRest (s.parser.buf ++ item)).length
  · rw [readStep_of_overflow serde hlong,
      readStep_of_overflow serde (by rw [h.parser]; exact hlong)]
    refine LoopOutcome.shifted_of hpush ?_
    simp only [LoopEnd.returned, LoopEnd.after, ReadLoop.endWire, h.parser]
  · rw [readStep_of_fits serde hlong,
      readStep_of_fits serde (by rw [h.parser]; exact hlong), hgap, h.parser]
    exact Outcome.Agrees.after (run_agrees (frameStep_shifted serde _) hpush _) (by simp)

theorem tickStep_shifted {d : ℕ} {s s' : ReadLoop} (h : s.Shifted d s')
    (after activeStreams : ℕ) :
    LoopOutcome.Shifted d (tickStep cfg s after activeStreams)
      (tickStep cfg s' after activeStreams) := by
  have hinstant : s'.now + after = s.now + after + d := by
    rw [h.now]
    omega
  have hsince : s'.now + after - s'.turnStart = s.now + after - s.turnStart := by
    rw [hinstant, h.turnStart, Nat.add_sub_add_right]
  have hwoken : ReadLoop.Shifted d (s.wakeAt (s.now + after))
      (s'.wakeAt (s'.now + after)) := { h with now := hinstant }
  unfold tickStep
  rw [h.firstByteAt]
  cases s.firstByteAt with
  | none => exact LoopOutcome.shifted_of hwoken rfl
  | some fb =>
      have hwarm : s'.now + after - (fb + d) = s.now + after - fb := by
        rw [hinstant, Nat.add_sub_add_right]
      simp only [Option.map_some, hwarm, hsince, h.emaBps, h.contentBytesThisSec,
        h.starvedDur]
      split_ifs
      · exact LoopOutcome.shifted_of
          { hwoken with emaBps := rfl, starvedDur := rfl, contentBytesThisSec := rfl } rfl
      · exact LoopOutcome.shifted_of
          { hwoken with emaBps := rfl, starvedDur := rfl, contentBytesThisSec := rfl } rfl

theorem wakeupStep_shifted {d : ℕ} (s s' : ReadLoop) (w : Wakeup) (h : s.Shifted d s') :
    LoopOutcome.Shifted d (wakeupStep cfg serde s w) (wakeupStep cfg serde s' w) := by
  cases w with
  | tick after activeStreams => exact tickStep_shifted cfg h _ _
  | read after wallUnixMs item => exact readStep_shifted serde h _ _ _

theorem tailStep_shifted {d : ℕ} (s s' : ReadLoop) (ev : SseEvent)
    (h : s.Shifted d s') :
    LoopOutcome.Shifted d (tailStep serde s ev) (tailStep serde s' ev) := by
  unfold tailStep
  cases ev.payload with
  | undecodable raw error => exact LoopOutcome.shifted_of { h with } rfl
  | comment text => exact LoopOutcome.shifted_of { h with } rfl
  | data text =>
      have hstep := onInstallment_shifted serde h.machine (s.instSeq + 1)
        (s'.instSeq + 1) text .recoveredTail
      dsimp only at hstep ⊢
      generalize onInstallment serde s.st _ _ _ _ = step at hstep ⊢
      generalize onInstallment serde s'.st _ _ _ _ = step' at hstep ⊢
      have hmachine := hstep.1
      exact LoopOutcome.shifted_of { h with machine := hmachine } rfl

theorem peerClosed_shifted {d : ℕ} {s s' : ReadLoop} (h : s.Shifted d s') :
    (peerClosed serde s').ended = (peerClosed serde s).ended ∧
      (peerClosed serde s').state.now = (peerClosed serde s).state.now + d := by
  have htail := (run_agrees (tailStep_shifted serde) h
    s.parser.finishWithResidue.1).state
  simp only [peerClosed, finalizeAttempt, h.parser, htail.machine, htail.now, and_self]

/-- The instant and the verdict of the wait that leaves the loop are shifted. -/
theorem lastWait_shifted {d : ℕ} {s s' : ReadLoop} (h : s.Shifted d s')
    (last : WaitEnd) :
    (lastWait cfg serde s' last).ended = (lastWait cfg serde s last).ended ∧
      (lastWait cfg serde s' last).state.now =
        (lastWait cfg serde s last).state.now + d := by
  cases last with
  | cancelled after =>
      refine ⟨rfl, ?_⟩
      simp only [lastWait, LoopEnd.after, ReadLoop.endWire, ReadLoop.wakeAt, h.now]
      omega
  | overallDeadline late =>
      refine ⟨rfl, ?_⟩
      simp only [lastWait, LoopEnd.after, ReadLoop.endWire, ReadLoop.wakeAt,
        ReadLoop.overallRemaining, h.now, h.turnStart, Nat.add_sub_add_right]
      omega
  | stall late =>
      simp only [lastWait, LoopEnd.after, ReadLoop.endWire, ReadLoop.wakeAt,
        ReadLoop.stallDeadline, ReadLoop.stallWindow, h.now, h.lastReadAt, h.readSeq]
      exact ⟨trivial, by omega⟩
  | transportError after detail =>
      refine ⟨rfl, ?_⟩
      simp only [lastWait, ReadLoop.endWire, ReadLoop.wakeAt, h.now]
      omega
  | closed after =>
      refine peerClosed_shifted serde { h with now := ?_ }
      simp only [ReadLoop.wakeAt, h.now]
      omega

/-- **Shifted loops end alike**, and as much later. -/
theorem readLoop_shifted {d : ℕ} {s s' : ReadLoop} (h : s.Shifted d s')
    (body : BodyTrace) :
    (readLoop cfg serde s' body).ended = (readLoop cfg serde s body).ended ∧
      (readLoop cfg serde s' body).state.now =
        (readLoop cfg serde s body).state.now + d := by
  have hrun := run_agrees (wakeupStep_shifted cfg serde) h body.wakeups
  cases hstop : (run (wakeupStep cfg serde) s body.wakeups).stop with
  | some ended =>
      have hstop' := hrun.stop.symm.trans hstop
      rw [readLoop_of_stop cfg serde hstop, readLoop_of_stop cfg serde hstop']
      exact ⟨rfl, hrun.state.now⟩
  | none =>
      have hstop' := hrun.stop.symm.trans hstop
      rw [readLoop_of_running cfg serde hstop, readLoop_of_running cfg serde hstop']
      exact lastWait_shifted cfg serde hrun.state body.last

/-- A loop begun at `0`, and one begun at `now` with a fresh machine. -/
theorem ReadLoop.shifted_start {st : StreamState} (fresh : st.machine = StreamMachine.new)
    (after selectPolls now : ℕ) :
    ReadLoop.Shifted now (ReadLoop.start (StreamState.new 0) (0 + after) 0)
      (ReadLoop.start st (now + after) selectPolls) := by
  have hinstant : now + after = 0 + after + now := by omega
  exact ⟨rfl, fresh, hinstant, hinstant, hinstant, rfl, rfl, rfl, rfl, rfl⟩

/-! ## Endings and durations -/

/-- How an attempt on this wire ends. -/
def attemptEnding (wire : Wire) : AttemptEnd :=
  (runAttempt cfg serde [] (StreamState.new 0) 0 0 wire).ended

/-- How long an attempt on this wire takes. -/
def attemptDuration (wire : Wire) : ℕ :=
  (runAttempt cfg serde [] (StreamState.new 0) 0 0 wire).now

/-- **An attempt depends on its wire alone**: begun with a fresh machine in any
stream, at any instant, it ends as the wire says and takes as long as the wire
says. -/
theorem runAttempt_ending (messages : List Message) {st : StreamState}
    (fresh : st.machine = StreamMachine.new) (selectPolls now : ℕ) (wire : Wire) :
    (runAttempt cfg serde messages st selectPolls now wire).ended =
        attemptEnding cfg serde wire ∧
      (runAttempt cfg serde messages st selectPolls now wire).now =
        now + attemptDuration cfg serde wire := by
  unfold attemptEnding attemptDuration
  cases hframed : wire.framed with
  | some framed =>
      obtain ⟨after, body⟩ := framed
      obtain ⟨hended, hnow⟩ := readLoop_shifted cfg serde
        (ReadLoop.shifted_start fresh after selectPolls now) body
      rw [runAttempt_of_framed cfg serde hframed messages st selectPolls now,
        runAttempt_of_framed cfg serde hframed [] (StreamState.new 0) 0 0]
      exact ⟨hended, hnow.trans (Nat.add_comm _ _)⟩
  | none =>
      cases wire with
      | cancelled after => exact ⟨rfl, by simp [runAttempt, endUnframed]⟩
      | elapsed late =>
          exact ⟨rfl, by simp [runAttempt, endUnframed, Nat.add_assoc]⟩
      | connectError after detail => exact ⟨rfl, by simp [runAttempt, endUnframed]⟩
      | response after resp =>
          -- the text of a refusal takes its time from the instant it is asked for
          have hbody : ∀ instant instant', (resp.text.result cfg instant).2 =
              (resp.text.result cfg instant').2 := by
            intro instant instant'
            cases resp.text <;> rfl
          have hlater : (resp.text.result cfg (now + after)).1 =
              now + (resp.text.result cfg (0 + after)).1 := by
            cases resp.text <;> simp [TextRead.result, Nat.add_assoc]
          simp only [Wire.framed] at hframed
          simp only [runAttempt]
          split_ifs with hstatus hctype
          · exact ⟨by rw [endUnframed, endUnframed, hbody], hlater⟩
          · exact ⟨by rw [endUnframed, endUnframed, hbody], hlater⟩
          · simp [hstatus, hctype] at hframed

end RarChat
