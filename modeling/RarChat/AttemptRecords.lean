import RarChat.Delivery

/-!
# What an attempt emits

Every record that `run_attempt` emits carries the stream and the attempt it was
called for, and none of them is a ledger entry or a trailer: those are written
around the attempts of a turn (`runAttempt_records`).
-/

namespace RarChat

open EarlyExit

/-- A record of the given attempt, other than a ledger entry. -/
def EmissionRecord.OfAttempt (stream : StreamId) (attempt : UInt32) :
    EmissionRecord → Prop
  | .read s a _ _ _ _ _ => s = stream ∧ a = attempt
  | .installment s a _ _ _ _ _ _ _ => s = stream ∧ a = attempt
  | .normalizedEvent s a _ _ => s = stream ∧ a = attempt
  | .normalizationError s a _ _ => s = stream ∧ a = attempt
  | .undecodableInstallment s a _ _ _ _ => s = stream ∧ a = attempt
  | .residue s a _ _ => s = stream ∧ a = attempt
  | .streamEnd s a _ _ => s = stream ∧ a = attempt
  | .wire s a _ => s = stream ∧ a = attempt
  | .anomaly s a _ => s = stream ∧ a = attempt
  | .scheduler s a _ => s = stream ∧ a = attempt
  | .ledger _ _ _ => False
  | .turnTrailer _ _ _ _ _ _ _ _ _ _ => False
  | .captureDrop _ => False

/-- The loop works for the given attempt. -/
def ReadLoop.Serves (stream : StreamId) (attempt : UInt32) (s : ReadLoop) : Prop :=
  s.st.streamId = stream ∧ s.st.attempt = attempt

variable (cfg : OpenAiConfig) (serde : SerdeJson)
variable {stream : StreamId} {attempt : UInt32}

/-- A pass keeps to its attempt. -/
def KeepsAttempt (stream : StreamId) (attempt : UInt32) (state : ReadLoop)
    (records : List EmissionRecord) : Prop :=
  state.Serves stream attempt ∧ ∀ r ∈ records, r.OfAttempt stream attempt

theorem KeepsAttempt.append {s : ReadLoop} {xs ys : List EmissionRecord}
    (hx : ∀ r ∈ xs, r.OfAttempt stream attempt) (h : KeepsAttempt stream attempt s ys) :
    KeepsAttempt stream attempt s (xs ++ ys) := by
  refine ⟨h.1, fun r hr => ?_⟩
  rcases List.mem_append.mp hr with hr | hr
  · exact hx r hr
  · exact h.2 r hr

theorem onInstallment_keeps (st : StreamState) (seq : ℕ) (payload : String)
    (status : InstallmentStatus) :
    let step := onInstallment serde st seq .data payload status
    (step.state.streamId = st.streamId ∧ step.state.attempt = st.attempt) ∧
      ∀ r ∈ step.records, r.OfAttempt st.streamId st.attempt := by
  cases hrefined : refined serde payload with
  | error detail =>
      obtain ⟨n, hstep⟩ := onInstallment_of_error hrefined st seq status
      simp only [hstep, and_self, true_and, List.mem_singleton, forall_eq]
      exact ⟨rfl, rfl⟩
  | ok norm =>
      simp only [onInstallment_of_ok hrefined, and_self, true_and, List.mem_append,
        List.mem_map]
      rintro r (⟨ch, -, rfl⟩ | ⟨ev, -, rfl⟩) <;> exact ⟨rfl, rfl⟩

theorem finalizeAttempt_keeps (st : StreamState) (cause : EndCause) :
    ∀ r ∈ (finalizeAttempt st cause).records, r.OfAttempt st.streamId st.attempt := by
  simp only [finalizeAttempt, List.mem_map]
  rintro r ⟨note, -, rfl⟩
  exact ⟨rfl, rfl⟩

theorem endWire_keeps {s : ReadLoop} (h : s.Serves stream attempt)
    (cause : StreamEndCause) :
    KeepsAttempt stream attempt (s.endWire cause).state (s.endWire cause).records :=
  ⟨h, fun r hr => by obtain rfl := List.mem_singleton.mp hr; exact h⟩

theorem endComplete_keeps {s : ReadLoop} (h : s.Serves stream attempt)
    (cause : StreamEndCause) (endCause : EndCause) :
    KeepsAttempt stream attempt (s.endComplete cause endCause).state
      (s.endComplete cause endCause).records := by
  refine ⟨h, fun r hr => ?_⟩
  rcases List.mem_cons.mp hr with rfl | hr
  · exact h
  · have hfin := finalizeAttempt_keeps s.st endCause r hr
    rwa [h.1, h.2] at hfin

theorem follow_keeps {s : ReadLoop} (h : s.Serves stream attempt) (gained : ℕ)
    (result : Except DriverFault FlowDirective) :
    KeepsAttempt stream attempt (s.follow gained result).state
      (s.follow gained result).out := by
  unfold ReadLoop.follow
  split
  · exact ⟨h, by simp⟩
  all_goals exact endComplete_keeps h _ _

theorem dataRecords_keeps {s : ReadLoop} (h : s.Serves stream attempt) (gap : ℕ)
    (ev : SseEvent) (text : String) {refinement : List EmissionRecord}
    (hr : ∀ r ∈ refinement, r.OfAttempt stream attempt) :
    ∀ r ∈ s.dataRecords gap ev text refinement, r.OfAttempt stream attempt := by
  unfold ReadLoop.dataRecords
  intro r hmem
  rw [List.cons_append, List.mem_cons, List.mem_append, List.mem_cons] at hmem
  rcases hmem with rfl | hmem | rfl | hmem
  · exact h
  · cases hemitted : s.ttftEmitted with
    | true => simp [hemitted] at hmem
    | false =>
        obtain rfl : r = s.note (.ttft (asMillis (s.lastReadAt - s.turnStart))) := by
          simpa [hemitted] using hmem
        exact h
  · exact h
  · exact hr r hmem

theorem frameStep_keeps (gap : ℕ) (s : ReadLoop) (ev : SseEvent)
    (h : s.Serves stream attempt) :
    KeepsAttempt stream attempt (frameStep serde gap s ev).state
      (frameStep serde gap s ev).out := by
  cases hpayload : ev.payload with
  | undecodable raw error =>
      simp only [frameStep, hpayload]
      exact ⟨h, fun r hr => by obtain rfl := List.mem_singleton.mp hr; exact h⟩
  | comment text =>
      simp only [frameStep, hpayload]
      refine ⟨h, fun r hr => ?_⟩
      simp only [List.mem_cons, List.not_mem_nil, or_false] at hr
      rcases hr with rfl | rfl <;> exact h
  | data text =>
      have hstep := onInstallment_keeps serde s.st (s.instSeq + 1) text .complete
      rw [frameStep_of_data serde hpayload]
      generalize onInstallment serde s.st _ _ _ _ = step at hstep ⊢
      obtain ⟨⟨hstream, hattempt⟩, hrecords⟩ := hstep
      rw [h.1, h.2] at hrecords
      refine KeepsAttempt.append (dataRecords_keeps h gap ev text hrecords)
        (follow_keeps ?_ _ _)
      exact ⟨hstream.trans h.1, hattempt.trans h.2⟩

theorem tailStep_keeps (s : ReadLoop) (ev : SseEvent) (h : s.Serves stream attempt) :
    KeepsAttempt stream attempt (tailStep serde s ev).state
      (tailStep serde s ev).out := by
  unfold tailStep
  cases ev.payload with
  | undecodable raw error =>
      exact ⟨h, fun r hr => by obtain rfl := List.mem_singleton.mp hr; exact h⟩
  | comment text =>
      exact ⟨h, fun r hr => by obtain rfl := List.mem_singleton.mp hr; exact h⟩
  | data text =>
      have hstep := onInstallment_keeps serde s.st (s.instSeq + 1) text .recoveredTail
      dsimp only at hstep ⊢
      generalize onInstallment serde s.st _ _ _ _ = step at hstep ⊢
      obtain ⟨⟨hstream, hattempt⟩, hrecords⟩ := hstep
      rw [h.1, h.2] at hrecords
      refine ⟨⟨hstream.trans h.1, hattempt.trans h.2⟩, fun r hr => ?_⟩
      rcases List.mem_cons.mp hr with rfl | hr
      · exact h
      · exact hrecords r hr

/-- A run of passes that keep to an attempt keeps to it. -/
theorem run_keeps {ι : Type} {step : ReadLoop → ι → LoopOutcome}
    (each : ∀ s i, s.Serves stream attempt →
      KeepsAttempt stream attempt (step s i).state (step s i).out)
    {s : ReadLoop} (h : s.Serves stream attempt) (is : List ι) :
    KeepsAttempt stream attempt (run step s is).state (run step s is).out :=
  ⟨run_state_of_invariant step (fun s i hs => (each s i hs).1) h is,
    run_out_of_each step each h is⟩

theorem wakeupStep_keeps (s : ReadLoop) (w : Wakeup) (h : s.Serves stream attempt) :
    KeepsAttempt stream attempt (wakeupStep cfg serde s w).state
      (wakeupStep cfg serde s w).out := by
  cases w with
  | tick after activeStreams =>
      obtain ⟨s', notes, ⟨_, _, _, _, _, rfl⟩, hstep | hstep⟩ :=
        tickStep_cases cfg s after activeStreams
      all_goals
        have hnotes : ∀ r ∈ notes.map (EmissionRecord.scheduler s.st.streamId
            s.st.attempt), r.OfAttempt stream attempt := by
          rintro r hr
          obtain ⟨note, -, rfl⟩ := List.mem_map.mp hr
          exact h
        rw [wakeupStep, hstep]
      · exact ⟨h, hnotes⟩
      · exact KeepsAttempt.append hnotes (endWire_keeps h _)
  | read after wallUnixMs item =>
      have hread : ∀ r ∈ [s.readRecord (s.now + after) wallUnixMs item.length],
          r.OfAttempt stream attempt := by
        intro r hr
        obtain rfl := List.mem_singleton.mp hr
        exact h
      have hpushed : (s.afterPush (s.now + after) item).Serves stream attempt := h
      rw [wakeupStep]
      by_cases hlong : s.parser.limitBytes <
          (frameRest (s.parser.buf ++ item)).length
      · rw [readStep_of_overflow serde hlong]
        exact KeepsAttempt.append hread (endWire_keeps hpushed _)
      · rw [readStep_of_fits serde hlong]
        exact KeepsAttempt.append hread (run_keeps (frameStep_keeps serde _) hpushed _)

theorem peerClosed_keeps {s : ReadLoop} (h : s.Serves stream attempt) :
    KeepsAttempt stream attempt (peerClosed serde s).state
      (peerClosed serde s).records := by
  obtain ⟨hstate, htail⟩ :=
    run_keeps (tailStep_keeps serde) h s.parser.finishWithResidue.1
  refine ⟨hstate, fun r hr => ?_⟩
  simp only [peerClosed, List.mem_append, List.mem_cons] at hr
  rcases hr with (((hr | hr) | (rfl | hr)) | hr)
  · exact htail r hr
  · unfold residueRecords at hr
    split_ifs at hr
    · cases hr
    · obtain rfl := List.mem_singleton.mp hr
      exact h
  · exact hstate
  · have hfin := finalizeAttempt_keeps _ _ r hr
    rwa [hstate.1, hstate.2] at hfin
  · unfold ReadLoop.eofNote at hr
    split at hr
    · obtain rfl := List.mem_singleton.mp hr
      exact hstate
    · cases hr

theorem lastWait_keeps {s : ReadLoop} (h : s.Serves stream attempt) (last : WaitEnd) :
    KeepsAttempt stream attempt (lastWait cfg serde s last).state
      (lastWait cfg serde s last).records := by
  have hwake : ∀ arm, ∀ r ∈ [s.wake arm], r.OfAttempt stream attempt := by
    intro arm r hr
    obtain rfl := List.mem_singleton.mp hr
    exact h
  cases last with
  | cancelled after => exact KeepsAttempt.append (hwake _) (endWire_keeps h _)
  | overallDeadline late => exact KeepsAttempt.append (hwake _) (endWire_keeps h _)
  | stall late => exact KeepsAttempt.append (hwake _) (endWire_keeps h _)
  | closed after => exact peerClosed_keeps serde h
  | transportError after detail => exact endWire_keeps h _

/-- **The records of an attempt** carry its stream and number, and are neither
ledger entries nor trailers; the stream keeps both. -/
theorem runAttempt_records (messages : List Message) (st : StreamState)
    (selectPolls now : ℕ) (wire : Wire) :
    let attempted := runAttempt cfg serde messages st selectPolls now wire
    (attempted.state.streamId = st.streamId ∧ attempted.state.attempt = st.attempt) ∧
      ∀ r ∈ attempted.records, r.OfAttempt st.streamId st.attempt := by
  cases hframed : wire.framed with
  | none =>
      obtain ⟨instant, cause, hrun⟩ :=
        runAttempt_of_unframed cfg serde hframed messages st selectPolls now
      rw [hrun]
      refine ⟨⟨rfl, rfl⟩, fun r hr => ?_⟩
      obtain rfl := List.mem_singleton.mp hr
      exact ⟨rfl, rfl⟩
  | some framed =>
      obtain ⟨after, body⟩ := framed
      rw [runAttempt_of_framed cfg serde hframed messages st selectPolls now]
      have hstart : (ReadLoop.start st (now + after) selectPolls).Serves
          st.streamId st.attempt := ⟨rfl, rfl⟩
      have hrun := run_keeps (wakeupStep_keeps cfg serde) hstart body.wakeups
      cases hstop : (run (wakeupStep cfg serde)
          (ReadLoop.start st (now + after) selectPolls) body.wakeups).stop with
      | some ended =>
          rw [readLoop_of_stop cfg serde hstop]
          exact hrun
      | none =>
          rw [readLoop_of_running cfg serde hstop]
          exact KeepsAttempt.append hrun.2 (lastWait_keeps cfg serde hrun.1 body.last)

end RarChat
