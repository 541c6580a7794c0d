import RarChat.Capture
import RarChat.Reporting
import RarChat.RetryLoop

/-!
# Replaying a capture

A capture is kept to be replayed: the events of an attempt are derived again from the
payloads of its installments, a fresh machine is fed with them, and the cause that the
stream ended with says what the machine is asked (`replayAttempt`).  The trailer of a turn
says which attempt was the last one, and whether the turn was directed elsewhere; nothing
else is asked of it (`replayTurn`).

Two facts carry the replay.  What the installments are refined to again is what was
recorded as refined (`executeTurn_rederived`), and an attempt that ends on the wire is
recorded under a cause that the machine is not asked about (`runAttempt_genuine`).  The
numbers of the attempts tell them apart, since an allowance is smaller than the number of
numbers.
-/

namespace RarChat

open EarlyExit LabelledRun

/-! ## The replay -/

/-- The payload of a data installment. -/
def EmissionRecord.payload? : EmissionRecord → Option String
  | .installment _ _ _ _ _ _ .data payload _ => some payload
  | _ => none

/-- The stream and the number of the attempt that emitted a record. -/
def EmissionRecord.attempted? : EmissionRecord → Option (StreamId × UInt32)
  | .read stream attempt _ _ _ _ _ => some (stream, attempt)
  | .installment stream attempt _ _ _ _ _ _ _ => some (stream, attempt)
  | .normalizedEvent stream attempt _ _ => some (stream, attempt)
  | .normalizationError stream attempt _ _ => some (stream, attempt)
  | .undecodableInstallment stream attempt _ _ _ _ => some (stream, attempt)
  | .residue stream attempt _ _ => some (stream, attempt)
  | .streamEnd stream attempt _ _ => some (stream, attempt)
  | .wire stream attempt _ => some (stream, attempt)
  | .anomaly stream attempt _ => some (stream, attempt)
  | .scheduler stream attempt _ => some (stream, attempt)
  | .ledger _ _ _ => none
  | .turnTrailer _ _ _ _ _ _ _ _ _ _ => none
  | .captureDrop _ => none

/-- How many attempts a trailer counts, and the verdict it closes the turn with. -/
def EmissionRecord.closing? : EmissionRecord → Option (UInt32 × TurnVerdictRecord)
  | .turnTrailer _ _ attempts verdict _ _ _ _ _ _ => some (attempts, verdict)
  | _ => none

/-- The records that an attempt emitted. -/
def attemptRecords (stream : StreamId) (attempt : UInt32)
    (records : List EmissionRecord) : List EmissionRecord :=
  records.filter fun r => r.attempted? = some (stream, attempt)

/-- How an attempt ended: the machine is asked, unless the end was on the wire. -/
def StreamEndCause.ending (m : StreamMachine) : StreamEndCause → AttemptEnd
  | .doneSentinelConsumed => .complete (m.resolve .streamEnded)
  | .peerClosed => .complete (m.resolve .streamEnded)
  | .closedWithNoContent => .complete (m.resolve .streamEnded)
  | .handlerDirected _ => .complete (m.resolve .handlerAbort)
  | cause => .wire cause

/-- The verdict on a turn that goes no further than this. -/
def AttemptEnd.verdict : AttemptEnd → TurnVerdict
  | .complete (.committed outcome) => .committed outcome
  | ended => .failed (ended.fault.getD (.protocol "cancelled"))

variable (cfg : OpenAiConfig) (serde : SerdeJson)

/-- The events that the installments are refined to. -/
def rederived (records : List EmissionRecord) : List DriverEvent :=
  (records.filterMap EmissionRecord.payload?).flatMap (payloadEvents serde)

/-- **An attempt replayed** from its records, if they say how it ended. -/
def replayAttempt (records : List EmissionRecord) : Option AttemptEnd :=
  (endCausesOf records).head?.map
    (StreamEndCause.ending (StreamMachine.new.feedAll (rederived serde records)))

/-- The verdict behind the last attempt, whose end may not be there. -/
def TurnVerdictRecord.replayed : TurnVerdictRecord → Option AttemptEnd → TurnVerdict
  | .failoverDirected afterAttempts, _ => .failover afterAttempts
  | _, some ended => ended.verdict
  -- an attempt that left no end was not admitted
  | _, none => .failed (.protocol "no send bucket available (admission denied)")

/-- **A turn replayed** from the records under its stream, if they say that it closed. -/
def replayTurn (stream : StreamId) (records : List EmissionRecord) : Option TurnVerdict :=
  (records.filterMap EmissionRecord.closing?).head?.map fun closing =>
    closing.2.replayed (replayAttempt serde (attemptRecords stream closing.1 records))

/-- What an event is recorded under: its stream, its attempt, and its installment. -/
abbrev EventMark := StreamId × UInt32 × ℕ

/-- A recorded event, under its mark. -/
def EmissionRecord.marked? : EmissionRecord → Option (EventMark × DriverEvent)
  | .normalizedEvent stream attempt seq event => some ((stream, attempt, seq), event)
  | _ => none

/-- What the payload of an installment is refined to again, under the mark of that
installment. -/
def EmissionRecord.remarked : EmissionRecord → List (EventMark × DriverEvent)
  | .installment stream attempt seq _ _ _ .data payload _ =>
      (payloadEvents serde payload).map fun event => ((stream, attempt, seq), event)
  | _ => []

/-- **Each recorded event is derived again** from the installment that it is recorded
under, and nothing else is. -/
def RederivesEach (records : List EmissionRecord) : Prop :=
  records.flatMap (EmissionRecord.remarked serde) =
    records.filterMap EmissionRecord.marked?

@[simp] theorem rederived_append (xs ys : List EmissionRecord) :
    rederived serde (xs ++ ys) = rederived serde xs ++ rederived serde ys := by
  simp only [rederived, List.filterMap_append, List.flatMap_append]

@[simp] theorem attemptRecords_append (stream : StreamId) (attempt : UInt32)
    (xs ys : List EmissionRecord) :
    attemptRecords stream attempt (xs ++ ys) =
      attemptRecords stream attempt xs ++ attemptRecords stream attempt ys :=
  List.filter_append ..

/-! ## Installments and events -/

variable {serde}

/-- Where nothing has a payload, nothing is derived. -/
theorem rederived_eq_nil {records : List EmissionRecord}
    (bare : ∀ r ∈ records, r.payload? = none) : rederived serde records = [] := by
  rw [rederived, List.filterMap_eq_nil_iff.mpr bare]
  rfl

theorem RederivesEach.append {xs ys : List EmissionRecord} (hx : RederivesEach serde xs)
    (hy : RederivesEach serde ys) : RederivesEach serde (xs ++ ys) := by
  unfold RederivesEach at hx hy ⊢
  rw [List.flatMap_append, List.filterMap_append, hx, hy]

/-- Records of neither kind. -/
theorem rederivesEach_of_bare {records : List EmissionRecord}
    (bare : ∀ r ∈ records, r.payload? = none ∧ r.event? = none) :
    RederivesEach serde records := by
  have hpayload : records.flatMap (EmissionRecord.remarked serde) = [] := by
    refine List.flatMap_eq_nil_iff.mpr fun r hr => ?_
    have hnone := (bare r hr).1
    unfold EmissionRecord.remarked
    split
    · cases hnone
    · rfl
  have hevent : records.filterMap EmissionRecord.marked? = [] := by
    refine List.filterMap_eq_nil_iff.mpr fun r hr => ?_
    have hnone := (bare r hr).2
    unfold EmissionRecord.marked?
    split
    · cases hnone
    · rfl
  rw [RederivesEach, hpayload, hevent]

/-- **A payload and what it is refined to** carry the same mark: both have the number that
the installment was given. -/
theorem rederivesEach_refinement (s : ReadLoop) (status : InstallmentStatus) (ev : SseEvent)
    {text : String} (payload : ev.payload = .data text) (notes : List WireNote) :
    RederivesEach serde (s.frameRecord status ev ::
      (notes.map s.note ++ s.st.refinement serde (s.instSeq + 1) status ev)) := by
  have hnotes : ∀ (records : List WireNote),
      (records.map s.note).flatMap (EmissionRecord.remarked serde) = [] ∧
        (records.map s.note).filterMap EmissionRecord.marked? = [] := by
    intro records
    exact ⟨List.flatMap_eq_nil_iff.mpr (by simp [ReadLoop.note, EmissionRecord.remarked]),
      filterMap_map_eq_nil (fun _ => rfl) _⟩
  have hframe : s.frameRecord status ev = s.installment ev .data text status := by
    unfold ReadLoop.frameRecord
    rw [payload]
  have hrefinement : s.st.refinement serde (s.instSeq + 1) status ev =
      (onInstallment serde s.st (s.instSeq + 1) .data text status).records := by
    unfold StreamState.refinement
    rw [payload]
  rw [RederivesEach, hframe, hrefinement, List.flatMap_cons, List.flatMap_append,
    List.filterMap_cons_none rfl, List.filterMap_append, (hnotes notes).1, (hnotes notes).2,
    List.nil_append, List.nil_append]
  cases hrefined : refined serde text with
  | error detail =>
      obtain ⟨n, hstep⟩ := onInstallment_of_error hrefined s.st (s.instSeq + 1) status
      have hnone := accepted_eq_none_iff.mpr ⟨detail, hrefined⟩
      rw [hstep]
      simp [ReadLoop.installment, EmissionRecord.remarked, EmissionRecord.marked?,
        payloadEvents, hnone]
  | ok norm =>
      have hsome := accepted_eq_some_iff.mpr hrefined
      rw [onInstallment_of_ok hrefined s.st (s.instSeq + 1) status]
      simp only [List.flatMap_append, List.filterMap_append, List.flatMap_map,
        List.filterMap_map]
      simp [ReadLoop.installment, EmissionRecord.remarked, EmissionRecord.marked?,
        payloadEvents, hsome, Function.comp_def]

/-- **A small step** records events under the installment they come from. -/
theorem Move.rederivesEach {s s' : ReadLoop} {acts : List Act}
    {records : List EmissionRecord} (h : Move serde s acts records s') :
    RederivesEach serde records := by
  cases h with
  | tick ticked notes =>
      refine rederivesEach_of_bare fun r hr => ?_
      obtain ⟨note, -, rfl⟩ := List.mem_map.mp hr
      exact ⟨rfl, rfl⟩
  | read after wallUnixMs item => rfl
  | close after => rfl
  | frame status ev notes ttft content =>
      cases hpayload : ev.payload with
      | data text => exact rederivesEach_refinement s status ev hpayload notes
      | comment text =>
          refine rederivesEach_of_bare fun r hr => ?_
          simp only [ReadLoop.frameRecord, StreamState.refinement, hpayload, List.append_nil,
            List.mem_cons, List.mem_map] at hr
          rcases hr with rfl | ⟨note, -, rfl⟩ <;> exact ⟨rfl, rfl⟩
      | undecodable raw error =>
          refine rederivesEach_of_bare fun r hr => ?_
          simp only [ReadLoop.frameRecord, StreamState.refinement, hpayload, List.append_nil,
            List.mem_cons, List.mem_map] at hr
          rcases hr with rfl | ⟨note, -, rfl⟩ <;> exact ⟨rfl, rfl⟩

/-- **A small step** records the payloads of what it takes in. -/
theorem Move.rederived {s s' : ReadLoop} {acts : List Act} {records : List EmissionRecord}
    (h : Move serde s acts records s') :
    rederived serde records = actEvents serde acts := by
  cases h with
  | tick ticked notes =>
      refine rederived_eq_nil fun r hr => ?_
      obtain ⟨note, -, rfl⟩ := List.mem_map.mp hr
      rfl
  | read after wallUnixMs item => rfl
  | close after => rfl
  | frame status ev notes ttft content =>
      have hbehind := @filterMap_behind_frame serde String EmissionRecord.payload?
        (fun _ _ _ => rfl) (fun _ _ _ _ => rfl) (fun _ _ _ _ => rfl) s notes status ev
      have hframe : actEvents serde [.frame status ev] = ev.events serde := by
        simp only [actEvents, Act.frame?, List.filterMap_cons, List.filterMap_nil,
          List.flatMap_cons, List.flatMap_nil, List.append_nil]
      rw [hframe, RarChat.rederived, List.filterMap_cons, hbehind]
      unfold ReadLoop.frameRecord SseEvent.events
      cases ev.payload with
      | data text => exact List.append_nil _
      | comment text => rfl
      | undecodable raw error => rfl

theorem Moves.rederived {s s' : ReadLoop} {acts : List Act} {records : List EmissionRecord}
    (h : Moves serde s acts records s') :
    rederived serde records = actEvents serde acts := by
  refine Run.invariant (I := fun acts records _ =>
    RarChat.rederived serde records = actEvents serde acts) rfl ?_ h
  intro acts records s acts' records' s' hearlier move
  rw [rederived_append, hearlier, Move.rederived move, actEvents_append]

/-- A payload belongs to an installment. -/
theorem installmentSeq_of_payload {r : EmissionRecord} (bare : r.installmentSeq? = none) :
    r.payload? = none := by
  cases r with
  | installment => cases bare
  | _ => rfl

theorem Ends.rederived {s : ReadLoop} {acts : List Act} {e : LoopEnd}
    (h : Ends serde s acts e) : rederived serde e.records = [] :=
  rederived_eq_nil fun r hr =>
    installmentSeq_of_payload (List.filterMap_eq_nil_iff.mp h.quiet.2.1 r hr)

/-- **The installments of an attempt** are refined to what it took in. -/
theorem AttemptRun.Unfolds.rederived {st : StreamState} {acts : List Act}
    {run : AttemptRun} (h : run.Unfolds serde st acts) :
    rederived serde run.records = actEvents serde acts := by
  obtain ⟨instant, selectPolls, records, s, e, hmoves, hends, hrecords, -, -⟩ := h
  rw [hrecords, rederived_append, hmoves.rederived, hends.rederived, List.append_nil]

theorem Moves.rederivesEach {s s' : ReadLoop} {acts : List Act}
    {records : List EmissionRecord} (h : Moves serde s acts records s') :
    RederivesEach serde records := by
  refine Run.invariant (I := fun _ records _ => RederivesEach serde records) rfl ?_ h
  intro acts records s acts' records' s' hearlier move
  exact hearlier.append (Move.rederivesEach move)

/-- An end has no payload and reports no event. -/
theorem Ends.rederivesEach {s : ReadLoop} {acts : List Act} {e : LoopEnd}
    (h : Ends serde s acts e) : RederivesEach serde e.records := by
  obtain ⟨-, hinstallments, hevents⟩ := h.quiet
  exact rederivesEach_of_bare fun r hr =>
    ⟨installmentSeq_of_payload (List.filterMap_eq_nil_iff.mp hinstallments r hr),
      List.filterMap_eq_nil_iff.mp hevents r hr⟩

theorem AttemptRun.Unfolds.rederivesEach {st : StreamState} {acts : List Act}
    {run : AttemptRun} (h : run.Unfolds serde st acts) : RederivesEach serde run.records := by
  obtain ⟨instant, selectPolls, records, s, e, hmoves, hends, hrecords, -, -⟩ := h
  rw [hrecords]
  exact hmoves.rederivesEach.append hends.rederivesEach

/-! ## Ends on the wire -/

/-- The end is no verdict of the machine, and its cause does not pass for one. -/
def AttemptEnd.Genuine (e : AttemptEnd) : Prop :=
  ∀ cause, e = .wire cause → ∀ m, cause.ending m = .wire cause

theorem genuine_complete (resolution : TurnResolution) :
    (AttemptEnd.complete resolution).Genuine := by
  intro cause hwire
  cases hwire

theorem genuine_wire {cause : StreamEndCause} (onWire : ∀ m, cause.ending m = .wire cause) :
    (AttemptEnd.wire cause).Genuine := by
  intro recorded hwire
  obtain rfl := AttemptEnd.wire.inj hwire
  exact onWire

theorem wakeupStep_genuine (s : ReadLoop) (w : Wakeup) (e : AttemptEnd)
    (stop : (wakeupStep cfg serde s w).stop = some e) : e.Genuine := by
  rcases wakeupStep_stop_cases cfg serde stop with ⟨resolution, rfl⟩ | rfl | rfl
  · exact genuine_complete resolution
  · exact genuine_wire fun _ => rfl
  · exact genuine_wire fun _ => rfl

theorem lastWait_genuine (s : ReadLoop) (last : WaitEnd) :
    (lastWait cfg serde s last).ended.Genuine := by
  cases last with
  | cancelled after => exact genuine_wire fun _ => rfl
  | overallDeadline late => exact genuine_wire fun _ => rfl
  | stall late =>
      by_cases hfirst : s.readSeq = 0
      · simp only [lastWait, hfirst, if_true]
        exact genuine_wire fun _ => rfl
      · simp only [lastWait, hfirst, if_false]
        exact genuine_wire fun _ => rfl
  | closed after => exact genuine_complete _
  | transportError after detail => exact genuine_wire fun _ => rfl

theorem endUnframed_genuine {post : Post} {st : StreamState} {selectPolls now : ℕ}
    {cause : StreamEndCause} (onWire : ∀ m, cause.ending m = .wire cause) :
    (endUnframed post st selectPolls now cause).ended.Genuine := genuine_wire onWire

variable (serde)

/-- **An attempt that ends on the wire** is recorded under a cause of its own. -/
theorem runAttempt_genuine (messages : List Message) (st : StreamState)
    (selectPolls now : ℕ) (wire : Wire) :
    (runAttempt cfg serde messages st selectPolls now wire).ended.Genuine := by
  cases hframed : wire.framed with
  | some framed =>
      obtain ⟨after, body⟩ := framed
      rw [runAttempt_of_framed cfg serde hframed]
      cases hstop : (run (wakeupStep cfg serde)
          (ReadLoop.start st (now + after) selectPolls) body.wakeups).stop with
      | some ended =>
          rw [readLoop_of_stop cfg serde hstop]
          exact run_stop_of_each (Q := AttemptEnd.Genuine) (wakeupStep cfg serde)
            (wakeupStep_genuine cfg) hstop
      | none =>
          rw [readLoop_of_running cfg serde hstop]
          exact lastWait_genuine cfg _ body.last
  | none =>
      cases wire with
      | cancelled after => exact endUnframed_genuine fun _ => rfl
      | elapsed late => exact endUnframed_genuine fun _ => rfl
      | connectError after detail => exact endUnframed_genuine fun _ => rfl
      | response after resp =>
          simp only [Wire.framed] at hframed
          simp only [runAttempt]
          split_ifs with hstatus hctype
          · exact endUnframed_genuine fun _ => rfl
          · exact endUnframed_genuine fun _ => rfl
          · simp [hstatus, hctype] at hframed

/-! ## Attempts -/

variable {serde}

/-- **How an end is recorded**: under one cause, which says what the machine is asked. -/
theorem Ends.replayed {s : ReadLoop} {acts : List Act} {e : LoopEnd}
    (h : Ends serde s acts e) (genuine : e.ended.Genuine) :
    ∃ cause, endCausesOf e.records = [cause] ∧ e.ended = cause.ending s.st.machine := by
  cases h with
  | wire cause goes => exact ⟨cause, rfl, (genuine cause rfl _).symm⟩
  | @stopped acts' ev cause endCause split goes stops =>
      have hcauses : endCausesOf (s.endComplete cause endCause).records = [cause] := by
        have hquiet : endCausesOf (finalizeAttempt s.st endCause).records = [] :=
          filterMap_map_eq_nil (fun _ => rfl) _
        exact congrArg (cause :: ·) hquiet
      refine ⟨cause, hcauses, ?_⟩
      -- a frame that stops the attempt is a sentinel or is rejected
      unfold frameVerdict at stops
      split at stops
      · split at stops
        · cases stops
          rfl
        · split_ifs at stops
          cases stops
          rfl
      · cases stops
  | closed tail residue split goes =>
      refine ⟨s.closeCause, endClosed_endCauses s residue, ?_⟩
      unfold ReadLoop.closeCause
      split_ifs <;> rfl

variable (serde)

/-- **The replay of an attempt** comes to what the attempt came to. -/
theorem runAttempt_replay (messages : List Message) {st : StreamState}
    (fresh : st.machine = StreamMachine.new) (selectPolls now : ℕ) (wire : Wire) :
    replayAttempt serde (runAttempt cfg serde messages st selectPolls now wire).records =
      some (attemptEnding cfg serde wire) := by
  have hunfolds := runAttempt_unfolds cfg serde messages fresh selectPolls now wire
  have hgenuine := runAttempt_genuine cfg serde messages st selectPolls now wire
  have hrederived := hunfolds.rederived
  rw [← (runAttempt_ending cfg serde messages fresh selectPolls now wire).1]
  obtain ⟨instant, polls, records, s, e, hmoves, hends, hrecords, hended, -⟩ := hunfolds
  rw [hended] at hgenuine ⊢
  obtain ⟨cause, hcauses, hending⟩ := hends.replayed hgenuine
  have hmachine := hmoves.kept.2
  have hstart : (ReadLoop.start st instant polls).st.machine = StreamMachine.new := fresh
  rw [hstart] at hmachine
  have hcause : endCausesOf (runAttempt cfg serde messages st selectPolls now wire).records =
      [cause] := by
    rw [hrecords, endCausesOf, List.filterMap_append]
    exact (congrArg (· ++ _) hmoves.endCauses).trans hcauses
  rw [replayAttempt, hcause, hrederived, ← hmachine, hending]
  rfl

/-! ## The numbers of attempts -/

theorem EmissionRecord.OfAttempt.attempted {stream : StreamId} {attempt : UInt32}
    {r : EmissionRecord} (h : r.OfAttempt stream attempt) :
    r.attempted? = some (stream, attempt) := by
  cases r <;> first | exact congrArg some (Prod.ext h.1 h.2) | exact absurd h id

/-- An attempt's own records are all of that attempt. -/
theorem attemptRecords_eq_self {stream : StreamId} {attempt : UInt32}
    {records : List EmissionRecord} (own : ∀ r ∈ records, r.OfAttempt stream attempt) :
    attemptRecords stream attempt records = records :=
  List.filter_eq_self.mpr fun r hr => decide_eq_true (own r hr).attempted

theorem attemptRecords_eq_nil {stream : StreamId} {attempt : UInt32}
    {records : List EmissionRecord}
    (other : ∀ r ∈ records, r.attempted? ≠ some (stream, attempt)) :
    attemptRecords stream attempt records = [] :=
  List.filter_eq_nil_iff.mpr fun r hr h => other r hr (of_decide_eq_true h)

/-- The records of an admitted dial, of which the attempt's are in the middle. -/
theorem traceRecords_dialEvents_eq (messages : List Message) (t : TurnState) (d : Dial) :
    traceRecords (dialEvents cfg serde messages t d) =
      .ledger t.st.streamId (t.st.attempt + 1) (.sendBucketSpent (d.available - 1)) ::
        ((attemptOf cfg serde messages t.begun d.wire).records ++
          [.ledger t.st.streamId (t.st.attempt + 1)
            (.sendBucketReturned (d.availableAtReturn + 1))]) := rfl

theorem attemptOf_own (messages : List Message) (t : TurnState) (wire : Wire) :
    ∀ r ∈ (attemptOf cfg serde messages t.begun wire).records,
      r.OfAttempt t.st.streamId (t.st.attempt + 1) :=
  (runAttempt_records cfg serde messages t.begun.st _ _ wire).2

/-- Of an admitted dial, the records under its own number are the attempt's. -/
theorem attemptRecords_dialEvents (messages : List Message) (t : TurnState) (d : Dial) :
    attemptRecords t.st.streamId (t.st.attempt + 1)
        (traceRecords (dialEvents cfg serde messages t d)) =
      (attemptOf cfg serde messages t.begun d.wire).records := by
  have hown := attemptRecords_eq_self (attemptOf_own cfg serde messages t d.wire)
  rw [traceRecords_dialEvents_eq, ← List.singleton_append, attemptRecords_append,
    attemptRecords_append, hown]
  exact List.append_nil _

/-- Of an admitted dial, nothing is under another number. -/
theorem attemptRecords_dialEvents_of_ne (messages : List Message) (t : TurnState) (d : Dial)
    {stream : StreamId} {attempt : UInt32} (other : attempt ≠ t.st.attempt + 1) :
    attemptRecords stream attempt (traceRecords (dialEvents cfg serde messages t d)) =
      [] := by
  have hothers : attemptRecords stream attempt
      (attemptOf cfg serde messages t.begun d.wire).records = [] := by
    refine attemptRecords_eq_nil fun r hr hattempted => other ?_
    rw [(attemptOf_own cfg serde messages t d.wire r hr).attempted] at hattempted
    exact (Prod.mk.inj (Option.some.inj hattempted)).2.symm
  rw [traceRecords_dialEvents_eq, ← List.singleton_append, attemptRecords_append,
    attemptRecords_append, hothers]
  rfl

@[simp] theorem TurnState.behind_attempt (messages : List Message) (t : TurnState)
    (retried : List Dial) :
    (t.behind cfg serde messages retried).st.attempt =
      t.st.attempt + UInt32.ofNat retried.length := by
  induction retried generalizing t with
  | nil => exact (UInt32.add_zero _).symm
  | cons d retried ih =>
      rw [TurnState.behind_cons, ih, TurnState.drawn_st, TurnState.tried_attempt,
        List.length_cons, UInt32.ofNat_add, UInt32.add_assoc,
        UInt32.add_comm 1]
      rfl

/-- Fewer steps than there are numbers lead to another number. -/
theorem add_ofNat_ne_self {n : ℕ} (pos : 0 < n) (few : n < 2 ^ 32) (attempt : UInt32) :
    attempt + UInt32.ofNat n ≠ attempt := by
  intro h
  have hzero : UInt32.ofNat n = 0 := by
    rwa [← UInt32.add_right_inj attempt, UInt32.add_zero]
  have hn := congrArg UInt32.toNat hzero
  rw [UInt32.toNat_ofNat', Nat.mod_eq_of_lt few, UInt32.toNat_zero] at hn
  omega

/-- **Retried attempts are told apart** from the one behind them. -/
theorem attemptRecords_retryEvents (messages : List Message) (t : TurnState)
    {retried : List Dial} (few : retried.length < 2 ^ 32) (stream : StreamId) :
    attemptRecords stream ((t.behind cfg serde messages retried).st.attempt + 1)
      (traceRecords (retryEvents cfg serde messages t retried)) = [] := by
  induction retried generalizing t with
  | nil => rfl
  | cons d retried ih =>
      rw [List.length_cons] at few
      have hlater := ih (t.tried cfg serde messages d.wire).drawn (by omega)
      have hother : ((t.tried cfg serde messages d.wire).drawn.behind cfg serde messages
          retried).st.attempt + 1 ≠ t.st.attempt + 1 := by
        rw [← TurnState.behind_cons, TurnState.behind_attempt, List.length_cons]
        intro h
        exact add_ofNat_ne_self (Nat.succ_pos _) few t.st.attempt
          ((UInt32.add_left_inj 1).mp h)
      have hspent : attemptRecords stream
          (((t.tried cfg serde messages d.wire).drawn.behind cfg serde messages
            retried).st.attempt + 1) (traceRecords [t.spent]) = [] := rfl
      rw [TurnState.behind_cons, retryEvents, ← List.singleton_append,
        traceRecords_append, traceRecords_append, attemptRecords_append,
        attemptRecords_append, hlater, hspent,
        attemptRecords_dialEvents_of_ne cfg serde messages t d hother]
      rfl

/-! ## The turn -/

theorem rederivesEach_traceRecords {trace : List TurnEvent}
    (each : ∀ e ∈ trace, RederivesEach serde e.records) :
    RederivesEach serde (traceRecords trace) := by
  induction trace with
  | nil => rfl
  | cons e trace ih =>
      obtain ⟨he, hrest⟩ := List.forall_mem_cons.mp each
      rw [traceRecords, List.flatMap_cons]
      exact he.append (ih hrest)

variable (h : EventHandler)

/-- **The events are derived again** from the payloads of the installments, over all
attempts of a turn: each under the very attempt and installment that it is recorded
under. -/
theorem executeTurn_rederived (messages : List Message) (streamId : StreamId) (now : ℕ)
    (dials : List Dial) :
    RederivesEach serde
      (traceRecords (executeTurn cfg serde h messages streamId now dials).trace) := by
  refine rederivesEach_traceRecords serde fun e he => ?_
  simp only [executeTurn, EventHandler.beginStream, List.map_cons, List.map_nil,
    List.cons_append, List.nil_append, List.mem_cons, List.mem_append, List.mem_map] at he
  rcases he with rfl | he | ⟨verdict, -, rfl⟩
  · rfl
  · cases e with
    | emitted record =>
        obtain ⟨_, _, _, rfl⟩ := turnLoop_emitted cfg serde he
        rfl
    | attempt begun wire run =>
        obtain ⟨before, rfl, rfl⟩ := turnLoop_attempt he
        have hunfolds : (attemptOf cfg serde messages before.begun wire).Unfolds serde
            before.begun.st (wireActs cfg serde wire) :=
          runAttempt_unfolds cfg serde messages before.begun_fresh _ _ wire
        exact hunfolds.rederivesEach
  · rfl

/-- A settled turn is directed elsewhere, or it goes no further than its last attempt. -/
theorem settled_cases (attempts : UInt32) (e : AttemptEnd) :
    h.settled attempts e = .failover attempts ∨ h.settled attempts e = e.verdict := by
  unfold EventHandler.settled
  match e with
  | .complete (.committed outcome) => exact .inr rfl
  | .complete (.fault f) =>
      cases h.knowsFailoverExists
      · exact .inr rfl
      · exact .inl rfl
  | .wire cause =>
      by_cases hcause : cause = .cancelled
      · subst hcause
        exact .inr rfl
      · simp only [hcause, if_false]
        cases h.knowsFailoverExists
        · refine .inr ?_
          simp only [AttemptEnd.verdict, AttemptEnd.fault, hcause, if_false,
            Option.getD_some, Bool.false_eq_true]
        · exact .inl rfl

/-- The loop of a turn closes nothing. -/
theorem turnLoop_closings (messages : List Message) (t : TurnState) (dials : List Dial) :
    (traceRecords (turnLoop cfg serde h messages t dials).out).filterMap
      EmissionRecord.closing? = [] := by
  have hattempts := turnLoop_attempts cfg serde h messages t dials
  refine List.filterMap_eq_nil_iff.mpr fun r hr => ?_
  have hr := List.filterMap_eq_nil_iff.mp hattempts r hr
  cases r with
  | turnTrailer => cases hr
  | _ => rfl

/-- Replayed, the verdict of an attempt is itself. -/
theorem replayed_verdict (e : AttemptEnd) : e.verdict.record.replayed (some e) = e.verdict := by
  match e with
  | .complete (.committed outcome) => rfl
  | .complete (.fault f) => rfl
  | .wire cause => rfl

/-- What is replayed of a turn is its trailer, and the attempt that it counts to. -/
theorem replayTurn_executeTurn (messages : List Message) (streamId : StreamId) (now : ℕ)
    (dials : List Dial) :
    let looped := turnLoop cfg serde h messages (h.enter streamId now) dials
    replayTurn serde streamId
        (traceRecords (executeTurn cfg serde h messages streamId now dials).trace) =
      looped.stop.map fun verdict => verdict.record.replayed
        (replayAttempt serde
          (attemptRecords streamId looped.state.st.attempt (traceRecords looped.out))) := by
  have hrecords := traceRecords_executeTurn cfg serde h messages streamId now dials
  have hclosings := turnLoop_closings cfg serde h messages (h.enter streamId now) dials
  dsimp only at hrecords ⊢
  generalize turnLoop cfg serde h messages (h.enter streamId now) dials = looped
    at hrecords hclosings ⊢
  rw [hrecords, replayTurn, List.filterMap_cons_none rfl, List.filterMap_append, hclosings,
    List.nil_append]
  cases hstop : looped.stop with
  | none => rfl
  | some verdict =>
      -- neither the grant nor the trailer is of an attempt
      have hunder : attemptRecords streamId looped.state.st.attempt
          (.ledger streamId 0 (.retryAllowanceGranted h.retryAllowancePerTurn) ::
            (traceRecords looped.out ++ [looped.state.trailer verdict])) =
          attemptRecords streamId looped.state.st.attempt (traceRecords looped.out) := by
        rw [← List.singleton_append, attemptRecords_append, attemptRecords_append]
        exact List.append_nil _
      show some (verdict.record.replayed (replayAttempt serde
        (attemptRecords streamId looped.state.st.attempt _))) = _
      rw [Option.toList_some, List.map_cons, List.map_nil, hunder]
      rfl

/-- **A capture replays to the verdict of its turn.**  From the records of a turn alone
the verdict is computed again, with the whole of a committed reply, and none if the turn
did not close. -/
theorem executeTurn_replay (messages : List Message) (streamId : StreamId) (now : ℕ)
    (dials : List Dial) :
    replayTurn serde streamId
        (traceRecords (executeTurn cfg serde h messages streamId now dials).trace) =
      (executeTurn cfg serde h messages streamId now dials).verdict := by
  have hdialed := turnLoop_dialed cfg serde h messages (h.enter streamId now) dials
  have hreplay := replayTurn_executeTurn cfg serde h messages streamId now dials
  have hfew : ∀ {retried : List Dial},
      Retries cfg serde (h.enter streamId now).remainingAllowance.toNat retried →
        retried.length < 2 ^ 32 := fun retries =>
    Nat.lt_of_le_of_lt retries.within (UInt32.toNat_lt _)
  rw [hreplay]
  show _ = (turnLoop cfg serde h messages (h.enter streamId now) dials).stop
  generalize turnLoop cfg serde h messages (h.enter streamId now) dials = looped at hdialed ⊢
  clear hreplay
  cases hdialed with
  | awaiting retries => rfl
  | @denied retried d rest retries denied =>
      set t := (h.enter streamId now).behind cfg serde messages retried
      -- the attempt that was denied has no records
      have hretried := attemptRecords_retryEvents cfg serde messages (h.enter streamId now)
        (hfew retries) streamId
      have hnone : attemptRecords streamId t.begun.st.attempt
          (traceRecords (retryEvents cfg serde messages (h.enter streamId now) retried ++
            [t.denial])) = [] := by
        rw [traceRecords_append, attemptRecords_append]
        exact congrArg (· ++ []) hretried
      rw [Option.map_some, hnone]
      rfl
  | @settled retried d rest retries admitted last =>
      set t := (h.enter streamId now).behind cfg serde messages retried
      have hretried := attemptRecords_retryEvents cfg serde messages (h.enter streamId now)
        (hfew retries) streamId
      have hown := attemptRecords_dialEvents cfg serde messages t d
      have hstream : t.st.streamId = streamId := TurnState.behind_streamId messages _ retried
      rw [hstream] at hown
      have hattempt : attemptRecords streamId (t.tried cfg serde messages d.wire).st.attempt
          (traceRecords (retryEvents cfg serde messages (h.enter streamId now) retried ++
            dialEvents cfg serde messages t d)) =
          (attemptOf cfg serde messages t.begun d.wire).records := by
        rw [traceRecords_append, attemptRecords_append, TurnState.tried_attempt, hretried,
          hown, List.nil_append]
      have hended : replayAttempt serde
          (attemptOf cfg serde messages t.begun d.wire).records =
            some (attemptEnding cfg serde d.wire) :=
        runAttempt_replay cfg serde messages t.begun_fresh _ _ d.wire
      rw [Option.map_some, hattempt, hended, Option.some.injEq]
      rcases settled_cases h (t.st.attempt + 1) (attemptEnding cfg serde d.wire) with
        hsettled | hsettled
      · rw [hsettled]
        rfl
      · rw [hsettled, replayed_verdict]

end RarChat
