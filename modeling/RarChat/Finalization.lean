import RarChat.Delivery
import RarChat.Turn

/-!
# Finalization

INV-CHAT-08 says that every exit passes `StreamMachine::finalize`.  What the machine
of an attempt has recorded can be read off what the attempt emits: it was fed the
normalized events, in order (`AttemptRun.machine`).  An attempt passes `finalize`
when it resolves to the verdict of that machine and emits the anomalies of that
machine (`AttemptRun.Finalized`).

Ends that complete the attempt pass it; ends on the wire return without it, and the
next `begin_attempt` replaces the machine.  So an attempt is finalized exactly when
no wakeup disturbs it, and one of its frames stops it or the peer closes
(`executeTurn_finalized_iff`).
-/

namespace RarChat

open EarlyExit

/-- The event a record reports. -/
def EmissionRecord.event? : EmissionRecord → Option DriverEvent
  | .normalizedEvent _ _ _ event => some event
  | _ => none

/-- The anomaly a record reports. -/
def EmissionRecord.anomaly? : EmissionRecord → Option String
  | .anomaly _ _ note => some note
  | _ => none

/-- The events that were reported. -/
def eventsOf (records : List EmissionRecord) : List DriverEvent :=
  records.filterMap EmissionRecord.event?

/-- The anomalies that were reported. -/
def anomaliesOf (records : List EmissionRecord) : List String :=
  records.filterMap EmissionRecord.anomaly?

@[simp] theorem eventsOf_append (xs ys : List EmissionRecord) :
    eventsOf (xs ++ ys) = eventsOf xs ++ eventsOf ys := List.filterMap_append

@[simp] theorem anomaliesOf_append (xs ys : List EmissionRecord) :
    anomaliesOf (xs ++ ys) = anomaliesOf xs ++ anomaliesOf ys := List.filterMap_append

/-- The machine of an attempt as its last event left it. -/
def AttemptRun.machine (run : AttemptRun) : StreamMachine :=
  StreamMachine.new.feedAll (eventsOf run.records)

/-- **The attempt passed `finalize`**: it came to the verdict of its machine, and all
the machine had recorded was emitted. -/
structure AttemptRun.Finalized (run : AttemptRun) : Prop where
  resolved : ∃ cause, run.ended = .complete (run.machine.resolve cause)
  surfaced : anomaliesOf run.records = run.machine.anomalies

/-! ## The machine of the read loop -/

/-- A pass that finds the machine `m`: while it runs, the machine is fed what it
reports; when it completes the attempt, it finalizes that machine. -/
structure TendsMachine (m : StreamMachine) (o : LoopOutcome) : Prop where
  running : o.stop = none →
    o.state.st.machine = m.feedAll (eventsOf o.out) ∧ anomaliesOf o.out = []
  complete : ∀ resolution, o.stop = some (.complete resolution) →
    (∃ cause, resolution = (m.feedAll (eventsOf o.out)).resolve cause) ∧
      anomaliesOf o.out = (m.feedAll (eventsOf o.out)).anomalies

/-- Put what was reported before in front of a pass. -/
theorem TendsMachine.after {m : StreamMachine} {o : LoopOutcome}
    {earlier : List EmissionRecord}
    (h : TendsMachine (m.feedAll (eventsOf earlier)) o)
    (quiet : anomaliesOf earlier = []) : TendsMachine m (o.after earlier) where
  running := fun hstop => by
    obtain ⟨hmachine, hanomalies⟩ := h.running hstop
    simp only [Outcome.after_state, Outcome.after_out, eventsOf_append,
      anomaliesOf_append, hmachine, StreamMachine.feedAll_append, quiet, hanomalies,
      List.append_nil, and_self]
  complete := fun resolution hstop => by
    obtain ⟨hresolution, hanomalies⟩ := h.complete resolution hstop
    simp only [Outcome.after_out, eventsOf_append, anomaliesOf_append,
      StreamMachine.feedAll_append, quiet, List.nil_append]
    exact ⟨hresolution, hanomalies⟩

/-- The common case: what came before reports neither events nor anomalies. -/
theorem TendsMachine.after_quiet {m : StreamMachine} {o : LoopOutcome}
    (h : TendsMachine m o) {earlier : List EmissionRecord}
    (noEvents : eventsOf earlier = []) (quiet : anomaliesOf earlier = []) :
    TendsMachine m (o.after earlier) :=
  TendsMachine.after (by rwa [noEvents]) quiet

theorem TendsMachine.andThen {m : StreamMachine} {o : LoopOutcome}
    {next : ReadLoop → LoopOutcome} (h : TendsMachine m o)
    (continues : o.stop = none → TendsMachine o.state.st.machine (next o.state)) :
    TendsMachine m (o.andThen next) := by
  cases hstop : o.stop with
  | some e =>
      rw [Outcome.andThen_of_stop hstop]
      exact h
  | none =>
      obtain ⟨hmachine, hanomalies⟩ := h.running hstop
      have hnext := continues hstop
      rw [hmachine] at hnext
      rw [Outcome.andThen_of_running hstop]
      exact TendsMachine.after hnext hanomalies

/-- **Loops of such passes** are such passes. -/
theorem run_tendsMachine {ι : Type} {step : ReadLoop → ι → LoopOutcome}
    (each : ∀ s i, TendsMachine s.st.machine (step s i)) (s : ReadLoop) (is : List ι) :
    TendsMachine s.st.machine (run step s is) := by
  induction is generalizing s with
  | nil => exact ⟨fun _ => ⟨rfl, rfl⟩, fun _ hstop => by cases hstop⟩
  | cons i rest ih => exact (each s i).andThen fun _ => ih _

/-- A pass that goes on and reports neither events nor anomalies. -/
theorem tendsMachine_of_running {m : StreamMachine} {s : ReadLoop}
    {records : List EmissionRecord} (machine : s.st.machine = m)
    (noEvents : eventsOf records = []) (quiet : anomaliesOf records = []) :
    TendsMachine m ⟨s, records, none⟩ where
  running := fun _ => ⟨by rw [machine, noEvents, StreamMachine.feedAll_nil], quiet⟩
  complete := fun _ hstop => by cases hstop

theorem endWire_tendsMachine (m : StreamMachine) (s : ReadLoop) (cause : StreamEndCause)
    (earlier : List EmissionRecord) :
    TendsMachine m ((s.endWire cause).after earlier).returned where
  running := fun hstop => by cases hstop
  complete := fun _ hstop => by cases hstop

theorem anomaliesOf_finalizeAttempt (st : StreamState) (cause : EndCause) :
    anomaliesOf (finalizeAttempt st cause).records = st.machine.anomalies := by
  simp only [anomaliesOf, finalizeAttempt, List.filterMap_map]
  exact List.filterMap_some

theorem eventsOf_finalizeAttempt (st : StreamState) (cause : EndCause) :
    eventsOf (finalizeAttempt st cause).records = [] :=
  filterMap_map_eq_nil (fun _ => rfl) _

theorem endComplete_tendsMachine (s : ReadLoop) (cause : StreamEndCause)
    (endCause : EndCause) :
    TendsMachine s.st.machine (s.endComplete cause endCause).returned where
  running := fun hstop => by cases hstop
  complete := fun resolution hstop => by
    have hevents : eventsOf (s.endComplete cause endCause).returned.out = [] :=
      eventsOf_finalizeAttempt s.st endCause
    rw [hevents, StreamMachine.feedAll_nil]
    obtain rfl := AttemptEnd.complete.inj (Option.some.inj hstop)
    exact ⟨⟨endCause, rfl⟩, anomaliesOf_finalizeAttempt s.st endCause⟩

theorem follow_tendsMachine (s : ReadLoop) (gained : ℕ)
    (result : Except DriverFault FlowDirective) :
    TendsMachine s.st.machine (s.follow gained result) := by
  unfold ReadLoop.follow
  split
  · exact tendsMachine_of_running rfl rfl rfl
  all_goals exact endComplete_tendsMachine _ _ _

variable (cfg : OpenAiConfig) (serde : SerdeJson)

/-- Refinement feeds the machine the events it reports. -/
theorem onInstallment_tendsMachine (st : StreamState) (seq : ℕ) (payload : String)
    (status : InstallmentStatus) :
    let step := onInstallment serde st seq .data payload status
    step.state.machine = st.machine.feedAll (eventsOf step.records) ∧
      anomaliesOf step.records = [] := by
  cases hrefined : refined serde payload with
  | error detail =>
      obtain ⟨n, hstep⟩ := onInstallment_of_error hrefined st seq status
      rw [hstep]
      exact ⟨rfl, rfl⟩
  | ok norm =>
      rw [onInstallment_of_ok hrefined]
      have hchannels : eventsOf (norm.unhandledChannels.map fun ch =>
          .wire st.streamId st.attempt (.unhandledChannel ch)) = [] :=
        filterMap_map_eq_nil (fun _ => rfl) _
      have hevents : eventsOf (norm.events.map fun ev =>
          .normalizedEvent st.streamId st.attempt seq ev) = norm.events := by
        rw [eventsOf, List.filterMap_map]
        exact List.filterMap_some
      simp only [eventsOf_append, anomaliesOf_append, hchannels, hevents,
        List.nil_append, true_and]
      simp [anomaliesOf, EmissionRecord.anomaly?]

theorem eventsOf_dataRecords (s : ReadLoop) (gap : ℕ) (ev : SseEvent) (text : String)
    (refinement : List EmissionRecord) :
    eventsOf (s.dataRecords gap ev text refinement) = eventsOf refinement := by
  unfold ReadLoop.dataRecords
  cases s.ttftEmitted <;> rfl

theorem anomaliesOf_dataRecords (s : ReadLoop) (gap : ℕ) (ev : SseEvent)
    (text : String) (refinement : List EmissionRecord) :
    anomaliesOf (s.dataRecords gap ev text refinement) = anomaliesOf refinement := by
  unfold ReadLoop.dataRecords
  cases s.ttftEmitted <;> rfl

theorem frameStep_tendsMachine (gap : ℕ) (s : ReadLoop) (ev : SseEvent) :
    TendsMachine s.st.machine (frameStep serde gap s ev) := by
  cases hpayload : ev.payload with
  | undecodable raw error =>
      simp only [frameStep, hpayload]
      exact tendsMachine_of_running rfl rfl rfl
  | comment text =>
      simp only [frameStep, hpayload]
      exact tendsMachine_of_running rfl rfl rfl
  | data text =>
      have hstep := onInstallment_tendsMachine serde s.st (s.instSeq + 1) text .complete
      rw [frameStep_of_data serde hpayload]
      generalize onInstallment serde s.st _ _ _ _ = step at hstep ⊢
      obtain ⟨hmachine, hanomalies⟩ := hstep
      refine TendsMachine.after ?_ ?_
      · rw [eventsOf_dataRecords, ← hmachine]
        exact follow_tendsMachine (s.refinedTo step.state) _ _
      · rw [anomaliesOf_dataRecords, hanomalies]

theorem tailStep_tendsMachine (s : ReadLoop) (ev : SseEvent) :
    TendsMachine s.st.machine (tailStep serde s ev) := by
  unfold tailStep
  cases ev.payload with
  | undecodable raw error => exact tendsMachine_of_running rfl rfl rfl
  | comment text => exact tendsMachine_of_running rfl rfl rfl
  | data text =>
      have hstep :=
        onInstallment_tendsMachine serde s.st (s.instSeq + 1) text .recoveredTail
      dsimp only at hstep ⊢
      generalize onInstallment serde s.st _ _ _ _ = step at hstep ⊢
      exact ⟨fun _ => hstep, fun _ hstop => by cases hstop⟩

theorem wakeupStep_tendsMachine (s : ReadLoop) (w : Wakeup) :
    TendsMachine s.st.machine (wakeupStep cfg serde s w) := by
  cases w with
  | tick after activeStreams =>
      obtain ⟨s', notes, ⟨_, _, _, _, _, rfl⟩, hstep | hstep⟩ :=
        tickStep_cases cfg s after activeStreams
      · rw [wakeupStep, hstep]
        exact tendsMachine_of_running rfl (filterMap_map_eq_nil (fun _ => rfl) notes)
          (filterMap_map_eq_nil (fun _ => rfl) notes)
      · rw [wakeupStep, hstep]
        exact endWire_tendsMachine _ _ _ _
  | read after wallUnixMs item =>
      rw [wakeupStep]
      by_cases hlong : s.parser.limitBytes < (frameRest (s.parser.buf ++ item)).length
      · rw [readStep_of_overflow serde hlong]
        exact endWire_tendsMachine _ _ _ _
      · rw [readStep_of_fits serde hlong]
        refine TendsMachine.after_quiet ?_ rfl rfl
        exact run_tendsMachine (frameStep_tendsMachine serde _)
          (s.afterPush (s.now + after) item) _

/-- A peer close finalizes the machine behind the recovered tail. -/
theorem peerClosed_tendsMachine (s : ReadLoop) :
    TendsMachine s.st.machine (peerClosed serde s).returned where
  running := fun hstop => by cases hstop
  complete := fun resolution hstop => by
    have htail := run_tendsMachine (tailStep_tendsMachine serde) s
      s.parser.finishWithResidue.1
    have hrunning := run_stop_eq_none (tailStep serde) (tailStep_running serde) s
      s.parser.finishWithResidue.1
    obtain ⟨hmachine, hanomalies⟩ := htail.running hrunning
    obtain rfl := AttemptEnd.complete.inj (Option.some.inj hstop)
    -- the residue, the end of the stream and the note are neither events nor anomalies
    have hresidue : eventsOf (residueRecords s.st.streamId s.st.attempt
          s.parser.finishWithResidue.2) = [] ∧
        anomaliesOf (residueRecords s.st.streamId s.st.attempt
          s.parser.finishWithResidue.2) = [] := by
      unfold residueRecords
      split_ifs <;> exact ⟨rfl, rfl⟩
    have hnote : ∀ (closed : ReadLoop) resolution,
        eventsOf (closed.eofNote resolution) = [] ∧
          anomaliesOf (closed.eofNote resolution) = [] := by
      intro closed resolution
      cases resolution <;> exact ⟨rfl, rfl⟩
    have hend : ∀ (closed : ReadLoop) cause records,
        eventsOf (closed.streamEnd cause 0 :: records) = eventsOf records ∧
          anomaliesOf (closed.streamEnd cause 0 :: records) = anomaliesOf records :=
      fun _ _ _ => ⟨rfl, rfl⟩
    simp only [peerClosed, LoopEnd.returned, eventsOf_append, anomaliesOf_append,
      (hend _ _ _).1, (hend _ _ _).2, hresidue.1, hresidue.2,
      (hnote _ _).1, (hnote _ _).2, eventsOf_finalizeAttempt,
      anomaliesOf_finalizeAttempt, hanomalies, List.append_nil, List.nil_append,
      ← hmachine]
    exact ⟨⟨.streamEnded, rfl⟩, trivial⟩

theorem lastWait_tendsMachine (s : ReadLoop) (last : WaitEnd) :
    TendsMachine s.st.machine (lastWait cfg serde s last).returned := by
  cases last with
  | cancelled after => exact endWire_tendsMachine _ _ _ _
  | overallDeadline late => exact endWire_tendsMachine _ _ _ _
  | stall late => exact endWire_tendsMachine _ _ _ _
  | closed after => exact peerClosed_tendsMachine serde (s.wakeAt (s.now + after))
  | transportError after detail => exact endWire_tendsMachine _ _ _ []

/-- **What completes an attempt finalizes its machine.** -/
theorem readLoop_tendsMachine (s : ReadLoop) (body : BodyTrace) :
    TendsMachine s.st.machine (readLoop cfg serde s body).returned := by
  rw [readLoop_returned]
  exact (run_tendsMachine (wakeupStep_tendsMachine cfg serde) s body.wakeups).andThen
    fun _ => lastWait_tendsMachine cfg serde _ _

/-! ## Which attempts complete -/

/-- The attempt came to a verdict of its machine. -/
def AttemptEnd.Completes (e : AttemptEnd) : Prop := ∃ resolution, e = .complete resolution

/-- **The body reaches a verdict**: no read overflows the buffer and no tick starves
the attempt, and either some frame stops it or the peer closes.  These are the ways out of
the loop that pass through `finalize_attempt`.  An overflow, a starving tick, and a wait
that ends in an error, a timer or a cancellation return the wire's cause from where they
are, and the machine with what it has collected is dropped. -/
def ReachesVerdict (s : ReadLoop) (body : BodyTrace) : Prop :=
  Along (wakeupStep cfg serde) (Undisturbed cfg) s body.wakeups ∧
    ((∃ ev ∈ frameEvents (bodyBytes body.wakeups), frameVerdict serde ev ≠ none) ∨
      ∃ after, body.last = .closed after)

/-- A wakeup disturbs the attempt exactly when it ends it on the wire. -/
theorem undisturbed_iff_completes (s : ReadLoop) (w : Wakeup) :
    Undisturbed cfg s w ↔
      ∀ e, (wakeupStep cfg serde s w).stop = some e → e.Completes := by
  cases w with
  | tick after activeStreams =>
      rw [wakeupStep, Undisturbed]
      obtain ⟨s', notes, -, hstep | hstep⟩ := tickStep_cases cfg s after activeStreams
      · simp [hstep]
      · simp [hstep, LoopEnd.returned, LoopEnd.after, ReadLoop.endWire,
          AttemptEnd.Completes]
  | read after wallUnixMs item =>
      rw [wakeupStep, Undisturbed, SseParser.push_eq]
      by_cases hlong : s.parser.limitBytes < (frameRest (s.parser.buf ++ item)).length
      · rw [readStep_of_overflow serde hlong]
        simp [hlong, LoopEnd.returned, LoopEnd.after, ReadLoop.endWire,
          AttemptEnd.Completes, Except.isOk, Except.toBool]
      · rw [readStep_of_fits serde hlong]
        refine iff_of_true ?_ (run_frameStep_cases serde _ _ _).2
        simp [hlong, Except.isOk, Except.toBool]

theorem lastWait_completes_iff (s : ReadLoop) (last : WaitEnd) :
    (lastWait cfg serde s last).ended.Completes ↔ ∃ after, last = .closed after := by
  cases last with
  | closed after => exact iff_of_true ⟨_, rfl⟩ ⟨after, rfl⟩
  | cancelled after =>
      simp [lastWait, LoopEnd.after, ReadLoop.endWire, AttemptEnd.Completes]
  | overallDeadline late =>
      simp [lastWait, LoopEnd.after, ReadLoop.endWire, AttemptEnd.Completes]
  | stall late => simp [lastWait, LoopEnd.after, ReadLoop.endWire, AttemptEnd.Completes]
  | transportError after detail =>
      simp [lastWait, ReadLoop.endWire, AttemptEnd.Completes]

/-- The wakeups are undisturbed exactly when they only leave the loop by completing. -/
theorem along_undisturbed_iff (s : ReadLoop) (wakeups : List Wakeup) :
    Along (wakeupStep cfg serde) (Undisturbed cfg) s wakeups ↔
      ∀ e, (run (wakeupStep cfg serde) s wakeups).stop = some e → e.Completes := by
  rw [run_stop_iff_along]
  exact along_congr_of_invariant (wakeupStep cfg serde) (I := fun _ => True)
    (fun _ _ _ => trivial) (fun s w _ => undisturbed_iff_completes cfg serde s w)
    trivial wakeups

/-- **The loop goes on** exactly when nothing disturbs it and no frame of the bytes that
were read stops it. -/
theorem run_wakeupStep_running_iff {s : ReadLoop} (fresh : s.parser.buf = [])
    (wakeups : List Wakeup) :
    (run (wakeupStep cfg serde) s wakeups).stop = none ↔
      Along (wakeupStep cfg serde) (Undisturbed cfg) s wakeups ∧
        ∀ ev ∈ frameEvents (bodyBytes wakeups), frameVerdict serde ev = none := by
  -- undisturbed, the loop stops when the digest of the bytes does
  have hframes : Along (wakeupStep cfg serde) (Undisturbed cfg) s wakeups →
      ((run (wakeupStep cfg serde) s wakeups).stop = none ↔
        ∀ ev ∈ frameEvents (bodyBytes wakeups), frameVerdict serde ev = none) := by
    intro quiet
    have hrun := (run_wakeupStep_agrees cfg serde (by rw [fresh, frameRest_nil]) quiet).1
    rw [fresh, List.nil_append] at hrun
    rw [hrun.stop]
    exact run_running_iff _ (Digest.step_running_iff serde) _ _
  constructor
  · intro hstop
    have hquiet : Along (wakeupStep cfg serde) (Undisturbed cfg) s wakeups := by
      rw [along_undisturbed_iff, hstop]
      simp
    exact ⟨hquiet, (hframes hquiet).mp hstop⟩
  · rintro ⟨hquiet, hpassing⟩
    exact (hframes hquiet).mpr hpassing

/-- **Which bodies complete their attempt.** -/
theorem readLoop_completes_iff {s : ReadLoop} (fresh : s.parser.buf = [])
    (body : BodyTrace) :
    (readLoop cfg serde s body).ended.Completes ↔ ReachesVerdict cfg serde s body := by
  have hrunning := run_wakeupStep_running_iff cfg serde fresh body.wakeups
  unfold ReachesVerdict
  cases hstop : (run (wakeupStep cfg serde) s body.wakeups).stop with
  | some e =>
      rw [readLoop_of_stop cfg serde hstop]
      have hcompletes : Along (wakeupStep cfg serde) (Undisturbed cfg) s body.wakeups ↔
          e.Completes := by
        rw [along_undisturbed_iff, hstop]
        simp
      constructor
      · intro h
        refine ⟨hcompletes.mpr h, .inl ?_⟩
        by_contra hnone
        simp only [not_exists, not_and, not_not] at hnone
        have hgoes := hrunning.mpr ⟨hcompletes.mpr h, hnone⟩
        rw [hstop] at hgoes
        cases hgoes
      · exact fun h => hcompletes.mp h.1
  | none =>
      obtain ⟨hquiet, hpassing⟩ := hrunning.mp hstop
      rw [readLoop_of_running cfg serde hstop]
      -- no frame has stopped the attempt, so the peer has to
      rw [LoopEnd.after, lastWait_completes_iff]
      refine ⟨fun h => ⟨hquiet, .inr h⟩, fun h => h.2.resolve_left ?_⟩
      rintro ⟨ev, hev, hverdict⟩
      exact hverdict (hpassing ev hev)

/-! ## The turn -/

theorem attemptRun_finalized_iff {wire : Wire} {after : ℕ} {body : BodyTrace}
    (framed : wire.framed = some (after, body)) (messages : List Message)
    {st : StreamState} (fresh : st.machine = StreamMachine.new) (selectPolls now : ℕ) :
    (runAttempt cfg serde messages st selectPolls now wire).Finalized ↔
      ReachesVerdict cfg serde (ReadLoop.start st (now + after) selectPolls) body := by
  have htends := readLoop_tendsMachine cfg serde
    (ReadLoop.start st (now + after) selectPolls) body
  have hmachine : (ReadLoop.start st (now + after) selectPolls).st.machine =
      StreamMachine.new := fresh
  rw [hmachine] at htends
  rw [← readLoop_completes_iff cfg serde rfl,
    runAttempt_of_framed cfg serde framed]
  constructor
  · rintro ⟨⟨cause, hended⟩, -⟩
    exact ⟨_, hended⟩
  · rintro ⟨resolution, hended⟩
    obtain ⟨⟨cause, rfl⟩, hanomalies⟩ :=
      htends.complete resolution (congrArg some hended)
    exact ⟨⟨cause, hended⟩, hanomalies⟩

/-- The loop around the attempts emits ledger entries. -/
theorem turnLoop_emitted {h : EventHandler} {messages : List Message} {t : TurnState}
    {dials : List Dial} {record : EmissionRecord}
    (mem : .emitted record ∈ (turnLoop cfg serde h messages t dials).out) :
    ∃ stream attempt entry, record = .ledger stream attempt entry := by
  have hdial : ∀ (t : TurnState) (d : Dial),
      .emitted record ∈ dialEvents cfg serde messages t d →
        ∃ stream attempt entry, record = .ledger stream attempt entry := by
    intro t d mem
    simp only [dialEvents, List.mem_cons, TurnEvent.emitted.injEq, reduceCtorEq,
      List.not_mem_nil, or_false, false_or] at mem
    rcases mem with rfl | rfl <;> exact ⟨_, _, _, rfl⟩
  induction t, dials using turn_induction cfg serde messages with
  | nil t => exact absurd mem List.not_mem_nil
  | denied t d rest denied =>
      rw [turnLoop_of_denied denied] at mem
      obtain rfl := TurnEvent.emitted.inj (List.mem_singleton.mp mem)
      exact ⟨_, _, _, rfl⟩
  | settled t d rest hd last =>
      rw [turnLoop_of_settled hd last] at mem
      exact hdial t d mem
  | retried t d rest hd faulting left ih =>
      rw [turnLoop_of_retry hd faulting left, Outcome.after_out, List.append_assoc,
        List.mem_append, List.mem_append] at mem
      rcases mem with mem | mem | mem
      · exact hdial t d mem
      · obtain rfl := TurnEvent.emitted.inj (List.mem_singleton.mp mem)
        exact ⟨_, _, _, rfl⟩
      · exact ih mem

/-- **INV-CHAT-08 over a turn**: nothing but an attempt emits anomalies, and an
attempt whose body is framed passes `finalize` exactly when its body reaches a
verdict. -/
theorem executeTurn_finalized_iff (h : EventHandler) (messages : List Message)
    (streamId : StreamId) (now : ℕ) (dials : List Dial) :
    let turn := executeTurn cfg serde h messages streamId now dials
    (∀ record, .emitted record ∈ turn.trace → record.anomaly? = none) ∧
      ∀ begun wire run after body, .attempt begun wire run ∈ turn.trace →
        wire.framed = some (after, body) →
          (run.Finalized ↔ ReachesVerdict cfg serde
            (ReadLoop.start begun.st (begun.now + after) begun.selectPolls) body) := by
  constructor
  · intro record mem
    simp only [executeTurn, EventHandler.beginStream, List.map_cons, List.map_nil,
      List.cons_append, List.nil_append, List.mem_cons, List.mem_append, List.mem_map,
      TurnEvent.emitted.injEq] at mem
    rcases mem with rfl | mem | ⟨verdict, -, rfl⟩
    · rfl
    · obtain ⟨_, _, _, rfl⟩ := turnLoop_emitted cfg serde mem
      rfl
    · rfl
  · intro begun wire run after body mem framed
    obtain ⟨before, rfl, rfl⟩ := turnLoop_attempt (attempt_mem_executeTurn.mp mem)
    exact attemptRun_finalized_iff cfg serde framed messages rfl _ _

/-- Reads a finish reason, and text that comes too late. -/
def lateSerde : SerdeJson :=
  .ofTable
    [("\x7b\"choices\":[\x7b\"delta\":\x7b\x7d,\"finish_reason\":\"stop\"\x7d]\x7d",
      .object [("choices", .array [.object [("delta", .object []),
        ("finish_reason", .string "stop")]])]),
      ("\x7b\"choices\":[\x7b\"delta\":\x7b\"content\":\"!\"\x7d\x7d]\x7d",
      .object [("choices", .array [.object [("delta", .object [("content",
        .string "!")])]])])]

/-- A finish reason, text behind it, and the peer closes. -/
def lateWire : Wire :=
  streamOf [asBytes
      "data: \x7b\"choices\":[\x7b\"delta\":\x7b\x7d,\"finish_reason\":\"stop\"\x7d]\x7d\n\n",
    asBytes "data: \x7b\"choices\":[\x7b\"delta\":\x7b\"content\":\"!\"\x7d\x7d]\x7d\n\n"]

/-- The attempt on it is finalized, with the anomaly that its machine recorded. -/
theorem executeTurn_finalized_iff_late :
    let run := attemptOf exampleConfig lateSerde [] (EventHandler.enter ⟨0, false⟩ 1 0).begun
      lateWire
    run.machine.anomalies = ["text delta arrived after finish_reason"] ∧ run.Finalized := by
  intro run
  refine ⟨by decide +kernel, ?_⟩
  exact ((executeTurn_finalized_iff exampleConfig lateSerde ⟨0, false⟩ [] 1 0
      [⟨1, lateWire, 0⟩]).2 _ _ _ 0 _
    (attempt_mem_executeTurn.mpr (attempt_mem_turnLoop (by decide) [] _ []))
    (streamOf_framed _)).mpr ⟨by decide +kernel, .inr ⟨0, rfl⟩⟩

/-- A finish reason, text behind it, and a reset connection. -/
def resetWire : Wire :=
  .response 0 ⟨200, some "text/event-stream; charset=utf-8", .failed 0,
    ⟨[.read 0 0 (asBytes
      "data: \x7b\"choices\":[\x7b\"delta\":\x7b\x7d,\"finish_reason\":\"stop\"\x7d]\x7d\n\ndata: \x7b\"choices\":[\x7b\"delta\":\x7b\"content\":\"!\"\x7d\x7d]\x7d\n\n")],
      .transportError 0 "connection reset"⟩⟩

/-- **A transport error discards the machine**: what it had recorded about the late
text is nowhere in the turn. -/
theorem transport_error_discards_anomaly :
    let turn := executeTurn exampleConfig lateSerde ⟨0, false⟩ [] 1 0 [⟨1, resetWire, 0⟩]
    ∃ begun run, .attempt begun resetWire run ∈ turn.trace ∧
      resetWire.framed.isSome = true ∧
      run.ended = .wire (.transportError "connection reset") ∧
      run.machine.anomalies = ["text delta arrived after finish_reason"] ∧
      anomaliesOf (turn.trace.flatMap TurnEvent.records) = [] ∧ ¬run.Finalized := by
  refine ⟨(EventHandler.enter ⟨0, false⟩ 1 0).begun, _,
    attempt_mem_executeTurn.mpr (attempt_mem_turnLoop (by decide) [] _ []), ?_⟩
  have hended : (attemptOf exampleConfig lateSerde []
      (EventHandler.enter ⟨0, false⟩ 1 0).begun resetWire).ended =
        .wire (.transportError "connection reset") := by
    decide +kernel
  refine ⟨by decide +kernel, hended, by decide +kernel, by decide +kernel, ?_⟩
  rintro ⟨⟨cause, hcomplete⟩, -⟩
  rw [hended] at hcomplete
  cases hcomplete

end RarChat
