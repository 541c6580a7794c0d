import RarChat.Bookkeeping
import RarChat.Dialing

/-!
# What a turn reports about itself

Two summaries are written beside the facts.  The trailer of a turn counts its reads,
events and normalization errors; it reconciles with the records, but for the payloads
that are rejected for their choices, which are recorded and not counted
(`executeTurn_reconciles_iff`).

The `StreamEnd` of an attempt that the peer closed tells apart whether the attempt had
brought text.  It reads a flag of the whole turn, so it is right exactly when no earlier
attempt makes a difference (`executeTurn_closesHonestly_iff`).
-/

namespace RarChat

open EarlyExit LabelledRun

variable (cfg : OpenAiConfig) (serde : SerdeJson) (h : EventHandler)

/-! ## The trailer -/

/-- The reads, events and normalization errors that a trailer counts. -/
def EmissionRecord.counts? : EmissionRecord → Option (ℕ × ℕ × ℕ)
  | .turnTrailer _ _ _ _ reads _ events normalizationErrors _ _ =>
      some (reads, events, normalizationErrors)
  | _ => none

/-- **The trailer reconciles** with the records emitted under its stream. -/
def Reconciles (stream : StreamId) (records : List EmissionRecord) : Prop :=
  (recordsUnder stream records).filterMap EmissionRecord.counts? =
    [((readSeqs (recordsUnder stream records)).length,
      (eventsOf (recordsUnder stream records)).length,
      (errorsOf (recordsUnder stream records)).length)]

/-- No record of an attempt is a trailer. -/
theorem attemptOf_counts (messages : List Message) (t : TurnState) (wire : Wire) :
    (attemptOf cfg serde messages t wire).records.filterMap EmissionRecord.counts? =
      [] := by
  rw [List.filterMap_eq_nil_iff]
  intro r hr
  have hattempt := (runAttempt_records cfg serde messages t.st t.selectPolls t.now wire).2 r hr
  cases r <;> first | rfl | exact absurd hattempt id

theorem turnLoop_counts (messages : List Message) (t : TurnState) (dials : List Dial) :
    (traceRecords (turnLoop cfg serde h messages t dials).out).filterMap
      EmissionRecord.counts? = [] := by
  have hdial : ∀ (t : TurnState) (d : Dial),
      (traceRecords (dialEvents cfg serde messages t d)).filterMap
        EmissionRecord.counts? = [] := by
    intro t d
    simp only [traceRecords, dialEvents, List.flatMap_cons, TurnEvent.records,
      List.flatMap_nil, List.filterMap_append, attemptOf_counts]
    rfl
  induction t, dials using turn_induction cfg serde messages with
  | nil t => rfl
  | denied t d rest denied => rw [turnLoop_of_denied denied]; rfl
  | settled t d rest hd last => rw [turnLoop_of_settled hd last]; exact hdial t d
  | retried t d rest hd faulting left ih =>
      rw [turnLoop_of_retry hd faulting left, Outcome.after_out, traceRecords_append,
        traceRecords_append, List.filterMap_append, List.filterMap_append, hdial, ih]
      rfl

/-- The multiples of a turn are those of its attempts. -/
theorem multiples_turnActs_eq_zero_iff (trace : List TurnEvent) :
    multiples serde (turnActs cfg serde trace) = 0 ↔
      ∀ begun wire run, .attempt begun wire run ∈ trace →
        multiples serde (wireActs cfg serde wire) = 0 := by
  induction trace with
  | nil => simp [turnActs, dialedWires, multiples]
  | cons e trace ih =>
      rw [← List.singleton_append, turnActs_append, multiples_append, Nat.add_eq_zero_iff, ih]
      cases e with
      | emitted record => simp [multiples]
      | attempt begun wire run =>
          have hhead : turnActs cfg serde [.attempt begun wire run] =
              wireActs cfg serde wire := List.append_nil _
          rw [hhead]
          constructor
          · rintro ⟨hfirst, hrest⟩ begun' wire' run' mem
            rcases List.mem_cons.mp mem with heq | mem
            · obtain ⟨-, rfl, -⟩ := TurnEvent.attempt.inj heq
              exact hfirst
            · exact hrest begun' wire' run' mem
          · intro hall
            exact ⟨hall begun wire run (List.mem_cons_self ..), fun begun' wire' run' mem =>
              hall begun' wire' run' (List.mem_cons_of_mem _ mem)⟩

/-- An attempt takes in no frame that is rejected for its choices. -/
theorem multiples_eq_zero_iff (acts : List Act) :
    multiples serde acts = 0 ↔
      ∀ status ev, .frame status ev ∈ acts → ev.isMultiple serde = false := by
  unfold multiples
  rw [List.countP_eq_zero]
  constructor
  · intro hnone status ev mem
    exact Bool.eq_false_iff.mpr (hnone ev (List.mem_filterMap.mpr ⟨_, mem, rfl⟩))
  · intro hnone ev mem
    obtain ⟨act, hact, hframe⟩ := List.mem_filterMap.mp mem
    cases act with
    | read item => cases hframe
    | close => cases hframe
    | frame status ev' =>
        obtain rfl := Option.some.inj hframe
        exact Bool.eq_false_iff.mp (hnone status ev' hact)

/-- **The counts of the trailer**: reads and events are all counted, and so are the
normalization errors, up to the multiples. -/
theorem executeTurn_trailer (messages : List Message) (streamId : StreamId) (now : ℕ)
    (dials : List Dial) {verdict : TurnVerdict}
    (settled : (executeTurn cfg serde h messages streamId now dials).verdict =
      some verdict) :
    let records := traceRecords (executeTurn cfg serde h messages streamId now dials).trace
    ∃ counted,
      records.filterMap EmissionRecord.counts? =
          [((readSeqs records).length, (eventsOf records).length, counted)] ∧
        counted + multiples serde (turnActs cfg serde
            (turnLoop cfg serde h messages (h.enter streamId now) dials).out) =
          (errorsOf records).length := by
  have hkept := turnLoop_kept cfg serde h messages (h.enter streamId now) dials
  have hcounts := turnLoop_counts cfg serde h messages (h.enter streamId now) dials
  have hstop : (turnLoop cfg serde h messages (h.enter streamId now) dials).stop =
      some verdict := settled
  have hrecords := traceRecords_executeTurn cfg serde h messages streamId now dials
  dsimp only at hrecords ⊢
  rw [hstop] at hrecords
  rw [hrecords]
  generalize turnLoop cfg serde h messages (h.enter streamId now) dials = looped at hkept hcounts
  -- the grant and the trailer are neither reads nor events nor errors
  have hlists : ∀ {α : Type} (f : EmissionRecord → Option α),
      f (.ledger streamId 0 (.retryAllowanceGranted h.retryAllowancePerTurn)) = none →
        f (looped.state.trailer verdict) = none →
          (EmissionRecord.ledger streamId 0
            (.retryAllowanceGranted h.retryAllowancePerTurn) ::
              (traceRecords looped.out ++ [looped.state.trailer verdict])).filterMap f =
            (traceRecords looped.out).filterMap f := by
    intro α f hgrant htrailer
    rw [List.filterMap_cons_none hgrant, List.filterMap_append,
      List.filterMap_cons_none htrailer, List.filterMap_nil, List.append_nil]
  -- the turn was entered with all counters at zero
  have hreads := hkept.reads
  have hevents := hkept.events
  have herrors := hkept.errors
  simp only [EventHandler.enter, EventHandler.beginStream, StreamState.new, Nat.zero_add]
    at hreads hevents herrors
  refine ⟨looped.state.st.normErrors, ?_, ?_⟩
  · simp only [Option.toList_some, List.map_cons, List.map_nil, readSeqs, eventsOf,
      hlists EmissionRecord.readSeq? rfl rfl, hlists EmissionRecord.event? rfl rfl]
    rw [List.filterMap_cons_none rfl, List.filterMap_append, hcounts, ← readSeqs, ← eventsOf,
      ← hreads, ← hevents]
    rfl
  · simp only [Option.toList_some, List.map_cons, List.map_nil, errorsOf,
      hlists EmissionRecord.error? rfl rfl]
    exact herrors

/-- **When the trailer reconciles**: exactly when no attempt that the turn comes to takes
in a data frame, complete or recovered, that is rejected for its choices. -/
theorem executeTurn_reconciles_iff (messages : List Message) (streamId : StreamId)
    (now : ℕ) (dials : List Dial) (verdict : TurnVerdict)
    (settled : (executeTurn cfg serde h messages streamId now dials).verdict =
      some verdict) :
    Reconciles streamId
        (traceRecords (executeTurn cfg serde h messages streamId now dials).trace) ↔
      ∀ retried last,
        ComesTo cfg serde h.retryAllowancePerTurn.toNat dials retried last →
          ∀ status ev, .frame status ev ∈ wireActs cfg serde last.wire →
            ev.isMultiple serde = false := by
  obtain ⟨counted, htrailer, herrors⟩ :=
    executeTurn_trailer cfg serde h messages streamId now dials settled
  have hattempt := attempt_mem_turnLoop_iff cfg serde h messages (h.enter streamId now) dials
  have hzero := multiples_turnActs_eq_zero_iff cfg serde
    (turnLoop cfg serde h messages (h.enter streamId now) dials).out
  have hcounted : Reconciles streamId
      (traceRecords (executeTurn cfg serde h messages streamId now dials).trace) ↔
        multiples serde (turnActs cfg serde
          (turnLoop cfg serde h messages (h.enter streamId now) dials).out) = 0 := by
    rw [Reconciles, executeTurn_recordsUnder, htrailer]
    simp only [List.cons.injEq, Prod.mk.injEq, true_and, and_true]
    omega
  rw [hcounted, hzero]
  constructor
  · intro hnone retried last hcomes
    rw [← multiples_eq_zero_iff]
    exact hnone _ _ _ ((hattempt _ last.wire _).mpr ⟨retried, last, hcomes, rfl, rfl, rfl⟩)
  · intro hnone begun wire run mem
    obtain ⟨retried, last, hcomes, rfl, rfl, rfl⟩ := (hattempt begun wire run).mp mem
    exact (multiples_eq_zero_iff serde _).mpr (hnone retried last hcomes)

/-- A reply behind an attempt that was reset in the middle reconciles. -/
theorem executeTurn_reconciles_iff_retried :
    Reconciles 1 (traceRecords (executeTurn exampleConfig replySerde ⟨1, false⟩ [] 1 0
      [⟨1, resetBehind [hiFrame], 0⟩, ⟨1, replyWire, 0⟩]).trace) := by
  refine (executeTurn_reconciles_iff exampleConfig replySerde ⟨1, false⟩ [] 1 0
    [⟨1, resetBehind [hiFrame], 0⟩, ⟨1, replyWire, 0⟩]
    (.committed ⟨"hi", "stop", none⟩) (by decide +kernel)).mpr ?_
  intro retried last hcomes
  have hmem := hcomes.made.subset (List.mem_append_right _ (List.mem_singleton.mpr rfl))
  rw [← multiples_eq_zero_iff]
  rcases List.mem_pair.mp hmem with rfl | rfl
  · decide +kernel
  · decide +kernel

/-- Reads a chunk with two choices. -/
def pairSerde : SerdeJson :=
  .ofTable
    [("\x7b\"choices\":[\x7b\"delta\":\x7b\"content\":\"a\"\x7d\x7d,\x7b\"delta\":\x7b\"content\":\"b\"\x7d\x7d]\x7d",
      .object [("choices", .array [.object [("delta", .object [("content", .string "a")])],
        .object [("delta", .object [("content", .string "b")])]])])]

/-- The frame with the two choices. -/
def pairFrame : List UInt8 :=
  asBytes
    "data: \x7b\"choices\":[\x7b\"delta\":\x7b\"content\":\"a\"\x7d\x7d,\x7b\"delta\":\x7b\"content\":\"b\"\x7d\x7d]\x7d\n\n"

/-- **A rejection that is not counted**: two choices are reported as one normalization
error, and the trailer reports none. -/
theorem multiple_choices_uncounted :
    let turn := executeTurn exampleConfig pairSerde ⟨0, false⟩ [] 1 0
      [⟨1, streamOf [pairFrame], 0⟩]
    turn.verdict = some (.failed (.aborted 0)) ∧
      errorsOf (recordsUnder 1 (traceRecords turn.trace)) =
        ["multiple choices (n=2) not supported"] ∧
      (recordsUnder 1 (traceRecords turn.trace)).filterMap EmissionRecord.counts? =
        [(1, 0, 0)] := by
  decide +kernel

/-! ## The cause of a peer close -/

/-- **The attempt that the peer closed says whether it brought text**, and in particular
an attempt that is reported as empty says that it did not. -/
structure AttemptRun.ClosesHonestly (run : AttemptRun) : Prop where
  cause : endCausesOf run.records =
    [if carriesText (eventsOf run.records) then .peerClosed else .closedWithNoContent]
  empty : run.ended = .complete (.fault .emptyStream) →
    endCausesOf run.records = [.closedWithNoContent]

variable {serde}

theorem endClosed_endCauses (s : ReadLoop) (residue : List UInt8) :
    endCausesOf (s.endClosed residue).records = [s.closeCause] := by
  have hresidue : endCausesOf (residueRecords s.st.streamId s.st.attempt residue) = [] := by
    unfold residueRecords
    split_ifs <;> rfl
  have hanomalies : ∀ st cause, endCausesOf (finalizeAttempt st cause).records = [] :=
    fun _ _ => filterMap_map_eq_nil (fun _ => rfl) _
  have hnote : ∀ resolution, endCausesOf (s.eofNote resolution) = [] := by
    intro resolution
    cases resolution <;> rfl
  simp only [endCausesOf] at hresidue hanomalies hnote ⊢
  simp only [ReadLoop.endClosed, List.filterMap_append, hresidue, hanomalies, hnote,
    List.filterMap_cons, ReadLoop.streamEnd, EmissionRecord.endCause?, List.nil_append,
    List.append_nil]

/-- **The cause of a peer close** says whether any attempt of the turn so far has brought
text. -/
theorem AttemptRun.Unfolds.closeCause {st : StreamState} {acts : List Act}
    {run : AttemptRun} (h : run.Unfolds serde st acts) (close : .close ∈ acts) :
    endCausesOf run.records =
      [if st.sawAnyContent || carriesText (eventsOf run.records) then .peerClosed
        else .closedWithNoContent] := by
  have hkept := h.kept
  obtain ⟨instant, selectPolls, records, s, e, hmoves, hends, hrecords, -, hstate⟩ := h
  obtain ⟨residue, rfl⟩ := hends.of_close close
  have hcontent : s.st.sawAnyContent = run.state.sawAnyContent := by rw [hstate]; rfl
  rw [hkept.reported, ← hkept.content, ← hcontent, hrecords, endCausesOf,
    List.filterMap_append, ← endCausesOf, ← endCausesOf, hmoves.endCauses,
    endClosed_endCauses]
  rfl

/-- The machine resolves to an empty stream only if it holds no text. -/
theorem content_of_emptyStream {m : StreamMachine} {cause : EndCause}
    (empty : m.resolve cause = .fault .emptyStream) : m.content = "" := by
  unfold StreamMachine.resolve StreamMachine.finalize at empty
  cases cause with
  | handlerAbort => simp at empty
  | streamEnded =>
      cases hfinish : m.finishReason with
      | some r => simp [hfinish] at empty
      | none =>
          by_cases hlen : m.content.length = 0
          · exact String.length_eq_zero_iff.mp hlen
          · simp [hfinish, hlen] at empty

/-- An attempt that is reported as empty has brought no text. -/
theorem AttemptRun.Unfolds.quiet_of_emptyStream {st : StreamState} {acts : List Act}
    {run : AttemptRun} (h : run.Unfolds serde st acts)
    (fresh : st.machine = StreamMachine.new)
    (empty : run.ended = .complete (.fault .emptyStream)) :
    carriesText (eventsOf run.records) = false := by
  rw [h.kept.reported, carriesText_eq_false_iff fun ev => actEvents_text_ne_empty serde]
  obtain ⟨instant, selectPolls, records, s, e, hmoves, hends, -, hended, -⟩ := h
  have hmachine : s.st.machine = StreamMachine.new.feedAll (actEvents serde acts) := by
    rw [hmoves.kept.2, ← fresh]
    rfl
  have hcontent : s.st.machine.content = textOf (actEvents serde acts) := by
    rw [hmachine, StreamMachine.feedAll_content]
    exact String.empty_append
  rw [← hcontent]
  rw [hended] at empty
  cases hends with
  | wire cause goes => cases empty
  | stopped split goes stops => exact content_of_emptyStream (AttemptEnd.complete.inj empty)
  | closed tail residue split goes =>
      exact content_of_emptyStream (AttemptEnd.complete.inj empty)

/-- **When an attempt that the peer closed says whether it brought text**: exactly when
it did, or the turn had seen none before it. -/
theorem AttemptRun.Unfolds.closesHonestly_iff {st : StreamState} {acts : List Act}
    {run : AttemptRun} (h : run.Unfolds serde st acts)
    (fresh : st.machine = StreamMachine.new) (close : .close ∈ acts) :
    run.ClosesHonestly ↔
      (carriesText (actEvents serde acts) = false → st.sawAnyContent = false) := by
  have hcause := h.closeCause close
  have hreported := h.kept.reported
  constructor
  · rintro ⟨honest, -⟩ hquiet
    rw [honest, hreported, hquiet] at hcause
    cases hseen : st.sawAnyContent with
    | false => rfl
    | true => simp [hseen] at hcause
  · intro hseen
    have hhonest : endCausesOf run.records =
        [if carriesText (eventsOf run.records) then .peerClosed
          else .closedWithNoContent] := by
      rw [hcause]
      cases hquiet : carriesText (eventsOf run.records) with
      | true => rw [Bool.or_true]
      | false => rw [hseen (hreported ▸ hquiet), Bool.or_false]
    refine ⟨hhonest, fun empty => ?_⟩
    rw [hhonest, h.quiet_of_emptyStream fresh empty]
    rfl

variable (serde)

/-- The flag for content is raised by every retried attempt that takes in text. -/
theorem behind_sawAnyContent (messages : List Message) (t : TurnState)
    (retried : List Dial) :
    (t.behind cfg serde messages retried).st.sawAnyContent = false ↔
      t.st.sawAnyContent = false ∧ ∀ d ∈ retried, ¬TakesText cfg serde d.wire := by
  induction retried generalizing t with
  | nil => simp
  | cons d retried ih =>
      have hdial := (dialEvents_kept cfg serde messages t d).content
      rw [TurnState.behind_cons, ih, TurnState.drawn_st, hdial, Bool.or_eq_false_iff,
        List.forall_mem_cons, and_assoc, TakesText, Bool.not_eq_true]

/-- **When peer closes are told apart**: exactly when no attempt that the peer closes
without text comes behind one that took in text. -/
theorem executeTurn_closesHonestly_iff (messages : List Message) (streamId : StreamId)
    (now : ℕ) (dials : List Dial) :
    (∀ begun wire run,
        .attempt begun wire run ∈
          (executeTurn cfg serde h messages streamId now dials).trace →
        .close ∈ wireActs cfg serde wire → run.ClosesHonestly) ↔
      ∀ retried last,
        ComesTo cfg serde h.retryAllowancePerTurn.toNat dials retried last →
          .close ∈ wireActs cfg serde last.wire → ¬TakesText cfg serde last.wire →
            ∀ d ∈ retried, ¬TakesText cfg serde d.wire := by
  have hattempt := attempt_mem_turnLoop_iff cfg serde h messages (h.enter streamId now) dials
  -- the turn was entered with no content seen
  have hhonest : ∀ (retried : List Dial) (last : Dial), .close ∈ wireActs cfg serde last.wire →
      ((attemptOf cfg serde messages
          ((h.enter streamId now).behind cfg serde messages retried).begun
          last.wire).ClosesHonestly ↔
        (¬TakesText cfg serde last.wire → ∀ d ∈ retried, ¬TakesText cfg serde d.wire)) := by
    intro retried last close
    set t := (h.enter streamId now).behind cfg serde messages retried with ht
    have hunfolds : (attemptOf cfg serde messages t.begun last.wire).Unfolds serde t.begun.st
        (wireActs cfg serde last.wire) :=
      runAttempt_unfolds cfg serde messages t.begun_fresh _ _ last.wire
    have hbegun : t.begun.st.sawAnyContent = t.st.sawAnyContent := rfl
    rw [hunfolds.closesHonestly_iff t.begun_fresh close, hbegun, ht, behind_sawAnyContent,
      TakesText, Bool.not_eq_true]
    exact imp_congr_right fun _ => and_iff_right rfl
  constructor
  · intro hall retried last hcomes close
    have hmem := (hattempt _ last.wire _).mpr ⟨retried, last, hcomes, rfl, rfl, rfl⟩
    exact (hhonest retried last close).mp
      (hall _ _ _ (attempt_mem_executeTurn.mpr hmem) close)
  · intro hquiet begun wire run mem close
    obtain ⟨retried, last, hcomes, rfl, rfl, rfl⟩ :=
      (hattempt begun wire run).mp (attempt_mem_executeTurn.mp mem)
    exact (hhonest retried last close).mpr (hquiet retried last hcomes close)

/-- What a call of `run_attempt` left. -/
def TurnEvent.run? : TurnEvent → Option AttemptRun
  | .attempt _ _ run => some run
  | .emitted _ => none

/-- **An empty attempt that is reported as a cut-off answer**: the connection is reset
behind some text, and the peer closes the attempt that replaces it without any. -/
theorem empty_stream_peerClosed :
    let turn := executeTurn exampleConfig replySerde ⟨1, false⟩ [] 1 0
      [⟨1, resetBehind [hiFrame], 0⟩, ⟨1, streamOf [], 0⟩]
    .close ∈ wireActs exampleConfig replySerde (streamOf []) ∧
      (turn.trace.filterMap TurnEvent.run?).map (fun run =>
          (run.ended, textOf (eventsOf run.records), endCausesOf run.records)) =
        [(.wire (.transportError "connection reset"), "hi",
            [.transportError "connection reset"]),
          (.complete (.fault .emptyStream), "", [.peerClosed])] := by
  decide +kernel

end RarChat
