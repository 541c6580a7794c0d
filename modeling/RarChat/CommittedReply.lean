import RarChat.Bookkeeping
import RarChat.Dialing

/-!
# What a committed reply says

A commit is the verdict of one machine on the frames of one attempt.  So no data frame
of the attempt was rejected while the loop over the body ran, though frames that are no
UTF-8 may have been skipped (`runAttempt_committed_frames`), and nothing that earlier
attempts received is in it (`executeTurn_isolated`).

The screen is not fed that way: it shows the text of every attempt as it arrives, and so
agrees with the committed reply exactly when the retried attempts brought no text
(`executeTurn_display_iff`).
-/

namespace RarChat

open EarlyExit LabelledRun

variable (cfg : OpenAiConfig) (serde : SerdeJson) (h : EventHandler)

/-! ## The frames of a committed attempt -/

variable {serde}

/-- Every frame that is taken in is recorded. -/
theorem Moves.recorded {stream : StreamId} {attempt : UInt32} {s s' : ReadLoop}
    {acts : List Act} {records : List EmissionRecord} (h : Moves serde s acts records s')
    (serves : s.Serves stream attempt) {status : InstallmentStatus} {ev : SseEvent}
    (mem : .frame status ev ∈ acts) :
    ∃ t : ReadLoop, t.Serves stream attempt ∧ t.frameRecord status ev ∈ records := by
  have hrun : s'.Serves stream attempt ∧ ∀ status ev, .frame status ev ∈ acts →
      ∃ t : ReadLoop, t.Serves stream attempt ∧
        t.frameRecord status ev ∈ records := by
    refine Run.invariant (I := fun acts records s' => s'.Serves stream attempt ∧
      ∀ status ev, .frame status ev ∈ acts → ∃ t : ReadLoop,
        t.Serves stream attempt ∧ t.frameRecord status ev ∈ records) ?_ ?_ h
    · exact ⟨serves, fun _ _ hmem => absurd hmem List.not_mem_nil⟩
    · intro acts records s acts' records' s' ⟨hserves, hearlier⟩ move
      refine ⟨Move.serves move hserves, fun status ev hmem => ?_⟩
      rcases List.mem_append.mp hmem with hmem | hmem
      · obtain ⟨t, ht, hrecord⟩ := hearlier status ev hmem
        exact ⟨t, ht, List.mem_append_left _ hrecord⟩
      · -- the frame of this very step
        refine ⟨s, hserves, List.mem_append_right _ ?_⟩
        cases move with
        | tick ticked notes => cases hmem
        | read after wallUnixMs item => simp at hmem
        | close after => simp at hmem
        | frame status' ev' notes ttft content =>
            obtain ⟨rfl, rfl⟩ : status = status' ∧ ev = ev' := by simpa using hmem
            exact List.mem_cons_self ..
  exact hrun.2 status ev mem

/-- What stops an attempt without aborting it is a `[DONE]`, which is accepted. -/
theorem refined_of_streamEnded {ev : SseEvent} {cause : StreamEndCause} {text : String}
    (stops : frameVerdict serde ev = some (cause, .streamEnded))
    (payload : ev.payload = .data text) : ∃ norm, refined serde text = .ok norm := by
  cases hrefined : refined serde text with
  | ok norm => exact ⟨norm, rfl⟩
  | error detail =>
      rw [frameVerdict_of_error serde payload hrefined] at stops
      cases stops

theorem refined_of_passing {ev : SseEvent} {text : String}
    (passes : frameVerdict serde ev = none) (payload : ev.payload = .data text) :
    ∃ norm, refined serde text = .ok norm := by
  cases hrefined : refined serde text with
  | ok norm => exact ⟨norm, rfl⟩
  | error detail =>
      rw [frameVerdict_of_error serde payload hrefined] at passes
      cases passes

/-- A commit is behind accepted data frames only, as far as these were complete. -/
theorem Ends.accepted {s : ReadLoop} {acts : List Act} {e : LoopEnd}
    (h : Ends serde s acts e) {o : ChatOutcome} (committed : e.ended = .complete (.committed o))
    {ev : SseEvent} (mem : .frame .complete ev ∈ acts) {text : String}
    (payload : ev.payload = .data text) : ∃ norm, refined serde text = .ok norm := by
  cases h with
  | wire cause goes => cases committed
  | @stopped acts' ev' cause endCause split goes stops =>
      rw [split] at mem
      rcases List.mem_append.mp mem with mem | mem
      · exact refined_of_passing (goes.passing ev mem) payload
      · obtain rfl : ev = ev' := by simpa using mem
        cases endCause with
        | streamEnded => exact refined_of_streamEnded stops payload
        | handlerAbort =>
            -- an aborted machine commits nothing
            have hresolve := AttemptEnd.complete.inj committed
            simp [finalizeAttempt, StreamMachine.resolve,
              StreamMachine.finalize_handlerAbort] at hresolve
  | closed tail residue split goes =>
      rw [split] at mem
      rcases List.mem_append.mp mem with mem | mem
      · exact refined_of_passing (goes.passing ev mem) payload
      · simp at mem

/-- A complete data frame that is rejected aborts its attempt. -/
theorem Ends.aborted {s : ReadLoop} {acts : List Act} {e : LoopEnd}
    (h : Ends serde s acts e) {ev : SseEvent} (mem : .frame .complete ev ∈ acts)
    {text detail : String} (payload : ev.payload = .data text)
    (rejected : refined serde text = .error detail) :
    ∃ n, e.ended = .complete (.fault (.aborted n)) := by
  have hverdict := frameVerdict_of_error serde payload rejected
  have hstops : ∀ acts', GoesOn serde acts' → .frame .complete ev ∉ acts' := by
    intro acts' goes hmem
    rw [goes.passing ev hmem] at hverdict
    cases hverdict
  cases h with
  | wire cause goes => exact absurd mem (hstops _ goes)
  | @stopped acts' ev' cause endCause split goes stops =>
      rw [split] at mem
      rcases List.mem_append.mp mem with mem | mem
      · exact absurd mem (hstops _ goes)
      · obtain rfl : ev = ev' := by simpa using mem
        rw [hverdict] at stops
        obtain ⟨-, rfl⟩ := Prod.mk.inj (Option.some.inj stops)
        exact ⟨_, rfl⟩
  | closed tail residue split goes =>
      rw [split] at mem
      rcases List.mem_append.mp mem with mem | mem
      · exact absurd mem (hstops _ goes)
      · simp at mem

variable (serde)

/-- A committed attempt took in the complete frames of its body, up to the one that
stopped it. -/
theorem wireActs_complete_of_committed {wire : Wire} {o : ChatOutcome}
    (committed : attemptEnding cfg serde wire = .complete (.committed o)) :
    ∃ after body, wire.framed = some (after, body) ∧
      (wireActs cfg serde wire).filterMap Act.complete? =
        framesUpTo serde (frameEvents (bodyBytes body.wakeups)) := by
  unfold attemptEnding at committed
  cases hframed : wire.framed with
  | none =>
      obtain ⟨instant, cause, hrun⟩ := runAttempt_of_unframed cfg serde hframed []
        (StreamState.new 0) 0 0
      rw [hrun] at committed
      cases committed
  | some framed =>
      obtain ⟨after, body⟩ := framed
      rw [runAttempt_of_framed cfg serde hframed] at committed
      have hreached := (readLoop_completes_iff cfg serde rfl body).mp ⟨_, committed⟩
      exact ⟨after, body, rfl, wireActs_complete cfg serde hframed hreached.1⟩

/-- **Which frames a committed attempt has taken in.**  The complete ones are those of
its body, up to the one that stopped it, and no data frame among them was rejected.  In
any attempt, a complete data frame that is rejected aborts it, and a frame that is no
UTF-8 is skipped with a record of its own. -/
theorem runAttempt_committed_frames (messages : List Message) {st : StreamState}
    (fresh : st.machine = StreamMachine.new) (selectPolls now : ℕ) (wire : Wire) :
    let attempted := runAttempt cfg serde messages st selectPolls now wire
    let acts := wireActs cfg serde wire
    (∀ o, attempted.ended = .complete (.committed o) →
      (∃ after body, wire.framed = some (after, body) ∧ acts.filterMap Act.complete? =
        framesUpTo serde (frameEvents (bodyBytes body.wakeups))) ∧
      ∀ ev text, .frame .complete ev ∈ acts → ev.payload = .data text →
        ∃ norm, refined serde text = .ok norm) ∧
    (∀ ev text detail, .frame .complete ev ∈ acts → ev.payload = .data text →
      refined serde text = .error detail →
        ∃ n, attempted.ended = .complete (.fault (.aborted n))) ∧
    ∀ status ev raw error, .frame status ev ∈ acts → ev.payload = .undecodable raw error →
      ∃ seq, .undecodableInstallment st.streamId st.attempt seq raw.length error
        (hexPrefix raw) ∈ attempted.records := by
  intro attempted acts
  obtain ⟨instant, polls, records, s, e, hmoves, hends, hrecords, hended, -⟩ :=
    runAttempt_unfolds cfg serde messages fresh selectPolls now wire
  refine ⟨fun o committed => ⟨?_, fun ev text mem payload => ?_⟩, ?_, ?_⟩
  · refine wireActs_complete_of_committed cfg serde (o := o) ?_
    rw [← committed]
    exact (runAttempt_ending cfg serde messages fresh selectPolls now wire).1.symm
  · exact hends.accepted (hended.symm.trans committed) mem payload
  · intro ev text detail mem payload rejected
    obtain ⟨n, haborted⟩ := hends.aborted mem payload rejected
    exact ⟨n, hended.trans haborted⟩
  · intro status ev raw error mem payload
    have hstart : (ReadLoop.start st instant polls).Serves st.streamId st.attempt :=
      ⟨rfl, rfl⟩
    obtain ⟨t, ht, hrecord⟩ := hmoves.recorded hstart mem
    refine ⟨t.instSeq + 1, ?_⟩
    simp only [ReadLoop.frameRecord, payload, ReadLoop.undecodable, ht.1, ht.2] at hrecord
    show _ ∈ (runAttempt cfg serde messages st selectPolls now wire).records
    rw [hrecords]
    exact List.mem_append_left _ hrecord

/-- A finished reply and nothing else is a committed attempt of accepted frames. -/
theorem runAttempt_committed_frames_reply :
    let attempted := runAttempt exampleConfig replySerde [] (StreamState.new 1) 0 0 replyWire
    attempted.ended = .complete (.committed ⟨"hi", "stop", none⟩) ∧
      ∀ ev text, .frame .complete ev ∈ wireActs exampleConfig replySerde replyWire →
        ev.payload = .data text → ∃ norm, refined replySerde text = .ok norm := by
  have hfresh : (StreamState.new 1).machine = StreamMachine.new := rfl
  have hended := (runAttempt_ending exampleConfig replySerde [] hfresh 0 0 replyWire).1.trans
    attemptEnding_replyWire
  exact ⟨hended, ((runAttempt_committed_frames exampleConfig replySerde [] hfresh 0 0
    replyWire).1 _ hended).2⟩

/-- **A commit with a hole in it**: a frame that is no UTF-8, between the text and the
finish reason, is skipped. -/
theorem undecodable_frame_commits :
    let wire := streamOf [hiFrame, [255, 10, 10], stopFrame]
    (runAttempt exampleConfig replySerde [] (StreamState.new 1) 0 0 wire).ended =
        .complete (.committed ⟨"hi", "stop", none⟩) ∧
      ∃ error, ⟨.undecodable [255] error, 1⟩ ∈
        (wireActs exampleConfig replySerde wire).filterMap Act.complete? := by
  refine ⟨by decide +kernel, (Utf8Error.mk 0 (some 1)).display, by decide +kernel⟩

/-! ## Attempts do not leak into each other -/

/-- Behind dials that are retried, the verdict is what the attempt of the next one comes
to. -/
theorem executeTurn_committed_iff (messages : List Message) (streamId : StreamId) (now : ℕ)
    {retried : List Dial} (retries : Retries cfg serde h.retryAllowancePerTurn.toNat retried)
    (last : Dial) (o : ChatOutcome) :
    (executeTurn cfg serde h messages streamId now (retried ++ [last])).verdict =
        some (.committed o) ↔
      last.Admitted ∧ attemptEnding cfg serde last.wire = .complete (.committed o) :=
  turnLoop_committed_iff messages (h.enter streamId now) retries last o

/-- **Nothing of earlier attempts is committed.**  A commit is what the machine computes
from the normalized events of the last attempt alone, and attempts that are retried
before it, whatever they receive, do not change it. -/
theorem executeTurn_isolated (messages : List Message) (streamId : StreamId) (now : ℕ) :
    (∀ dials o, (executeTurn cfg serde h messages streamId now dials).verdict =
        some (.committed o) →
      ∃ earlier begun wire run later,
        (executeTurn cfg serde h messages streamId now dials).trace =
            earlier ++ .attempt begun wire run :: later ∧
          later.filterMap TurnEvent.dialed? = [] ∧
            run.machine.finalize .streamEnded = .ok o) ∧
    ∀ retried retried' last,
      Retries cfg serde h.retryAllowancePerTurn.toNat retried →
        Retries cfg serde h.retryAllowancePerTurn.toNat retried' →
          ∀ o, (executeTurn cfg serde h messages streamId now
              (retried ++ [last])).verdict = some (.committed o) ↔
            (executeTurn cfg serde h messages streamId now
              (retried' ++ [last])).verdict = some (.committed o) := by
  constructor
  · intro dials o committed
    obtain ⟨retried, d, rest, -, -, -, hended, htrace⟩ := executeTurn_committed committed
    set t := (h.enter streamId now).behind cfg serde messages retried
    have hunfolds : (attemptOf cfg serde messages t.begun d.wire).Unfolds serde t.begun.st
        (wireActs cfg serde d.wire) :=
      runAttempt_unfolds cfg serde messages t.begun_fresh _ _ d.wire
    -- the attempt stands between its two entries in the ledger
    refine ⟨.emitted (.ledger streamId 0 (.retryAllowanceGranted h.retryAllowancePerTurn)) ::
        (retryEvents cfg serde messages (h.enter streamId now) retried ++
          [.emitted (.ledger t.st.streamId (t.st.attempt + 1)
            (.sendBucketSpent (d.available - 1)))]),
      t.begun, d.wire, attemptOf cfg serde messages t.begun d.wire,
      [.emitted (.ledger t.st.streamId (t.st.attempt + 1)
          (.sendBucketReturned (d.availableAtReturn + 1))),
        .emitted ((executeTurn cfg serde h messages streamId now dials).state.trailer
          (.committed o))], ?_, rfl, ?_⟩
    · rw [htrace, dialEvents]
      simp only [List.append_assoc, List.cons_append, List.nil_append]
    · unfold AttemptRun.machine
      rw [hunfolds.kept.reported]
      exact hunfolds.committed t.begun_fresh
        ((attemptOf_ended cfg serde messages t d.wire).trans hended)
  · intro retried retried' last retries retries' o
    exact (executeTurn_committed_iff cfg serde h messages streamId now retries last o).trans
      (executeTurn_committed_iff cfg serde h messages streamId now retries' last o).symm

/-- A finished reply at the first dial is committed. -/
theorem executeTurn_replyWire (h : EventHandler) :
    (executeTurn exampleConfig replySerde h [] 1 0 [⟨1, replyWire, 0⟩]).verdict =
      some (.committed ⟨"hi", "stop", none⟩) :=
  (executeTurn_committed_iff exampleConfig replySerde h [] 1 0 (.nil _) ⟨1, replyWire, 0⟩
    _).mpr ⟨Nat.zero_lt_one, attemptEnding_replyWire⟩

/-- An attempt that is reset behind its text and its finish reason changes nothing in the
one that replaces it. -/
theorem executeTurn_isolated_reset :
    (executeTurn exampleConfig replySerde ⟨1, false⟩ [] 1 0
        [⟨1, resetBehind [hiFrame, stopFrame], 0⟩, ⟨1, replyWire, 0⟩]).verdict =
      some (.committed ⟨"hi", "stop", none⟩) := by
  have hreset : Retries exampleConfig replySerde 1
      [⟨1, resetBehind [hiFrame, stopFrame], 0⟩] :=
    ⟨Nat.le_refl _, by decide +kernel⟩
  exact ((executeTurn_isolated exampleConfig replySerde ⟨1, false⟩ [] 1 0).2
    [⟨1, resetBehind [hiFrame, stopFrame], 0⟩] [] ⟨1, replyWire, 0⟩ hreset (.nil _)
    _).mpr (executeTurn_replyWire _)

/-! ## What the screen shows -/

/-- The text on the screen: that of the normalized events under a stream. -/
def shownText (stream : StreamId) (records : List EmissionRecord) : String :=
  textOf (eventsOf (recordsUnder stream records))

/-- What the retried dials and the last one take in. -/
theorem turnActs_retryEvents (messages : List Message) (t : TurnState)
    (retried : List Dial) :
    turnActs cfg serde (retryEvents cfg serde messages t retried) =
      (retried.map Dial.wire).flatMap (wireActs cfg serde) := by
  induction retried generalizing t with
  | nil => rfl
  | cons d retried ih =>
      rw [retryEvents, turnActs_append, ← List.singleton_append, turnActs_append, ih,
        turnActs_dialEvents, TurnState.spent, turnActs_emitted, List.nil_append]
      rfl

/-- The committed content is the text of the last attempt. -/
theorem textOf_of_committed {wire : Wire} {o : ChatOutcome}
    (committed : attemptEnding cfg serde wire = .complete (.committed o)) :
    textOf (actEvents serde (wireActs cfg serde wire)) = o.content := by
  have hfinal := (@runAttempt_unfolds cfg serde [] (StreamState.new 0) rfl 0 0
    wire).committed rfl committed
  obtain ⟨r, -, rfl⟩ := (StreamMachine.finalize_streamEnded_eq_ok_iff _ _).mp hfinal
  rw [StreamMachine.feedAll_content]
  exact (String.empty_append).symm

/-- **When the screen shows what is committed**: exactly when no attempt that the turn
retries took in text. -/
theorem executeTurn_display_iff (messages : List Message) (streamId : StreamId) (now : ℕ)
    (dials : List Dial) (o : ChatOutcome)
    (committed : (executeTurn cfg serde h messages streamId now dials).verdict =
      some (.committed o)) :
    shownText streamId
          (traceRecords (executeTurn cfg serde h messages streamId now dials).trace) =
        o.content ↔
      ∀ retried last,
        ComesTo cfg serde h.retryAllowancePerTurn.toNat dials retried last →
          ∀ d ∈ retried, ¬TakesText cfg serde d.wire := by
  obtain ⟨retried, d, rest, rfl, hretries, hadmitted, hended, htrace⟩ :=
    executeTurn_committed committed
  have hacts : turnActs cfg serde (executeTurn cfg serde h messages streamId now
      (retried ++ d :: rest)).trace =
        (retried.map Dial.wire).flatMap (wireActs cfg serde) ++
          wireActs cfg serde d.wire := by
    rw [htrace, ← List.singleton_append, turnActs_append, turnActs_append,
      turnActs_retryEvents, turnActs_append, turnActs_dialEvents, turnActs_emitted,
      turnActs_emitted, List.nil_append, List.append_nil]
  have hshown : shownText streamId (traceRecords (executeTurn cfg serde h messages streamId
      now (retried ++ d :: rest)).trace) =
        textOf (actEvents serde ((retried.map Dial.wire).flatMap (wireActs cfg serde))) ++
          o.content := by
    rw [shownText, executeTurn_recordsUnder, executeTurn_reported, hacts, actEvents_append,
      textOf_append, textOf_of_committed cfg serde hended]
  rw [hshown, String.append_eq_right_iff,
    ← carriesText_eq_false_iff fun ev => actEvents_text_ne_empty serde,
    carriesText_flatMap_eq_false_iff, List.forall_mem_map]
  constructor
  · intro hquiet retried' last hcomes d' hd'
    exact hquiet d' ((hcomes.retried_isPrefix (not_faulting_of_committed hended)).subset hd')
  · intro hquiet
    refine hquiet retried d ⟨?_, hretries.within, hretries.faulted, hadmitted⟩
    exact ⟨rest, by rw [List.append_assoc]; rfl⟩

/-- A reply that comes behind an attempt without text is shown as it is committed. -/
theorem executeTurn_display_iff_retried :
    shownText 1 (traceRecords (executeTurn exampleConfig replySerde ⟨1, false⟩ [] 1 0
      [⟨1, resetBehind [stopFrame], 0⟩, ⟨1, replyWire, 0⟩]).trace) = "hi" := by
  refine (executeTurn_display_iff exampleConfig replySerde ⟨1, false⟩ [] 1 0
    [⟨1, resetBehind [stopFrame], 0⟩, ⟨1, replyWire, 0⟩] ⟨"hi", "stop", none⟩
    (by decide +kernel)).mpr fun retried last hcomes d hd => ?_
  -- with one retry, it is the first dial that is retried, if any
  cases retried with
  | nil => cases hd
  | cons first rest =>
      obtain rfl : rest = [] := List.eq_nil_of_length_eq_zero
        (Nat.le_zero.mp (Nat.le_of_succ_le_succ hcomes.within))
      obtain ⟨rfl, -⟩ := List.cons_prefix_cons.mp hcomes.made
      obtain rfl := List.mem_singleton.mp hd
      decide +kernel

/-- **The screen shows what is not committed**: an attempt is cut off behind its text,
and the text comes again with the attempt that replaces it. -/
theorem retried_text_shown_twice :
    let turn := executeTurn exampleConfig replySerde ⟨1, false⟩ [] 1 0
      [⟨1, resetBehind [hiFrame], 0⟩, ⟨1, replyWire, 0⟩]
    turn.verdict = some (.committed ⟨"hi", "stop", none⟩) ∧
      shownText 1 (traceRecords turn.trace) = "hihi" := by
  decide +kernel

end RarChat
