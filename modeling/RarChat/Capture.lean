import RarChat.Bookkeeping
import RarChat.Dialing

/-!
# The shape of a capture

What the records of a turn look like, in order.  `AttemptCapture` is the shape of one
attempt: reads and installments are numbered from one without a gap, an event stands
behind the data installment it was refined from, and behind the one `StreamEnd` there
are anomalies and at most one note.  `Captured` is the grammar of a turn: its attempts,
each between its ledger entries, and the trailer.

The capture of every turn has this shape (`executeTurn_captured`).
-/

namespace RarChat

open EarlyExit LabelledRun

/-! ## The shape -/

/-- The number of an installment, decodable or not. -/
def EmissionRecord.installmentSeq? : EmissionRecord → Option ℕ
  | .installment _ _ seq _ _ _ _ _ _ => some seq
  | .undecodableInstallment _ _ seq _ _ _ => some seq
  | _ => none

/-- The numbers of the installments that were reported. -/
def installmentSeqs (records : List EmissionRecord) : List ℕ :=
  records.filterMap EmissionRecord.installmentSeq?

@[simp] theorem installmentSeqs_append (xs ys : List EmissionRecord) :
    installmentSeqs (xs ++ ys) = installmentSeqs xs ++ installmentSeqs ys :=
  List.filterMap_append

/-- Every event refers to a data installment that was emitted before it. -/
def EventsLinked (stream : StreamId) (attempt : UInt32) (records : List EmissionRecord) :
    Prop :=
  ∀ before seq event after,
    records = before ++ .normalizedEvent stream attempt seq event :: after →
      ∃ firstRead lastRead bytes payload status,
        .installment stream attempt seq firstRead lastRead bytes .data payload status ∈
          before

/-- **The capture of an attempt.** -/
structure AttemptCapture (stream : StreamId) (attempt : UInt32)
    (records : List EmissionRecord) : Prop where
  own : ∀ r ∈ records, r.OfAttempt stream attempt
  ended : ∃ body cause unconsumed, ∃ anomalies : List String, ∃ notes,
    records = body ++ .streamEnd stream attempt cause unconsumed ::
        (anomalies.map (.anomaly stream attempt) ++ notes) ∧
      endCausesOf body = [] ∧
        (notes = [] ∨ notes = [.wire stream attempt .eofWithoutDoneSentinel])
  reads : ∃ n, readSeqs records = List.range' 1 n
  installments : ∃ n, installmentSeqs records = List.range' 1 n
  linked : EventsLinked stream attempt records

/-- The trailer of a turn that came to this attempt. -/
def EmissionRecord.IsTrailer (stream : StreamId) (attempts : UInt32)
    (r : EmissionRecord) : Prop :=
  ∃ verdict reads installments events normalizationErrors selectPolls policy,
    r = .turnTrailer stream captureFormatVersion attempts verdict reads installments events
      normalizationErrors selectPolls policy

/-- **The capture of a turn** from the attempt with this number on: the attempt is
denied, or it is the last one, or it is retried. -/
inductive Captured (stream : StreamId) : UInt32 → List EmissionRecord → Prop
  | denied {attempt : UInt32} {trailer : EmissionRecord}
      (closes : trailer.IsTrailer stream attempt) :
      Captured stream attempt [.ledger stream attempt .sendBucketDenied, trailer]
  | last {attempt : UInt32} {records : List EmissionRecord} {trailer : EmissionRecord}
      (spent returned : UInt32) (capture : AttemptCapture stream attempt records)
      (closes : trailer.IsTrailer stream attempt) :
      Captured stream attempt
        (.ledger stream attempt (.sendBucketSpent spent) ::
          (records ++ [.ledger stream attempt (.sendBucketReturned returned), trailer]))
  | retried {attempt : UInt32} {records rest : List EmissionRecord}
      (spent returned remaining : UInt32)
      (capture : AttemptCapture stream attempt records)
      (goes : Captured stream (attempt + 1) rest) :
      Captured stream attempt
        (.ledger stream attempt (.sendBucketSpent spent) ::
          (records ++ .ledger stream attempt (.sendBucketReturned returned) ::
            .ledger stream attempt (.retryAllowanceSpent remaining) :: rest))

/-! ## Events and their installments -/

variable {stream : StreamId} {attempt : UInt32}

/-- Where no event is reported, none is unlinked. -/
theorem EventsLinked.quiet {records : List EmissionRecord} (h : eventsOf records = []) :
    EventsLinked stream attempt records := by
  intro before seq event after split
  rw [split, eventsOf, List.filterMap_append] at h
  cases (List.append_eq_nil_iff.mp h).2

theorem EventsLinked.append {xs ys : List EmissionRecord}
    (hx : EventsLinked stream attempt xs) (hy : EventsLinked stream attempt ys) :
    EventsLinked stream attempt (xs ++ ys) := by
  intro before seq event after split
  rcases List.append_eq_append_iff.mp split with ⟨as, rfl, hys⟩ | ⟨bs, hxs, hafter⟩
  · obtain ⟨first, last, bytes, payload, status, mem⟩ := hy as seq event after hys
    exact ⟨first, last, bytes, payload, status, List.mem_append_right _ mem⟩
  · cases bs with
    | nil =>
        obtain rfl : xs = before := by rw [hxs, List.append_nil]
        have hys : ys = [] ++ .normalizedEvent stream attempt seq event :: after :=
          hafter.symm
        obtain ⟨_, _, _, _, _, mem⟩ := hy [] seq event after hys
        cases mem
    | cons r bs =>
        obtain ⟨rfl, -⟩ := List.cons.inj hafter
        exact hx before seq event bs hxs

/-- Events behind the installment they all refer to are linked. -/
theorem EventsLinked.headed {seq firstRead lastRead bytes : ℕ} {payload : String}
    {status : InstallmentStatus} {records : List EmissionRecord}
    (refer : ∀ seq' event, .normalizedEvent stream attempt seq' event ∈ records →
      seq' = seq) :
    EventsLinked stream attempt
      (.installment stream attempt seq firstRead lastRead bytes .data payload status ::
        records) := by
  intro before seq' event after split
  cases before with
  | nil => cases (List.cons.inj split).1
  | cons r before =>
      obtain ⟨rfl, hrecords⟩ := List.cons.inj split
      obtain rfl : seq' = seq :=
        refer seq' event (hrecords ▸ List.mem_append_right _ (List.mem_cons_self ..))
      exact ⟨firstRead, lastRead, bytes, payload, status, List.mem_cons_self ..⟩

/-! ## Numbers -/

/-- **Numbers go on** from one state of the loop to another. -/
structure Numbers (s : ReadLoop) (records : List EmissionRecord) (s' : ReadLoop) :
    Prop where
  reads : List.range' 1 s.readSeq ++ readSeqs records = List.range' 1 s'.readSeq
  installments :
    List.range' 1 s.instSeq ++ installmentSeqs records = List.range' 1 s'.instSeq

theorem Numbers.append {s s' s'' : ReadLoop} {records records' : List EmissionRecord}
    (h : Numbers s records s') (h' : Numbers s' records' s'') :
    Numbers s (records ++ records') s'' where
  reads := by rw [readSeqs_append, ← List.append_assoc, h.reads, h'.reads]
  installments := by
    rw [installmentSeqs_append, ← List.append_assoc, h.installments, h'.installments]

/-- Records that report neither reads nor installments take no number. -/
theorem Numbers.quiet {s s' : ReadLoop} {records : List EmissionRecord}
    (readSeq : s'.readSeq = s.readSeq) (instSeq : s'.instSeq = s.instSeq)
    (reads : readSeqs records = []) (installments : installmentSeqs records = []) :
    Numbers s records s' where
  reads := by rw [reads, readSeq, List.append_nil]
  installments := by rw [installments, instSeq, List.append_nil]

theorem range'_one_succ (n : ℕ) : List.range' 1 (n + 1) = List.range' 1 n ++ [n + 1] := by
  rw [List.range'_concat, Nat.one_mul, Nat.add_comm 1 n]

/-! ## One small step -/

variable (cfg : OpenAiConfig) {serde : SerdeJson}

/-- The number a frame is recorded under. -/
theorem frameRecord_installmentSeq (s : ReadLoop) (status : InstallmentStatus)
    (ev : SseEvent) :
    (s.frameRecord status ev).installmentSeq? = some (s.instSeq + 1) ∧
      (s.frameRecord status ev).readSeq? = none := by
  unfold ReadLoop.frameRecord
  cases ev.payload <;> exact ⟨rfl, rfl⟩

/-- **A small step goes on with the numbers.** -/
theorem Move.numbers {s s' : ReadLoop} {acts : List Act} {records : List EmissionRecord}
    (h : Move serde s acts records s') : Numbers s records s' := by
  cases h with
  | tick ticked notes =>
      obtain ⟨_, _, _, _, _, rfl⟩ := ticked
      exact Numbers.quiet rfl rfl (filterMap_map_eq_nil (fun _ => rfl) notes)
        (filterMap_map_eq_nil (fun _ => rfl) notes)
  | read after wallUnixMs item =>
      exact ⟨(range'_one_succ s.readSeq).symm, List.append_nil _⟩
  | close after => exact Numbers.quiet rfl rfl rfl rfl
  | frame status ev notes ttft content =>
      obtain ⟨hseq, hread⟩ := frameRecord_installmentSeq s status ev
      -- neither the notes on a frame nor its refinement take a number
      constructor
      · rw [readSeqs, List.filterMap_cons_none hread, filterMap_behind_frame
          (fun _ _ _ => rfl) (fun _ _ _ _ => rfl) (fun _ _ _ _ => rfl), List.append_nil]
        rfl
      · rw [installmentSeqs, List.filterMap_cons_some hseq, filterMap_behind_frame
          (fun _ _ _ => rfl) (fun _ _ _ _ => rfl) (fun _ _ _ _ => rfl)]
        exact (range'_one_succ s.instSeq).symm

/-- **A small step links its events.** -/
theorem Move.linked {s s' : ReadLoop} {acts : List Act} {records : List EmissionRecord}
    (h : Move serde s acts records s') (serves : s.Serves stream attempt) :
    EventsLinked stream attempt records := by
  cases h with
  | tick ticked notes => exact .quiet (filterMap_map_eq_nil (fun _ => rfl) notes)
  | read after wallUnixMs item => exact .quiet rfl
  | close after => exact .quiet rfl
  | frame status ev notes ttft content =>
      cases hpayload : ev.payload with
      | data text =>
          simp only [ReadLoop.frameRecord, hpayload, ReadLoop.installment, serves.1,
            serves.2]
          refine EventsLinked.headed fun seq' event mem => ?_
          rcases List.mem_append.mp mem with mem | mem
          · obtain ⟨note, -, hnote⟩ := List.mem_map.mp mem
            cases hnote
          · rcases refinement_cases mem with ⟨_, heq⟩ | ⟨_, heq⟩ | ⟨_, heq⟩
            · cases heq
            · exact (EmissionRecord.normalizedEvent.inj heq).2.2.1
            · cases heq
      | comment text =>
          refine .quiet ?_
          simp only [ReadLoop.frameRecord, StreamState.refinement, hpayload,
            List.append_nil]
          exact filterMap_map_eq_nil (fun _ => rfl) notes
      | undecodable raw error =>
          refine .quiet ?_
          simp only [ReadLoop.frameRecord, StreamState.refinement, hpayload,
            List.append_nil]
          exact filterMap_map_eq_nil (fun _ => rfl) notes

/-! ## The attempt -/

/-- **A run of small steps** goes on with the numbers and links its events. -/
theorem Moves.captured {s s' : ReadLoop} {acts : List Act} {records : List EmissionRecord}
    (h : Moves serde s acts records s') (serves : s.Serves stream attempt) :
    Numbers s records s' ∧ EventsLinked stream attempt records := by
  have hrun : s'.Serves stream attempt ∧ Numbers s records s' ∧
      EventsLinked stream attempt records := by
    refine Run.invariant (I := fun _ records s' => s'.Serves stream attempt ∧
      Numbers s records s' ∧ EventsLinked stream attempt records) ?_ ?_ h
    · exact ⟨serves, Numbers.quiet rfl rfl rfl rfl, .quiet rfl⟩
    · intro acts records s₁ acts' records' s₂ ⟨hserves, hnumbers, hlinked⟩ move
      exact ⟨Move.serves move hserves, hnumbers.append (Move.numbers move),
        hlinked.append (Move.linked move hserves)⟩
  exact hrun.2

/-- **What an end emits**: the residue, the end of the stream, the anomalies, and the note
on a missing sentinel. -/
theorem Ends.closing {s : ReadLoop} {acts : List Act} {e : LoopEnd}
    (h : Ends serde s acts e) (serves : s.Serves stream attempt) :
    ∃ residue cause unconsumed, ∃ anomalies : List String, ∃ notes,
      e.records = residueRecords stream attempt residue ++
          .streamEnd stream attempt cause unconsumed ::
            (anomalies.map (.anomaly stream attempt) ++ notes) ∧
        (notes = [] ∨ notes = [.wire stream attempt .eofWithoutDoneSentinel]) := by
  obtain ⟨rfl, rfl⟩ := serves
  cases h with
  | wire cause goes => exact ⟨[], cause, s.parser.buffered, [], [], rfl, .inl rfl⟩
  | @stopped _ _ cause endCause split goes stops =>
      refine ⟨[], cause, s.parser.buffered, s.st.machine.anomalies, [], ?_, .inl rfl⟩
      simp only [ReadLoop.endComplete, finalizeAttempt, List.append_nil]
      rfl
  | closed tail residue split goes =>
      refine ⟨residue, s.closeCause, 0, s.st.machine.anomalies,
        s.eofNote (finalizeAttempt s.st .streamEnded).resolution, ?_, ?_⟩
      · simp only [ReadLoop.endClosed, finalizeAttempt, List.append_assoc, List.cons_append]
        rfl
      · cases (finalizeAttempt s.st .streamEnded).resolution with
        | committed o => exact .inr rfl
        | fault f => exact .inl rfl

theorem residueRecords_cases {residue : List UInt8} {r : EmissionRecord}
    (mem : r ∈ residueRecords stream attempt residue) :
    r = .residue stream attempt residue.length (fromUtf8Lossy residue) := by
  unfold residueRecords at mem
  split_ifs at mem
  · cases mem
  · exact List.mem_singleton.mp mem

/-- An end takes no number and reports no event. -/
theorem Ends.quiet {s : ReadLoop} {acts : List Act} {e : LoopEnd}
    (h : Ends serde s acts e) :
    readSeqs e.records = [] ∧ installmentSeqs e.records = [] ∧ eventsOf e.records = [] := by
  have hserves : s.Serves s.st.streamId s.st.attempt := ⟨rfl, rfl⟩
  obtain ⟨residue, cause, unconsumed, anomalies, notes, hrecords, hnotes⟩ := h.closing hserves
  have hquiet : ∀ r ∈ e.records,
      r.readSeq? = none ∧ r.installmentSeq? = none ∧ r.event? = none := by
    intro r hr
    rw [hrecords, List.mem_append, List.mem_cons, List.mem_append, List.mem_map] at hr
    rcases hr with hr | rfl | ⟨note, -, rfl⟩ | hr
    · obtain rfl := residueRecords_cases hr
      exact ⟨rfl, rfl, rfl⟩
    · exact ⟨rfl, rfl, rfl⟩
    · exact ⟨rfl, rfl, rfl⟩
    · rcases hnotes with rfl | rfl
      · cases hr
      · obtain rfl := List.mem_singleton.mp hr
        exact ⟨rfl, rfl, rfl⟩
  exact ⟨List.filterMap_eq_nil_iff.mpr fun r hr => (hquiet r hr).1,
    List.filterMap_eq_nil_iff.mpr fun r hr => (hquiet r hr).2.1,
    List.filterMap_eq_nil_iff.mpr fun r hr => (hquiet r hr).2.2⟩

variable (serde)

/-- **The capture of every attempt** has its shape. -/
theorem runAttempt_captured (messages : List Message) {st : StreamState}
    (fresh : st.machine = StreamMachine.new) (selectPolls now : ℕ) (wire : Wire) :
    AttemptCapture st.streamId st.attempt
      (runAttempt cfg serde messages st selectPolls now wire).records := by
  obtain ⟨instant, polls, records, s, e, hmoves, hends, hrecords, -, -⟩ :=
    runAttempt_unfolds cfg serde messages fresh selectPolls now wire
  have hown := (runAttempt_records cfg serde messages st selectPolls now wire).2
  have hstart : (ReadLoop.start st instant polls).Serves st.streamId st.attempt :=
    ⟨rfl, rfl⟩
  obtain ⟨hnumbers, hlinked⟩ := hmoves.captured hstart
  obtain ⟨residue, cause, unconsumed, anomalies, notes, hclosing, hnotes⟩ :=
    hends.closing (hmoves.serves hstart)
  obtain ⟨hreads, hinstallments, hevents⟩ := hends.quiet
  refine ⟨hown, ⟨records ++ residueRecords st.streamId st.attempt residue, cause,
    unconsumed, anomalies, notes, ?_, ?_, hnotes⟩, ⟨s.readSeq, ?_⟩, ⟨s.instSeq, ?_⟩, ?_⟩
  · rw [hrecords, hclosing, List.append_assoc]
  · have hresidue : endCausesOf (residueRecords st.streamId st.attempt residue) = [] := by
      refine List.filterMap_eq_nil_iff.mpr fun r hr => ?_
      obtain rfl := residueRecords_cases hr
      rfl
    rw [endCausesOf, List.filterMap_append]
    exact List.append_eq_nil_iff.mpr ⟨hmoves.endCauses, hresidue⟩
  -- the loop starts at number zero
  · rw [hrecords, readSeqs_append, hreads, List.append_nil, ← hnumbers.reads]
    rfl
  · rw [hrecords, installmentSeqs_append, hinstallments, List.append_nil,
      ← hnumbers.installments]
    rfl
  · rw [hrecords]
    exact hlinked.append (.quiet hevents)

/-! ## The turn -/

variable (h : EventHandler)

theorem trailer_isTrailer (t : TurnState) (verdict : TurnVerdict) :
    (t.trailer verdict).IsTrailer t.st.streamId t.st.attempt :=
  ⟨_, _, _, _, _, _, _, rfl⟩

/-- The capture of an admitted dial: its attempt, between the entries for the bucket. -/
theorem traceRecords_dialEvents (messages : List Message) (t : TurnState) (d : Dial) :
    ∃ records, AttemptCapture t.st.streamId (t.st.attempt + 1) records ∧
      traceRecords (dialEvents cfg serde messages t d) =
        .ledger t.st.streamId (t.st.attempt + 1) (.sendBucketSpent (d.available - 1)) ::
          (records ++ [.ledger t.st.streamId (t.st.attempt + 1)
            (.sendBucketReturned (d.availableAtReturn + 1))]) :=
  ⟨(attemptOf cfg serde messages t.begun d.wire).records,
    runAttempt_captured cfg serde messages t.begun_fresh _ _ d.wire, rfl⟩

/-- **The loop of a turn** goes through its attempts in order, up to the trailer. -/
theorem turnLoop_captured (messages : List Message) (t : TurnState) (dials : List Dial)
    {verdict : TurnVerdict}
    (settled : (turnLoop cfg serde h messages t dials).stop = some verdict) :
    Captured t.st.streamId (t.st.attempt + 1)
      (traceRecords (turnLoop cfg serde h messages t dials).out ++
        [(turnLoop cfg serde h messages t dials).state.trailer verdict]) := by
  induction t, dials using turn_induction cfg serde messages with
  | nil t => cases settled
  | denied t d rest denied =>
      rw [turnLoop_of_denied denied]
      exact .denied (trailer_isTrailer t.begun verdict)
  | settled t d rest hd last =>
      obtain ⟨records, hcapture, hrecords⟩ := traceRecords_dialEvents cfg serde messages t d
      have htrailer := trailer_isTrailer (t.tried cfg serde messages d.wire) verdict
      rw [TurnState.tried_streamId, TurnState.tried_attempt] at htrailer
      rw [turnLoop_of_settled hd last, hrecords]
      simp only [List.cons_append, List.append_assoc, List.nil_append]
      exact .last _ _ hcapture htrailer
  | retried t d rest hd faulting left ih =>
      obtain ⟨records, hcapture, hrecords⟩ := traceRecords_dialEvents cfg serde messages t d
      rw [turnLoop_of_retry hd faulting left] at settled ⊢
      have hgoes := ih settled
      rw [TurnState.drawn_st, TurnState.tried_streamId, TurnState.tried_attempt] at hgoes
      rw [Outcome.after_out, Outcome.after_state, traceRecords_append, traceRecords_append,
        hrecords, traceRecords_emitted]
      simp only [List.cons_append, List.append_assoc, List.nil_append]
      exact .retried _ _ _ hcapture hgoes

/-- **The capture of every turn is well formed**: the grant, then the attempts in order,
and the trailer at the end. -/
theorem executeTurn_captured (messages : List Message) (streamId : StreamId) (now : ℕ)
    (dials : List Dial) (verdict : TurnVerdict)
    (settled : (executeTurn cfg serde h messages streamId now dials).verdict =
      some verdict) :
    ∃ records,
      recordsUnder streamId
          (traceRecords (executeTurn cfg serde h messages streamId now dials).trace) =
        .ledger streamId 0 (.retryAllowanceGranted h.retryAllowancePerTurn) :: records ∧
      Captured streamId 1 records := by
  have hstop : (turnLoop cfg serde h messages (h.enter streamId now) dials).stop =
      some verdict := settled
  have hrecords := traceRecords_executeTurn cfg serde h messages streamId now dials
  dsimp only at hrecords
  rw [hstop] at hrecords
  rw [executeTurn_recordsUnder, hrecords]
  exact ⟨_, rfl, turnLoop_captured cfg serde h messages (h.enter streamId now) dials hstop⟩

/-- The capture of a reply behind an attempt that was reset in the middle. -/
theorem executeTurn_captured_retried :
    ∃ records,
      recordsUnder 1 (traceRecords (executeTurn exampleConfig replySerde ⟨1, false⟩ [] 1 0
          [⟨1, resetBehind [hiFrame], 0⟩, ⟨1, replyWire, 0⟩]).trace) =
        .ledger 1 0 (.retryAllowanceGranted 1) :: records ∧ Captured 1 1 records :=
  executeTurn_captured exampleConfig replySerde ⟨1, false⟩ [] 1 0
    [⟨1, resetBehind [hiFrame], 0⟩, ⟨1, replyWire, 0⟩]
    (.committed ⟨"hi", "stop", none⟩) (by decide +kernel)

end RarChat
