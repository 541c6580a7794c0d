import RarChat.Delivery
import RarChat.SseFraming

/-!
# Accounting for the bytes received

INV-CHAT-14 as byte accounting.  The records of an attempt are read as a ledger:
a `Read` receives bytes, and an installment, an undecodable installment, a
residue or the unconsumed bytes of a `StreamEnd` cover some.  `Accounted` says
that the covered bytes are those of the frames that are events, each once and in
order, and of the rest, so that together with the terminators and the frames of
ignored fields they are all bytes received.

Frames leave the parser for a local list before they are recorded, and a `return`
may leave frames in that list; `runAttempt_accounted_iff` says exactly when none is
lost.
-/

namespace RarChat

open EarlyExit

/-! ## The ledger -/

/-- What a record says about bytes. -/
inductive Tally
  | received (bytes : ℕ)
  | covered (bytes : ℕ)
deriving DecidableEq, Repr

def Tally.received? : Tally → Option ℕ
  | .received bytes => some bytes
  | .covered _ => none

def Tally.covered? : Tally → Option ℕ
  | .received _ => none
  | .covered bytes => some bytes

def EmissionRecord.tally : EmissionRecord → Option Tally
  | .read _ _ _ _ _ bytes _ => some (.received bytes)
  | .installment _ _ _ _ _ bytes _ _ _ => some (.covered bytes)
  | .undecodableInstallment _ _ _ bytes _ _ => some (.covered bytes)
  | .residue _ _ bytes _ => some (.covered bytes)
  | .streamEnd _ _ _ unconsumed =>
      if unconsumed = 0 then none else some (.covered unconsumed)
  | _ => none

def tallies (records : List EmissionRecord) : List Tally :=
  records.filterMap EmissionRecord.tally

/-- The byte counts of the `Read` records. -/
def receivedCounts (records : List EmissionRecord) : List ℕ :=
  (tallies records).filterMap Tally.received?

/-- The byte counts of the records that cover bytes. -/
def coveredCounts (records : List EmissionRecord) : List ℕ :=
  (tallies records).filterMap Tally.covered?

/-- A count, unless there is nothing to count. -/
def nonzero (n : ℕ) : List ℕ := if n = 0 then [] else [n]

/-- The lengths of the blocks that are events. -/
def eventLengths (blocks : List (List UInt8)) : List ℕ :=
  (blocks.filter fun block => (parseBlock block).isSome).map List.length

/-- The bytes of terminators and of frames that hold ignored fields or nothing. -/
def ignoredBytes (body : List UInt8) : ℕ :=
  ((sseCutter.frames body).map fun piece =>
    piece.sep.length +
      if (parseBlock piece.block).isSome then 0 else piece.block.length).sum

/-- **Nothing received is silently eaten**: what the records cover, in order, is
the frames that are events and the rest, and with the terminators and the ignored
frames it is what the `Read` records count. -/
structure Accounted (records : List EmissionRecord) (body : List UInt8) : Prop where
  reads : (receivedCounts records).sum = body.length
  covers : ∀ blocks rest, Decomposes body blocks rest →
    coveredCounts records = eventLengths blocks ++ nonzero rest.length
  total : (receivedCounts records).sum =
    (coveredCounts records).sum + ignoredBytes body

@[simp] theorem tallies_append (xs ys : List EmissionRecord) :
    tallies (xs ++ ys) = tallies xs ++ tallies ys := List.filterMap_append

theorem receivedCounts_append (xs ys : List EmissionRecord) :
    receivedCounts (xs ++ ys) = receivedCounts xs ++ receivedCounts ys := by
  simp [receivedCounts]

theorem coveredCounts_append (xs ys : List EmissionRecord) :
    coveredCounts (xs ++ ys) = coveredCounts xs ++ coveredCounts ys := by
  simp [coveredCounts]

/-- Frames, terminators and the rest are all there is. -/
theorem length_eq_events_add_ignored (body : List UInt8) :
    body.length =
      (eventLengths ((sseCutter.frames body).map Cutter.Piece.block)).sum +
        (nonzero (frameRest body).length).sum + ignoredBytes body := by
  have hrest : (nonzero (frameRest body).length).sum = (frameRest body).length := by
    unfold nonzero
    split_ifs with h
    · rw [h]
      rfl
    · simp
  have hpieces : ∀ pieces : List (Cutter.Piece UInt8),
      ((pieces.map Cutter.Piece.symbols).flatten).length =
        (eventLengths (pieces.map Cutter.Piece.block)).sum +
          (pieces.map fun piece => piece.sep.length +
            if (parseBlock piece.block).isSome then 0
            else piece.block.length).sum := by
    intro pieces
    induction pieces with
    | nil => rfl
    | cons piece pieces ih =>
        simp only [List.map_cons, List.flatten_cons, List.length_append, ih,
          eventLengths, List.filter_cons, List.sum_cons, Cutter.Piece.symbols]
        by_cases hevent : (parseBlock piece.block).isSome = true
        · simp only [hevent, if_true, List.map_cons, List.sum_cons]
          omega
        · simp only [hevent, Bool.false_eq_true, if_false]
          omega
  calc body.length
      = (((sseCutter.frames body).map Cutter.Piece.symbols).flatten ++
          sseCutter.rest body).length := by rw [sseCutter.symbols_append_rest]
    _ = _ := by
        rw [List.length_append, hpieces, hrest, ignoredBytes, frameRest]
        omega

/-- The order of the covered frames is all that is to be shown. -/
theorem accounted_iff_covers {records : List EmissionRecord} {body : List UInt8}
    (reads : (receivedCounts records).sum = body.length) :
    Accounted records body ↔
      coveredCounts records =
        eventLengths ((sseCutter.frames body).map Cutter.Piece.block) ++
          nonzero (frameRest body).length := by
  constructor
  · intro h
    exact h.covers _ _ (decomposes_frames body)
  · intro h
    refine ⟨reads, fun blocks rest hdec => ?_, ?_⟩
    · obtain ⟨rfl, rfl⟩ := decomposes_iff.mp hdec
      exact h
    · rw [reads, h, List.sum_append]
      exact length_eq_events_add_ignored body

/-! ## Frames -/

/-- The bytes the record of an event covers. -/
def SseEvent.coveredBytes (ev : SseEvent) : ℕ :=
  match ev.payload with
  | .undecodable raw _ => raw.length
  | _ => ev.rawByteLen

theorem parseBlock_coveredBytes {block : List UInt8} {ev : SseEvent}
    (h : parseBlock block = some ev) : ev.coveredBytes = block.length := by
  unfold parseBlock at h
  cases hdec : fromUtf8 block with
  | error e =>
      simp only [hdec, Option.some.injEq] at h
      rw [← h]
      rfl
  | ok text =>
      simp only [hdec] at h
      split_ifs at h <;> cases h <;> rfl

/-- The events of blocks cover the blocks that are events. -/
theorem map_coveredBytes (blocks : List (List UInt8)) :
    (blocks.filterMap parseBlock).map SseEvent.coveredBytes = eventLengths blocks := by
  unfold eventLengths
  induction blocks with
  | nil => rfl
  | cons block blocks ih =>
      cases hparse : parseBlock block with
      | none => simp [hparse, ih]
      | some ev => simp [hparse, ih, parseBlock_coveredBytes hparse]

theorem map_coveredBytes_frameEvents (bytes : List UInt8) :
    (frameEvents bytes).map SseEvent.coveredBytes =
      eventLengths ((sseCutter.frames bytes).map Cutter.Piece.block) := by
  rw [← map_coveredBytes, List.filterMap_map]
  rfl

variable (cfg : OpenAiConfig) (serde : SerdeJson)

/-- Handler records say nothing about bytes. -/
theorem tallies_onInstallment (st : StreamState) (seq : ℕ) (payload : String)
    (status : InstallmentStatus) :
    tallies (onInstallment serde st seq .data payload status).records = [] := by
  cases hrefined : refined serde payload with
  | error detail =>
      obtain ⟨n, hstep⟩ := onInstallment_of_error hrefined st seq status
      rw [hstep]
      rfl
  | ok norm =>
      rw [onInstallment_of_ok hrefined st seq status, tallies_append, tallies, tallies,
        filterMap_map_eq_nil (fun _ => rfl), filterMap_map_eq_nil (fun _ => rfl)]
      rfl

/-- What the unconsumed bytes of a `StreamEnd` cover. -/
def unconsumedTallies (n : ℕ) : List Tally := (nonzero n).map .covered

theorem tallies_streamEnd (s : ReadLoop) (cause : StreamEndCause) (n : ℕ)
    (records : List EmissionRecord) :
    tallies (s.streamEnd cause n :: records) =
      unconsumedTallies n ++ tallies records := by
  unfold tallies unconsumedTallies nonzero ReadLoop.streamEnd
  rw [List.filterMap_cons]
  by_cases hzero : n = 0 <;> simp [EmissionRecord.tally, hzero]

theorem tallies_finalizeAttempt (st : StreamState) (cause : EndCause) :
    tallies (finalizeAttempt st cause).records = [] := by
  exact filterMap_map_eq_nil (fun _ => rfl) _

theorem tallies_endComplete (s : ReadLoop) (cause : StreamEndCause)
    (endCause : EndCause) :
    tallies (s.endComplete cause endCause).records =
      unconsumedTallies s.parser.buffered := by
  unfold ReadLoop.endComplete
  rw [tallies_streamEnd, tallies_finalizeAttempt, List.append_nil]

theorem tallies_endWire (s : ReadLoop) (cause : StreamEndCause) :
    tallies (s.endWire cause).records = unconsumedTallies s.parser.buffered := by
  unfold ReadLoop.endWire
  rw [tallies_streamEnd]
  exact List.append_nil _

/-- Of the records of a data frame the installment covers bytes. -/
theorem tallies_dataRecords (s : ReadLoop) (gap : ℕ) (ev : SseEvent) (text : String)
    (refinement : List EmissionRecord) :
    tallies (s.dataRecords gap ev text refinement) =
      .covered ev.rawByteLen :: tallies refinement := by
  unfold tallies ReadLoop.dataRecords
  rw [List.cons_append, List.filterMap_cons, List.filterMap_append,
    List.filterMap_cons]
  cases s.ttftEmitted <;> rfl

/-- A directive that ends the attempt leaves the buffer unconsumed. -/
theorem follow_tallies (s : ReadLoop) (gained : ℕ)
    (result : Except DriverFault FlowDirective) :
    tallies (s.follow gained result).out =
      if (s.follow gained result).stop.isSome then
        unconsumedTallies s.parser.buffered
      else [] := by
  unfold ReadLoop.follow
  split
  · rfl
  all_goals exact tallies_endComplete _ _ _

/-- **A frame covers its bytes**; one that stops the attempt leaves the buffer
unconsumed. -/
theorem frameStep_tallies (gap : ℕ) (s : ReadLoop) (ev : SseEvent) :
    tallies (frameStep serde gap s ev).out =
      .covered ev.coveredBytes ::
        if (frameStep serde gap s ev).stop.isSome then
          unconsumedTallies s.parser.buffered
        else [] := by
  cases hpayload : ev.payload with
  | undecodable raw error =>
      simp only [frameStep, SseEvent.coveredBytes, hpayload]
      rfl
  | comment text =>
      simp only [frameStep, SseEvent.coveredBytes, hpayload]
      rfl
  | data text =>
      have hstep := tallies_onInstallment serde s.st (s.instSeq + 1) text .complete
      rw [frameStep_of_data serde hpayload]
      generalize onInstallment serde s.st _ _ _ _ = step at hstep ⊢
      simp only [ReadLoop.dataOutcome, Outcome.after_out, Outcome.after_stop,
        tallies_append, tallies_dataRecords, hstep, follow_tallies,
        SseEvent.coveredBytes, hpayload]
      rfl

/-- The frames of a read cover the bytes of those that are taken. -/
theorem run_frameStep_tallies (gap : ℕ) (s : ReadLoop) (evs : List SseEvent) :
    tallies (run (frameStep serde gap) s evs).out =
      (taken (frameStep serde gap) s evs).map (fun ev => .covered ev.coveredBytes) ++
        if (run (frameStep serde gap) s evs).stop.isSome then
          unconsumedTallies s.parser.buffered
        else [] := by
  induction evs generalizing s with
  | nil => rfl
  | cons ev evs ih =>
      have htally := frameStep_tallies serde gap s ev
      cases hstop : (frameStep serde gap s ev).stop with
      | some e =>
          rw [run_cons_of_stop _ hstop, taken_cons_of_stop _ hstop, htally]
          rfl
      | none =>
          rw [hstop] at htally
          rw [run_cons_of_running _ hstop, taken_cons_of_running _ hstop,
            Outcome.after_out, tallies_append, htally, ih,
            (frameStep_cases serde gap s ev).1.parser, Outcome.after_stop]
          rfl

/-! ## Wakeups -/

/-- The wakeup loses no frame: a read that overflows completes none, and in any
other read no event follows one that stops the attempt.  The frames of a read are a local
vector in both places.  `push` returns its error without them, and the loop over them
returns at the first that stops the attempt; what the vector still holds then is in no
record, neither as an installment nor among the unconsumed bytes of the end, which are
those of the parser's buffer alone. -/
def LosesNothing (s : ReadLoop) : Wakeup → Prop
  | .tick _ _ => True
  | .read _ _ item =>
      if s.parser.limitBytes < (frameRest (s.parser.buf ++ item)).length then
        frameEvents (s.parser.buf ++ item) = []
      else
        ∀ ev ∈ (frameEvents (s.parser.buf ++ item)).dropLast,
          frameVerdict serde ev = none

/-- What a wakeup does to the ledger, if the buffer holds no complete frame. -/
structure WakeupTallies (s : ReadLoop) (w : Wakeup) (o : LoopOutcome) : Prop where
  parser : o.state.parser = { s.parser with buf := frameRest (s.parser.buf ++ w.item) }
  reads : (receivedCounts o.out).sum = w.item.length
  covers : coveredCounts o.out =
      (frameEvents (s.parser.buf ++ w.item)).map SseEvent.coveredBytes ++
        (if o.stop.isSome then nonzero (frameRest (s.parser.buf ++ w.item)).length
          else []) ↔
    LosesNothing serde s w
  running : o.stop = none → LosesNothing serde s w

theorem covered?_map_covered (ns : List ℕ) :
    (ns.map Tally.covered).filterMap Tally.covered? = ns := by
  rw [List.filterMap_map]
  exact List.filterMap_some

theorem received?_map_covered (ns : List ℕ) :
    (ns.map Tally.covered).filterMap Tally.received? = [] := by
  rw [List.filterMap_map, List.filterMap_eq_nil_iff]
  exact fun _ _ => rfl

/-- Records that only leave bytes unconsumed. -/
theorem counts_of_unconsumed {records : List EmissionRecord} {n : ℕ}
    (h : tallies records = unconsumedTallies n) :
    receivedCounts records = [] ∧ coveredCounts records = nonzero n := by
  unfold receivedCounts coveredCounts
  rw [h]
  exact ⟨received?_map_covered _, covered?_map_covered _⟩

/-- The ledger of a run over frames. -/
theorem run_frameStep_counts (gap : ℕ) (s : ReadLoop) (evs : List SseEvent) :
    receivedCounts (run (frameStep serde gap) s evs).out = [] ∧
      coveredCounts (run (frameStep serde gap) s evs).out =
        (taken (frameStep serde gap) s evs).map SseEvent.coveredBytes ++
          if (run (frameStep serde gap) s evs).stop.isSome then
            nonzero s.parser.buffered
          else [] := by
  have hmap : (taken (frameStep serde gap) s evs).map
      (fun ev => Tally.covered ev.coveredBytes) =
        ((taken (frameStep serde gap) s evs).map SseEvent.coveredBytes).map
          .covered := by
    rw [List.map_map]
    rfl
  unfold receivedCounts coveredCounts
  rw [run_frameStep_tallies, hmap, List.filterMap_append, List.filterMap_append,
    covered?_map_covered, received?_map_covered]
  unfold unconsumedTallies
  split_ifs
  · rw [covered?_map_covered, received?_map_covered]
    exact ⟨rfl, rfl⟩
  · exact ⟨rfl, rfl⟩

/-- All frames of a read are covered exactly when they are all taken. -/
theorem taken_coveredBytes_iff (gap : ℕ) (s : ReadLoop) (evs : List SseEvent)
    (more : List ℕ) :
    (taken (frameStep serde gap) s evs).map SseEvent.coveredBytes ++ more =
        evs.map SseEvent.coveredBytes ++ more ↔
      ∀ ev ∈ evs.dropLast, frameVerdict serde ev = none := by
  rw [List.append_left_inj,
    ← taken_eq_self_iff (frameStep serde gap) (frameStep_running_iff serde gap) s evs]
  constructor
  · intro hmap
    refine (taken_isPrefix (frameStep serde gap) s evs).eq_of_length ?_
    simpa using congrArg List.length hmap
  · intro heq
    rw [heq]

theorem readStep_tallies (s : ReadLoop) (after wallUnixMs : ℕ) (item : List UInt8) :
    WakeupTallies serde s (.read after wallUnixMs item)
      (readStep serde s after wallUnixMs item) := by
  have hread : ∀ records,
      receivedCounts ([s.readRecord (s.now + after) wallUnixMs item.length] ++
          records) = item.length :: receivedCounts records ∧
        coveredCounts ([s.readRecord (s.now + after) wallUnixMs item.length] ++
          records) = coveredCounts records := fun _ => ⟨rfl, rfl⟩
  by_cases hlong : s.parser.limitBytes < (frameRest (s.parser.buf ++ item)).length
  · rw [readStep_of_overflow serde hlong]
    obtain ⟨hreceived, hcovered⟩ := counts_of_unconsumed
      (tallies_endWire (s.afterPush (s.now + after) item)
        (.bufferOverflow s.parser.limitBytes))
    refine ⟨rfl, ?_, ?_, fun h => by cases h⟩
    · rw [LoopEnd.returned, LoopEnd.after, (hread _).1, hreceived]
      rfl
    · rw [LoopEnd.returned, LoopEnd.after, (hread _).2, hcovered]
      simp only [LosesNothing, hlong, if_true, Option.isSome_some]
      refine List.self_eq_append_left.trans ?_
      rw [List.map_eq_nil_iff]
      exact Iff.rfl
  · rw [readStep_of_fits serde hlong]
    obtain ⟨hreceived, hcovered⟩ := run_frameStep_counts serde
      (s.now + after - s.lastReadAt) (s.afterPush (s.now + after) item)
      (frameEvents (s.parser.buf ++ item))
    refine ⟨parser_run_frameStep serde _ _ _, ?_, ?_, ?_⟩
    · rw [Outcome.after_out, (hread _).1, hreceived]
      rfl
    · rw [Outcome.after_out, (hread _).2, hcovered, Outcome.after_stop]
      refine (taken_coveredBytes_iff serde _ _ _ _).trans ?_
      simp only [LosesNothing, hlong, if_false]
    · intro hstop
      have hall := (run_running_iff _ (frameStep_running_iff serde _) _ _).mp hstop
      simp only [LosesNothing, hlong, if_false]
      exact fun ev hev => hall ev (List.dropLast_subset _ hev)

theorem tickStep_tallies (s : ReadLoop) (between : frameRest s.parser.buf = s.parser.buf)
    (after activeStreams : ℕ) :
    WakeupTallies serde s (.tick after activeStreams)
      (tickStep cfg s after activeStreams) := by
  have hitem : s.parser.buf ++ Wakeup.item (.tick after activeStreams) =
      s.parser.buf := List.append_nil _
  have hparser : s.parser = { s.parser with
      buf := frameRest (s.parser.buf ++ Wakeup.item (.tick after activeStreams)) } := by
    rw [hitem, between]
  obtain ⟨s', notes, ⟨_, _, _, _, _, rfl⟩, hstep | hstep⟩ :=
    tickStep_cases cfg s after activeStreams
  all_goals
    have hnotes : tallies (notes.map (.scheduler s.st.streamId s.st.attempt)) = [] :=
      filterMap_map_eq_nil (fun _ => rfl) notes
    rw [hstep]
  · refine ⟨hparser, ?_, ?_, fun _ => trivial⟩
    · rw [receivedCounts, hnotes]
      rfl
    · rw [hitem, frameEvents_of_rest between, coveredCounts, hnotes]
      exact iff_of_true rfl trivial
  · refine ⟨hparser, ?_, ?_, fun _ => trivial⟩
    · rw [LoopEnd.returned, LoopEnd.after, receivedCounts_append,
        (counts_of_unconsumed (tallies_endWire _ _)).1, receivedCounts, hnotes]
      rfl
    · rw [LoopEnd.returned, LoopEnd.after, coveredCounts_append,
        (counts_of_unconsumed (tallies_endWire _ _)).2, coveredCounts, hnotes, hitem,
        frameEvents_of_rest between, between]
      exact iff_of_true rfl trivial

/-- **What a wakeup does to the ledger.** -/
theorem wakeupStep_tallies (s : ReadLoop)
    (between : frameRest s.parser.buf = s.parser.buf) (w : Wakeup) :
    WakeupTallies serde s w (wakeupStep cfg serde s w) := by
  cases w with
  | tick after activeStreams => exact tickStep_tallies cfg serde s between _ _
  | read after wallUnixMs item => exact readStep_tallies serde s _ _ _

/-! ## Whole attempts -/

/-- The bytes of the reads a run over wakeups takes. -/
def takenBytes (s : ReadLoop) (wakeups : List Wakeup) : List UInt8 :=
  bodyBytes (taken (wakeupStep cfg serde) s wakeups)

/-- **The ledger of a run over wakeups.** -/
theorem run_wakeupStep_tallies {s : ReadLoop}
    (between : frameRest s.parser.buf = s.parser.buf) (wakeups : List Wakeup) :
    let o := run (wakeupStep cfg serde) s wakeups
    let bytes := s.parser.buf ++ takenBytes cfg serde s wakeups
    o.state.parser.buf = frameRest bytes ∧
      (receivedCounts o.out).sum = (takenBytes cfg serde s wakeups).length ∧
      (coveredCounts o.out =
          (frameEvents bytes).map SseEvent.coveredBytes ++
            (if o.stop.isSome then nonzero (frameRest bytes).length else []) ↔
        Along (wakeupStep cfg serde) (LosesNothing serde) s wakeups) := by
  induction wakeups generalizing s with
  | nil =>
      have hbytes : s.parser.buf ++ takenBytes cfg serde s [] = s.parser.buf :=
        List.append_nil _
      simp only [hbytes, between, frameEvents_of_rest between]
      exact ⟨rfl, rfl, iff_of_true rfl trivial⟩
  | cons w wakeups ih =>
      obtain ⟨hparser, hreads, hcovers, hrunning⟩ :=
        wakeupStep_tallies cfg serde s between w
      simp only
      cases hstop : (wakeupStep cfg serde s w).stop with
      | some e =>
          -- what was not read does not count as received
          have htaken : takenBytes cfg serde s (w :: wakeups) = w.item := by
            rw [takenBytes, taken_cons_of_stop _ hstop]
            exact List.append_nil _
          rw [run_cons_of_stop _ hstop, htaken, hparser]
          refine ⟨rfl, hreads, hcovers.trans ?_⟩
          rw [along_cons, hstop]
          constructor
          · intro h
            exact ⟨h, fun hnone => by cases hnone⟩
          · intro h
            exact h.1
      | none =>
          have htaken : takenBytes cfg serde s (w :: wakeups) =
              w.item ++ takenBytes cfg serde (wakeupStep cfg serde s w).state wakeups := by
            rw [takenBytes, taken_cons_of_running _ hstop]
            rfl
          obtain ⟨hbuf, hreads', hcovers'⟩ :=
            ih (s := (wakeupStep cfg serde s w).state) (by rw [hparser, frameRest_idem])
          rw [hparser] at hbuf hcovers'
          -- a read the attempt goes on behind has lost nothing
          have hfirst := hcovers.mpr (hrunning hstop)
          rw [hstop] at hfirst
          simp only [Option.isSome_none, Bool.false_eq_true, if_false,
            List.append_nil] at hfirst
          rw [run_cons_of_running _ hstop, htaken, ← List.append_assoc,
            frameEvents_append (s.parser.buf ++ w.item),
            frameRest_append (s.parser.buf ++ w.item), Outcome.after_out,
            Outcome.after_state, Outcome.after_stop, receivedCounts_append,
            coveredCounts_append, hfirst, List.map_append, List.append_assoc,
            List.append_right_inj, List.sum_append, hreads, hreads',
            List.length_append, along_cons]
          refine ⟨hbuf, rfl, hcovers'.trans ?_⟩
          constructor
          · intro h
            exact ⟨hrunning hstop, fun _ => h⟩
          · intro h
            exact h.2 hstop

/-- A recovered frame covers its bytes. -/
theorem tailStep_tallies (s : ReadLoop) (ev : SseEvent) :
    tallies (tailStep serde s ev).out = [.covered ev.coveredBytes] := by
  unfold tailStep SseEvent.coveredBytes
  cases ev.payload with
  | undecodable raw error => rfl
  | comment text => rfl
  | data text =>
      have hhandler :=
        tallies_onInstallment serde s.st (s.instSeq + 1) text .recoveredTail
      unfold tallies at hhandler ⊢
      simp only [List.filterMap_cons, hhandler]
      rfl

/-- **A peer close** covers what is left in the buffer, as a recovered frame or as
residue. -/
theorem peerClosed_tallies (s : ReadLoop) :
    tallies (peerClosed serde s).records = unconsumedTallies s.parser.buffered := by
  have heof : ∀ (t : ReadLoop) r, tallies (t.eofNote r) = [] := by
    intro t r
    cases r <;> rfl
  have hflushed : tallies (run (tailStep serde) s s.parser.finishWithResidue.1).out ++
      tallies (residueRecords s.st.streamId s.st.attempt
        s.parser.finishWithResidue.2) = unconsumedTallies s.parser.buffered := by
    unfold SseParser.finishWithResidue SseParser.buffered
    cases hbuf : s.parser.buf with
    | nil => rfl
    | cons b bytes =>
        cases hparse : parseBlock (b :: bytes) with
        | none => rfl
        | some ev =>
            have htail := tailStep_tallies serde s ev
            have hrunning : (tailStep serde s ev).stop = none :=
              tailStep_running serde s ev
            simp only [List.isEmpty_cons, Bool.false_eq_true, if_false,
              run_cons_of_running _ hrunning, run_nil, Outcome.after_out,
              List.append_nil, htail, parseBlock_coveredBytes hparse]
            rfl
  simp only [peerClosed, tallies_append, tallies_streamEnd, tallies_finalizeAttempt,
    heof, List.append_nil]
  rw [hflushed]
  exact List.append_nil _

/-- Whatever leaves the loop at the `select!` covers what is left in the
buffer. -/
theorem lastWait_tallies (s : ReadLoop) (last : WaitEnd) :
    tallies (lastWait cfg serde s last).records =
      unconsumedTallies s.parser.buffered := by
  cases last with
  | cancelled after => exact tallies_endWire _ _
  | overallDeadline late => exact tallies_endWire _ _
  | stall late => exact tallies_endWire _ _
  | closed after => exact peerClosed_tallies serde _
  | transportError after detail => exact tallies_endWire _ _

/-- **The ledger of a read loop**, to its end. -/
theorem readLoop_tallies {s : ReadLoop} (fresh : s.parser.buf = []) (body : BodyTrace) :
    (receivedCounts (readLoop cfg serde s body).records).sum =
        (takenBytes cfg serde s body.wakeups).length ∧
      (coveredCounts (readLoop cfg serde s body).records =
          (frameEvents (takenBytes cfg serde s body.wakeups)).map
              SseEvent.coveredBytes ++
            nonzero (frameRest (takenBytes cfg serde s body.wakeups)).length ↔
        Along (wakeupStep cfg serde) (LosesNothing serde) s body.wakeups) := by
  obtain ⟨hbuf, hreads, hcovers⟩ := run_wakeupStep_tallies cfg serde
    (by rw [fresh, frameRest_nil]) body.wakeups
  rw [fresh, List.nil_append] at hbuf hcovers
  cases hstop : (run (wakeupStep cfg serde) s body.wakeups).stop with
  | some e =>
      rw [hstop] at hcovers
      rw [readLoop_of_stop cfg serde hstop]
      exact ⟨hreads, hcovers⟩
  | none =>
      obtain ⟨hreceived, hcovered⟩ := counts_of_unconsumed (lastWait_tallies cfg serde
        (run (wakeupStep cfg serde) s body.wakeups).state body.last)
      rw [hstop] at hcovers
      simp only [Option.isSome_none, Bool.false_eq_true, if_false,
        List.append_nil] at hcovers
      rw [readLoop_of_running cfg serde hstop, LoopEnd.after, receivedCounts_append,
        coveredCounts_append, hreceived, hcovered, List.append_nil,
        SseParser.buffered, hbuf, List.append_left_inj]
      exact ⟨hreads, hcovers⟩

/-- The bytes an attempt begun in `st` at instant `now` receives. -/
def receivedBytes (st : StreamState) (selectPolls now : ℕ) (wire : Wire) :
    List UInt8 :=
  match wire.framed with
  | none => []
  | some (after, body) =>
      takenBytes cfg serde (ReadLoop.start st (now + after) selectPolls) body.wakeups

/-- **When nothing received is silently eaten.**  The bytes of an attempt are
accounted for exactly when no read of it loses a frame. -/
theorem runAttempt_accounted_iff (messages : List Message) (st : StreamState)
    (selectPolls now : ℕ) (wire : Wire) :
    Accounted (runAttempt cfg serde messages st selectPolls now wire).records
        (receivedBytes cfg serde st selectPolls now wire) ↔
      ∀ after body, wire.framed = some (after, body) →
        Along (wakeupStep cfg serde) (LosesNothing serde)
          (ReadLoop.start st (now + after) selectPolls) body.wakeups := by
  unfold receivedBytes
  cases hframed : wire.framed with
  | none =>
      obtain ⟨instant, cause, hrun⟩ :=
        runAttempt_of_unframed cfg serde hframed messages st selectPolls now
      rw [hrun]
      refine iff_of_true ((accounted_iff_covers rfl).mpr ?_) (by simp)
      rfl
  | some framed =>
      obtain ⟨after, body⟩ := framed
      rw [runAttempt_of_framed cfg serde hframed messages st selectPolls now]
      obtain ⟨hreads, hcovers⟩ := readLoop_tallies cfg serde
        (s := ReadLoop.start st (now + after) selectPolls) rfl body
      simp only [Option.some.injEq, Prod.mk.injEq, and_imp]
      rw [accounted_iff_covers hreads, ← map_coveredBytes_frameEvents, hcovers]
      constructor
      · rintro h _ _ rfl rfl
        exact h
      · intro h
        exact h _ _ rfl rfl

/-- **A frame behind `[DONE]` is eaten.**  One read brings the sentinel and a
comment; the comment is neither recorded nor left unconsumed. -/
theorem comment_behind_done_unaccounted :
    receivedBytes exampleConfig (.ofTable []) (StreamState.new 1).beginAttempt 0 0
        (streamOf [asBytes "data: [DONE]\n\n: bye\n\n"]) =
      asBytes "data: [DONE]\n\n: bye\n\n" ∧
    ¬Accounted
      (runAttempt exampleConfig (.ofTable []) [] (StreamState.new 1).beginAttempt 0 0
        (streamOf [asBytes "data: [DONE]\n\n: bye\n\n"])).records
      (asBytes "data: [DONE]\n\n: bye\n\n") := by
  refine ⟨by decide +kernel, fun h => ?_⟩
  exact absurd h.total (by decide +kernel)

end RarChat
