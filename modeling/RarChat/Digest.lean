import RarChat.ReadLoop

/-!
# The digest of a byte stream

What an attempt says about the bytes it received, with everything left out that
depends on when and in which pieces they arrived: no instants, no read numbers,
no windows.  A `Digest` is the part of the loop's state that matters for it, and
`Digest.ofBytes` processes a whole body at once: every complete frame in order
until one stops the attempt (`frameVerdict`), else the tail behind the last one.

`EmissionRecord.evidence` is what of a record belongs to the digest, and
`frameStep_agrees`, `tailStep_agrees` and `peerClosed_agrees` connect the passes
of the read loop to the ones here.
-/

namespace RarChat

open EarlyExit

/-- What a record says about the bytes received: the read numbers of an
installment and the unconsumed bytes of a `StreamEnd` are erased, and records of
reads, timings, ledger and scheduler are left out. -/
def EmissionRecord.evidence : EmissionRecord → Option EmissionRecord
  | .installment stream attempt seq _ _ bytes kind payload status =>
      some (.installment stream attempt seq 0 0 bytes kind payload status)
  | .normalizedEvent stream attempt seq event =>
      some (.normalizedEvent stream attempt seq event)
  | .normalizationError stream attempt seq detail =>
      some (.normalizationError stream attempt seq detail)
  | .undecodableInstallment stream attempt seq bytes error hexPrefix =>
      some (.undecodableInstallment stream attempt seq bytes error hexPrefix)
  | .residue stream attempt bytes lossyText =>
      some (.residue stream attempt bytes lossyText)
  | .streamEnd stream attempt cause _ => some (.streamEnd stream attempt cause 0)
  | .anomaly stream attempt note => some (.anomaly stream attempt note)
  | _ => none

structure Digest where
  streamId : StreamId
  attempt : UInt32
  seq : ℕ
  machine : StreamMachine
  sawAnyContent : Bool
deriving DecidableEq, Repr

def ReadLoop.digest (s : ReadLoop) : Digest :=
  ⟨s.st.streamId, s.st.attempt, s.instSeq, s.st.machine, s.st.sawAnyContent⟩

def ReadLoop.HasDigest (s : ReadLoop) (d : Digest) : Prop := s.digest = d

abbrev DigestOutcome := Outcome Digest EmissionRecord AttemptEnd

/-- How a frame stops an attempt, if it does: `[DONE]`, or a data payload that is
rejected. -/
def frameVerdict (serde : SerdeJson) (ev : SseEvent) :
    Option (StreamEndCause × EndCause) :=
  match ev.payload with
  | .data text =>
      match refined serde text with
      | .error _ => some (.handlerDirected "protocol_error", .handlerAbort)
      | .ok norm =>
          if .done ∈ norm.events then some (.doneSentinelConsumed, .streamEnded)
          else none
  | _ => none

namespace Digest

/-- The state after an accepted payload. -/
def absorb (d : Digest) (norm : Normalized) : Digest :=
  { d with
    seq := d.seq + 1
    machine := d.machine.feedAll norm.events
    sawAnyContent := d.sawAnyContent || carriesText norm.events }

def skip (d : Digest) : Digest := { d with seq := d.seq + 1 }

def installment (d : Digest) (ev : SseEvent) (kind : InstallmentKind)
    (payload : String) (status : InstallmentStatus) : EmissionRecord :=
  .installment d.streamId d.attempt (d.seq + 1) 0 0 ev.rawByteLen kind payload status

/-- Take in one frame, complete or recovered. -/
def take (serde : SerdeJson) (status : InstallmentStatus) (d : Digest)
    (ev : SseEvent) : DigestOutcome :=
  match ev.payload with
  | .undecodable raw error =>
      ⟨d.skip,
        [.undecodableInstallment d.streamId d.attempt (d.seq + 1) raw.length error
          (hexPrefix raw)], none⟩
  | .comment text => ⟨d.skip, [d.installment ev .comment text status], none⟩
  | .data text =>
      match refined serde text with
      | .error detail =>
          ⟨d.skip,
            [d.installment ev .data text status,
              .normalizationError d.streamId d.attempt (d.seq + 1) detail], none⟩
      | .ok norm =>
          ⟨d.absorb norm,
            d.installment ev .data text status ::
              norm.events.map fun event =>
                .normalizedEvent d.streamId d.attempt (d.seq + 1) event, none⟩

/-- Close the attempt. -/
def close (d : Digest) (cause : StreamEndCause) (endCause : EndCause) :
    DigestOutcome :=
  ⟨{ d with machine := StreamMachine.new },
    .streamEnd d.streamId d.attempt cause 0 ::
      d.machine.anomalies.map fun note => .anomaly d.streamId d.attempt note,
    some (.complete (d.machine.resolve endCause))⟩

/-- A complete frame: it is taken in, and closes the attempt if it stops it. -/
def step (serde : SerdeJson) (d : Digest) (ev : SseEvent) : DigestOutcome :=
  (take serde .complete d ev).andThen fun d' =>
    match frameVerdict serde ev with
    | none => ⟨d', [], none⟩
    | some (cause, endCause) => d'.close cause endCause

/-- The cause a peer close is recorded under. -/
def closeCause (d : Digest) : StreamEndCause :=
  if d.sawAnyContent then .peerClosed else .closedWithNoContent

/-- The peer closed behind an unterminated tail. -/
def finish (serde : SerdeJson) (d : Digest) (rest : List UInt8) : DigestOutcome :=
  let flushed := (SseParser.mk rest defaultBufLimit).finishWithResidue
  (run (take serde .recoveredTail) d flushed.1).andThen fun d' =>
    (d'.close d'.closeCause .streamEnded).after
      (residueRecords d.streamId d.attempt flushed.2)

/-- **The digest of a whole body**, received from state `d` until the peer
closes. -/
def ofBytes (serde : SerdeJson) (d : Digest) (body : List UInt8) : DigestOutcome :=
  (run (step serde) d (frameEvents body)).andThen fun d' =>
    d'.finish serde (frameRest body)

theorem take_running (serde : SerdeJson) (status : InstallmentStatus) (d : Digest)
    (ev : SseEvent) : (take serde status d ev).stop = none := by
  unfold take
  cases ev.payload with
  | undecodable raw error => rfl
  | comment text => rfl
  | data text =>
      simp only
      cases refined serde text <;> rfl

/-- A pass is left exactly when the frame stops the attempt. -/
theorem step_running_iff (serde : SerdeJson) (d : Digest) (ev : SseEvent) :
    (step serde d ev).stop = none ↔ frameVerdict serde ev = none := by
  unfold step
  rw [Outcome.andThen_of_running (take_running serde .complete d ev)]
  cases frameVerdict serde ev <;> simp [close]

theorem step_complete (serde : SerdeJson) (d : Digest) (ev : SseEvent)
    (ended : AttemptEnd) (h : (step serde d ev).stop = some ended) :
    ∃ r, ended = .complete r := by
  unfold step at h
  rw [Outcome.andThen_of_running (take_running serde .complete d ev)] at h
  cases hverdict : frameVerdict serde ev with
  | none =>
      rw [hverdict] at h
      cases h
  | some verdict =>
      rw [hverdict] at h
      cases h
      exact ⟨_, rfl⟩

theorem finish_complete (serde : SerdeJson) (d : Digest) (rest : List UInt8) :
    ∃ r, (finish serde d rest).stop = some (.complete r) := by
  unfold finish
  rw [Outcome.andThen_of_running
    (run_stop_eq_none _ (take_running serde .recoveredTail) d _)]
  exact ⟨_, rfl⟩

/-- A whole body always resolves. -/
theorem ofBytes_complete (serde : SerdeJson) (d : Digest) (body : List UInt8) :
    ∃ r, (ofBytes serde d body).stop = some (.complete r) := by
  unfold ofBytes
  cases hstop : (run (step serde) d (frameEvents body)).stop with
  | some ended =>
      obtain ⟨r, rfl⟩ := run_stop_of_each (step serde) (step_complete serde) hstop
      exact ⟨r, by rw [Outcome.andThen_of_stop hstop, hstop]⟩
  | none =>
      rw [Outcome.andThen_of_running hstop]
      exact finish_complete serde _ _

end Digest

/-! ## The read loop's passes -/

variable (serde : SerdeJson)

/-- Records that are evidence as they stand. -/
theorem filterMap_evidence_map {α : Type} {f : α → EmissionRecord}
    (fixed : ∀ a, (f a).evidence = some (f a)) (as : List α) :
    (as.map f).filterMap EmissionRecord.evidence = as.map f := by
  rw [List.filterMap_map, ← List.filterMap_eq_map]
  exact congrArg (List.filterMap · as) (funext fixed)

/-- Records of which nothing is observed. -/
theorem filterMap_map_eq_nil {α β : Type} {f : α → EmissionRecord}
    {observe : EmissionRecord → Option β} (hidden : ∀ a, observe (f a) = none)
    (as : List α) : (as.map f).filterMap observe = [] := by
  rw [List.filterMap_map, List.filterMap_eq_nil_iff]
  exact fun a _ => hidden a

/-- `return AttemptEnd::Complete(..)` closes the digest. -/
theorem endComplete_agrees (s : ReadLoop) (cause : StreamEndCause)
    (endCause : EndCause) :
    (s.endComplete cause endCause).returned.Agrees ReadLoop.HasDigest
      EmissionRecord.evidence some (s.digest.close cause endCause) where
  state := rfl
  out := by
    simp only [LoopEnd.returned, ReadLoop.endComplete, ReadLoop.streamEnd,
      finalizeAttempt, Digest.close, List.filterMap_cons, EmissionRecord.evidence,
      List.filterMap_some]
    rw [filterMap_evidence_map fun _ => rfl]
    rfl
  stop := rfl

/-- Only the installment and the refinement of a data frame are evidence, not the
notes on timing. -/
theorem filterMap_evidence_dataRecords (s : ReadLoop) (gap : ℕ) (ev : SseEvent)
    (text : String) (refinement : List EmissionRecord) :
    (s.dataRecords gap ev text refinement).filterMap EmissionRecord.evidence =
      s.digest.installment ev .data text .complete ::
        refinement.filterMap EmissionRecord.evidence := by
  unfold ReadLoop.dataRecords
  rw [List.cons_append, List.filterMap_cons, List.filterMap_append,
    List.filterMap_cons]
  cases s.ttftEmitted <;> rfl

/-- Of an accepted refinement the events are evidence, and the notes on channels are not. -/
theorem filterMap_evidence_refinement (stream : StreamId) (attempt : UInt32) (seq : ℕ)
    (norm : Normalized) :
    (norm.unhandledChannels.map (fun ch =>
        EmissionRecord.wire stream attempt (.unhandledChannel ch)) ++
      norm.events.map fun event =>
        EmissionRecord.normalizedEvent stream attempt seq event).filterMap
          EmissionRecord.evidence =
      norm.events.map fun event => .normalizedEvent stream attempt seq event := by
  have hevents := filterMap_evidence_map (f := fun event =>
    .normalizedEvent stream attempt seq event) (fun _ => rfl) norm.events
  have hchannels : (norm.unhandledChannels.map fun ch =>
      EmissionRecord.wire stream attempt (.unhandledChannel ch)).filterMap
        EmissionRecord.evidence = [] :=
    filterMap_map_eq_nil (fun _ => rfl) norm.unhandledChannels
  rw [List.filterMap_append, hchannels, hevents, List.nil_append]

/-- **A pass of the loop over frames** is a step of the digest. -/
theorem frameStep_agrees (gap : ℕ) (s : ReadLoop) (d : Digest) (ev : SseEvent)
    (h : s.HasDigest d) :
    (frameStep serde gap s ev).Agrees ReadLoop.HasDigest EmissionRecord.evidence some
      (Digest.step serde d ev) := by
  obtain rfl := h
  unfold Digest.step
  rw [Outcome.andThen_of_running (Digest.take_running serde .complete s.digest ev)]
  unfold frameStep Digest.take frameVerdict
  cases hpayload : ev.payload with
  | undecodable raw error => exact ⟨rfl, rfl, rfl⟩
  | comment text => exact ⟨rfl, rfl, rfl⟩
  | data text =>
      cases hrefined : refined serde text with
      | error detail =>
          obtain ⟨n, hstep⟩ :=
            onInstallment_of_error hrefined s.st (s.instSeq + 1) .complete
          simp only [hrefined, hstep]
          refine (endComplete_agrees _ _ _).after ?_
          rw [filterMap_evidence_dataRecords]
          rfl
      | ok norm =>
          have hstep := onInstallment_of_ok hrefined s.st (s.instSeq + 1) .complete
          simp only [hrefined, hstep]
          by_cases hdone : .done ∈ norm.events
          · simp only [hdone, if_true]
            refine (endComplete_agrees _ _ _).after ?_
            rw [filterMap_evidence_dataRecords, filterMap_evidence_refinement,
              List.filterMap_some]
            rfl
          · simp only [hdone, if_false]
            refine ⟨rfl, ?_, rfl⟩
            rw [Outcome.after_out, List.filterMap_append, filterMap_evidence_dataRecords,
              filterMap_evidence_refinement, List.filterMap_some]
            rfl

/-- A pass of the loop over the recovered tail takes the frame in. -/
theorem tailStep_agrees (s : ReadLoop) (d : Digest) (ev : SseEvent)
    (h : s.HasDigest d) :
    (tailStep serde s ev).Agrees ReadLoop.HasDigest EmissionRecord.evidence some
      (Digest.take serde .recoveredTail d ev) := by
  obtain rfl := h
  unfold tailStep Digest.take
  cases hpayload : ev.payload with
  | undecodable raw error => exact ⟨rfl, rfl, rfl⟩
  | comment text => exact ⟨rfl, rfl, rfl⟩
  | data text =>
      cases hrefined : refined serde text with
      | error detail =>
          obtain ⟨n, hstep⟩ :=
            onInstallment_of_error hrefined s.st (s.instSeq + 1) .recoveredTail
          simp only [hrefined, hstep]
          exact ⟨rfl, rfl, rfl⟩
      | ok norm =>
          have hstep :=
            onInstallment_of_ok hrefined s.st (s.instSeq + 1) .recoveredTail
          simp only [hrefined, hstep]
          refine ⟨rfl, ?_, rfl⟩
          rw [List.filterMap_cons, filterMap_evidence_refinement, List.filterMap_some]
          rfl

theorem filterMap_evidence_residueRecords (stream : StreamId) (attempt : UInt32)
    (residue : List UInt8) :
    (residueRecords stream attempt residue).filterMap EmissionRecord.evidence =
      residueRecords stream attempt residue := by
  unfold residueRecords
  split <;> rfl

theorem filterMap_evidence_eofNote (s : ReadLoop) (r : TurnResolution) :
    (s.eofNote r).filterMap EmissionRecord.evidence = [] := by
  cases r <;> rfl

/-- **A peer close** finishes the digest with what is left in the buffer. -/
theorem peerClosed_agrees (s : ReadLoop) :
    (peerClosed serde s).returned.Agrees ReadLoop.HasDigest
      EmissionRecord.evidence some (s.digest.finish serde s.parser.buf) := by
  have hflushed : (SseParser.mk s.parser.buf defaultBufLimit).finishWithResidue =
      s.parser.finishWithResidue := rfl
  have htail := run_agrees (tailStep_agrees serde) (rfl : s.HasDigest s.digest)
    s.parser.finishWithResidue.1
  have hrunning := run_stop_eq_none (Digest.take serde .recoveredTail)
    (Digest.take_running serde .recoveredTail) s.digest s.parser.finishWithResidue.1
  have hclose := endComplete_agrees
    (run (tailStep serde) s s.parser.finishWithResidue.1).state
    (if (run (tailStep serde) s s.parser.finishWithResidue.1).state.st.sawAnyContent
      then .peerClosed else .closedWithNoContent) .streamEnded
  unfold Digest.finish
  rw [hflushed, Outcome.andThen_of_running hrunning, ← htail.state]
  refine ⟨rfl, ?_, rfl⟩
  simp only [LoopEnd.returned, peerClosed, Outcome.after_out, List.filterMap_append,
    htail.out, filterMap_evidence_residueRecords, filterMap_evidence_eofNote,
    List.filterMap_some, List.append_nil, List.append_assoc]
  have hend := hclose.out
  rw [List.filterMap_some] at hend
  exact congrArg _ (congrArg _ hend)

end RarChat
