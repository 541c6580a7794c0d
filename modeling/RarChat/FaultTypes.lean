import RarChat.Dialing
import RarChat.SmallSteps

/-!
# The type of a fault

The Event Handler returns a typed fault for an installment that it rejects.  The Driver
does not pass it on: behind a complete frame it closes the attempt as if the handler had
directed an abort, and behind the recovered tail it ignores what was returned.  So a
turn keeps its faults exactly when no data frame that it comes to is rejected
(`executeTurn_keepsFaults_iff`), and one unparseable chunk is reported as an operator's
abort (`unparseable_chunk_aborts`).
-/

namespace RarChat

open EarlyExit

variable (cfg : OpenAiConfig) (serde : SerdeJson) (h : EventHandler)

/-! ## What the handler returns -/

/-- What `on_installment` returns for a frame that it is handed. -/
def SseEvent.handled (ev : SseEvent) : Option (Except DriverFault FlowDirective) :=
  match ev.payload with
  | .data text =>
      some (onInstallment serde (StreamState.new 0) 0 .data text .complete).result
  | .comment text =>
      some (onInstallment serde (StreamState.new 0) 0 .comment text .complete).result
  | .undecodable _ _ => none

/-- The frame is a data frame that the handler rejects. -/
def SseEvent.Rejected (ev : SseEvent) : Prop :=
  ∃ text detail, ev.payload = .data text ∧ refined serde text = .error detail

variable {serde}

/-- It is the payload alone that decides, not the stream's state. -/
theorem handled_of_data {ev : SseEvent} {text : String} (payload : ev.payload = .data text)
    (st : StreamState) (seq : ℕ) (status : InstallmentStatus) :
    ev.handled serde = some (onInstallment serde st seq .data text status).result := by
  unfold SseEvent.handled
  simp only [payload, Option.some.injEq]
  cases hrefined : refined serde text with
  | error detail =>
      obtain ⟨n, hstep⟩ :=
        onInstallment_of_error hrefined (StreamState.new 0) 0 .complete
      obtain ⟨n', hstep'⟩ := onInstallment_of_error hrefined st seq status
      rw [hstep, hstep']
  | ok norm => rw [onInstallment_of_ok hrefined, onInstallment_of_ok hrefined]

/-- A fault is returned for a rejected frame, with the detail of its rejection. -/
theorem handled_error_iff {ev : SseEvent} {f : DriverFault} :
    ev.handled serde = some (.error f) ↔
      ∃ text detail, ev.payload = .data text ∧ refined serde text = .error detail ∧
        f = .protocol detail := by
  cases hpayload : ev.payload with
  | comment text => simp [SseEvent.handled, hpayload, onInstallment]
  | undecodable raw error => simp [SseEvent.handled, hpayload]
  | data text =>
      rw [handled_of_data hpayload (StreamState.new 0) 0 .complete]
      cases hrefined : refined serde text with
      | error detail =>
          obtain ⟨n, hstep⟩ :=
            onInstallment_of_error hrefined (StreamState.new 0) 0 .complete
          simp [hstep, hrefined, eq_comm]
      | ok norm => simp [onInstallment_of_ok hrefined, hrefined]

/-! ## The attempt -/

variable (serde)

/-- **Faults keep their type** in an attempt that has taken in `acts`: it is aborted only
by a directive, and resolves to the fault that was returned, if one was. -/
structure KeepsFaults (acts : List Act) (ended : AttemptEnd) : Prop where
  aborted : ∀ n, ended = .complete (.fault (.aborted n)) →
    ∃ status ev, .frame status ev ∈ acts ∧ ev.handled serde = some (.ok .abort)
  carried : ∀ status ev f, .frame status ev ∈ acts →
    ev.handled serde = some (.error f) → ended = .complete (.fault f)

variable {serde}

/-- The machine resolves to no protocol fault. -/
theorem resolve_ne_protocol (m : StreamMachine) (cause : EndCause) (msg : String) :
    m.resolve cause ≠ .fault (.protocol msg) := by
  unfold StreamMachine.resolve StreamMachine.finalize
  cases cause with
  | handlerAbort => simp
  | streamEnded =>
      cases m.finishReason with
      | some r => simp
      | none => by_cases hempty : m.content.length = 0 <;> simp [hempty]

/-- An ended stream is not resolved as aborted. -/
theorem resolve_streamEnded_ne_aborted (m : StreamMachine) (n : ℕ) :
    m.resolve .streamEnded ≠ .fault (.aborted n) := by
  unfold StreamMachine.resolve
  cases hfinal : m.finalize .streamEnded with
  | ok o => simp
  | error f =>
      intro hfault
      obtain rfl := TurnResolution.fault.inj hfault
      exact StreamMachine.finalize_streamEnded_ne_aborted m n hfinal

/-- Only a rejected frame aborts an attempt. -/
theorem rejected_of_handlerAbort {ev : SseEvent} {cause : StreamEndCause}
    (stops : frameVerdict serde ev = some (cause, .handlerAbort)) : ev.Rejected serde := by
  unfold SseEvent.Rejected
  cases hpayload : ev.payload with
  | comment text => simp [frameVerdict, hpayload] at stops
  | undecodable raw error => simp [frameVerdict, hpayload] at stops
  | data text =>
      cases hrefined : refined serde text with
      | error detail => exact ⟨text, detail, rfl, hrefined⟩
      | ok norm =>
          rw [frameVerdict_of_ok serde hpayload hrefined] at stops
          by_cases hdone : .done ∈ norm.events <;> simp [hdone] at stops

theorem Ends.ne_protocol {s : ReadLoop} {acts : List Act} {e : LoopEnd}
    (h : Ends serde s acts e) (msg : String) :
    e.ended ≠ .complete (.fault (.protocol msg)) := by
  cases h with
  | wire cause goes => exact fun h => by cases h
  | stopped split goes stops =>
      exact fun h => resolve_ne_protocol _ _ _ (AttemptEnd.complete.inj h)
  | closed tail residue split goes =>
      exact fun h => resolve_ne_protocol _ _ _ (AttemptEnd.complete.inj h)

/-- An aborted attempt was stopped by a frame that was rejected. -/
theorem Ends.rejected_of_aborted {s : ReadLoop} {acts : List Act} {e : LoopEnd}
    (h : Ends serde s acts e) {n : ℕ} (aborted : e.ended = .complete (.fault (.aborted n))) :
    ∃ ev, .frame .complete ev ∈ acts ∧ ev.Rejected serde := by
  cases h with
  | wire cause goes => cases aborted
  | @stopped acts' ev cause endCause split goes stops =>
      cases endCause with
      | handlerAbort =>
          refine ⟨ev, ?_, rejected_of_handlerAbort stops⟩
          rw [split]
          exact List.mem_append_right _ (List.mem_singleton_self _)
      | streamEnded =>
          exact absurd (AttemptEnd.complete.inj aborted) (resolve_streamEnded_ne_aborted _ n)
  | closed tail residue split goes =>
      exact absurd (AttemptEnd.complete.inj aborted) (resolve_streamEnded_ne_aborted _ n)

/-- **An attempt keeps its faults** exactly when none of its frames is rejected. -/
theorem Ends.keepsFaults_iff {s : ReadLoop} {acts : List Act} {e : LoopEnd}
    (h : Ends serde s acts e) :
    KeepsFaults serde acts e.ended ↔
      ∀ status ev, .frame status ev ∈ acts → ¬ev.Rejected serde := by
  constructor
  · rintro ⟨-, carried⟩ status ev mem ⟨text, detail, payload, rejected⟩
    have hcarried := carried status ev (.protocol detail) mem
      (handled_error_iff.mpr ⟨text, detail, payload, rejected, rfl⟩)
    exact h.ne_protocol detail hcarried
  · intro hnone
    refine ⟨fun n haborted => ?_, fun status ev f mem hfault => ?_⟩
    · obtain ⟨ev, mem, rejected⟩ := h.rejected_of_aborted haborted
      exact absurd rejected (hnone .complete ev mem)
    · obtain ⟨text, detail, payload, rejected, -⟩ := handled_error_iff.mp hfault
      exact absurd ⟨text, detail, payload, rejected⟩ (hnone status ev mem)

/-! ## The turn -/

variable (serde)

theorem attemptEnding_keepsFaults_iff (wire : Wire) :
    KeepsFaults serde (wireActs cfg serde wire) (attemptEnding cfg serde wire) ↔
      ∀ status ev, .frame status ev ∈ wireActs cfg serde wire → ¬ev.Rejected serde := by
  obtain ⟨_, _, _, _, e, -, hends, -, hended, -⟩ :=
    runAttempt_unfolds cfg serde [] (rfl : (StreamState.new 0).machine = _) 0 0 wire
  rw [show attemptEnding cfg serde wire = e.ended from hended]
  exact hends.keepsFaults_iff

/-- **A turn keeps its faults**: each attempt does, and the fault of the last one, when
no allowance and no failover remain, is the fault the turn fails with. -/
structure TurnRun.KeepsFaults (dials : List Dial) (turn : TurnRun) : Prop where
  attempts : ∀ begun wire run, .attempt begun wire run ∈ turn.trace →
    RarChat.KeepsFaults serde (wireActs cfg serde wire) run.ended
  verdict : ∀ retried last, ComesTo cfg serde h.retryAllowancePerTurn.toNat dials retried last →
    retried.length = h.retryAllowancePerTurn.toNat → h.knowsFailoverExists = false →
      ∀ status ev f, .frame status ev ∈ wireActs cfg serde last.wire →
        ev.handled serde = some (.error f) → turn.verdict = some (.failed f)

/-- **When a turn keeps its faults**: exactly when no attempt that it comes to takes in a
data frame, complete or recovered, that the handler rejects. -/
theorem executeTurn_keepsFaults_iff (messages : List Message) (streamId : StreamId)
    (now : ℕ) (dials : List Dial) :
    (executeTurn cfg serde h messages streamId now dials).KeepsFaults cfg serde h dials ↔
      ∀ retried last,
        ComesTo cfg serde h.retryAllowancePerTurn.toNat dials retried last →
          ∀ status ev, .frame status ev ∈ wireActs cfg serde last.wire →
            ¬ev.Rejected serde := by
  have hattempt := attempt_mem_turnLoop_iff cfg serde h messages (h.enter streamId now) dials
  constructor
  · intro hkeeps retried last hcomes
    have hmem := (hattempt _ last.wire _).mpr ⟨retried, last, hcomes, rfl, rfl, rfl⟩
    have hkept := hkeeps.attempts _ _ _ (attempt_mem_executeTurn.mpr hmem)
    rw [attemptOf_ended] at hkept
    exact (attemptEnding_keepsFaults_iff cfg serde last.wire).mp hkept
  · intro hnone
    refine ⟨fun begun wire run mem => ?_, ?_⟩
    · obtain ⟨retried, last, hcomes, rfl, rfl, rfl⟩ :=
        (hattempt begun wire run).mp (attempt_mem_executeTurn.mp mem)
      rw [attemptOf_ended]
      exact (attemptEnding_keepsFaults_iff cfg serde last.wire).mpr
        (hnone retried last hcomes)
    · intro retried last hcomes _ _ status ev f mem hfault
      obtain ⟨text, detail, payload, rejected, -⟩ := handled_error_iff.mp hfault
      exact absurd ⟨text, detail, payload, rejected⟩ (hnone retried last hcomes status ev mem)

/-- **An unparseable chunk is reported as an abort**: the handler returns what is wrong
with it, and the turn fails as if it had directed one. -/
theorem unparseable_chunk_aborts :
    let wire := streamOf [asBytes "data: oops\n\n"]
    let turn := executeTurn exampleConfig (.ofTable []) ⟨0, false⟩ [] 1 0 [⟨1, wire, 0⟩]
    (∃ ev, .frame .complete ev ∈ wireActs exampleConfig (.ofTable []) wire ∧
      ev.handled (.ofTable []) = some (.error (.protocol
        "unparseable chunk: expected value at line 1 column 1"))) ∧
      attemptEnding exampleConfig (.ofTable []) wire = .complete (.fault (.aborted 0)) ∧
        turn.verdict = some (.failed (.aborted 0)) := by
  refine ⟨⟨⟨.data "oops", 10⟩, by decide +kernel, ?_⟩, by decide +kernel, by decide +kernel⟩
  exact handled_error_iff.mpr ⟨"oops", _, rfl, by rfl, rfl⟩

end RarChat
