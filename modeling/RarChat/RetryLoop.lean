import RarChat.Turn

/-!
# The retry loop

INV-CHAT-11: the retry allowance is one budget for a turn on an endpoint, and a
fault that finds it spent fails over or gives up.  `Retried` says what that asks of
a turn: which dials it made, with which draws between them, and what verdict it
came to.

It is proved of the loop by induction over the turn (`turnLoop_retried`), with any
allowance and any number of attempts already counted, and then of the whole turn
(`executeTurn_retried`), whose trailer repeats the count.
-/

namespace RarChat

open EarlyExit

/-! ## What is read off a trace -/

/-- What a draw on the allowance leaves. -/
def EmissionRecord.spent? : EmissionRecord → Option UInt32
  | .ledger _ _ (.retryAllowanceSpent remaining) => some remaining
  | _ => none

/-- The attempts a trailer reports. -/
def EmissionRecord.attempts? : EmissionRecord → Option UInt32
  | .turnTrailer _ _ attempts _ _ _ _ _ _ _ => some attempts
  | _ => none

/-- A call of `run_attempt`, or a draw on the allowance and what it leaves. -/
inductive RetryMark
  | call (wire : Wire)
  | spent (remaining : ℕ)
deriving DecidableEq, Repr

/-- The calls and the draws in an event: all records it puts on the bus count. -/
def TurnEvent.marks (e : TurnEvent) : List RetryMark :=
  e.dialed?.toList.map .call ++
    (e.records.filterMap EmissionRecord.spent?).map fun r => .spent r.toNat

theorem TurnEvent.marks_emitted (r : EmissionRecord) :
    (TurnEvent.emitted r).marks = (r.spent?.map fun n => .spent n.toNat).toList := by
  cases hspent : r.spent? <;>
    simp [TurnEvent.marks, TurnEvent.dialed?, TurnEvent.records, hspent]

/-- One call and one draw for each dial that is retried, and the last call:
the `i`-th draw leaves `allowance - 1 - i`. -/
def retryMarks (allowance : ℕ) (retried : List Dial) (last : Dial) : List RetryMark :=
  retried.zipIdx.flatMap (fun p => [.call p.1.wire, .spent (allowance - 1 - p.2)]) ++
    [.call last.wire]

theorem retryMarks_cons (allowance : ℕ) (d : Dial) (retried : List Dial) (last : Dial) :
    retryMarks allowance (d :: retried) last =
      .call d.wire :: .spent (allowance - 1) :: retryMarks (allowance - 1) retried last := by
  simp only [retryMarks, List.zipIdx_cons', List.flatMap_cons, List.flatMap_map,
    List.cons_append, List.nil_append, Nat.sub_zero]
  have hshift : ∀ p : Dial × ℕ, allowance - 1 - (p.2 + 1) = allowance - 1 - 1 - p.2 := by
    intro p
    omega
  simp only [Prod.map_fst, Prod.map_snd, id, hshift]

/-! ## The loop -/

variable (cfg : OpenAiConfig) (serde : SerdeJson) (h : EventHandler)

/-- A turn with `allowance` draws that retried the dials `retried` and then made the
dial `last`, and counted `attempts`. -/
structure Retried (allowance : ℕ) (dials retried : List Dial) (last : Dial)
    (attempts : UInt32) (trace : List TurnEvent) (verdict : Option TurnVerdict) :
    Prop where
  made : retried ++ [last] <+: dials
  within : retried.length ≤ allowance
  faulted : ∀ d ∈ retried, d.Faulting cfg serde
  exhausted : last.Faulting cfg serde → retried.length = allowance
  verdict : verdict = some (h.settled attempts (attemptEnding cfg serde last.wire))
  dialed : trace.filterMap TurnEvent.dialed? = (retried ++ [last]).map Dial.wire
  marks : trace.flatMap TurnEvent.marks = retryMarks allowance retried last

/-- What is never found in a record of an attempt is not found in an attempt. -/
theorem attemptOf_filterMap {α : Type} {f : EmissionRecord → Option α}
    (elsewhere : ∀ r stream attempt, r.OfAttempt stream attempt → f r = none)
    (messages : List Message) (t : TurnState) (wire : Wire) :
    (attemptOf cfg serde messages t wire).records.filterMap f = [] := by
  rw [List.filterMap_eq_nil_iff]
  intro r hr
  exact elsewhere r _ _ ((runAttempt_records cfg serde messages t.st _ _ wire).2 r hr)

theorem attemptOf_spent (messages : List Message) (t : TurnState) (wire : Wire) :
    (attemptOf cfg serde messages t wire).records.filterMap EmissionRecord.spent? =
      [] := by
  refine attemptOf_filterMap cfg serde (fun r stream attempt hr => ?_) messages t wire
  cases r <;> first | rfl | exact absurd hr id

theorem attemptOf_attempts (messages : List Message) (t : TurnState) (wire : Wire) :
    (attemptOf cfg serde messages t wire).records.filterMap EmissionRecord.attempts? =
      [] := by
  refine attemptOf_filterMap cfg serde (fun r stream attempt hr => ?_) messages t wire
  cases r <;> first | rfl | exact absurd hr id

theorem dialEvents_marks (messages : List Message) (t : TurnState) (d : Dial) :
    (dialEvents cfg serde messages t d).flatMap TurnEvent.marks = [.call d.wire] := by
  have hattempt : (TurnEvent.attempt t.begun d.wire
      (attemptOf cfg serde messages t.begun d.wire)).marks = [.call d.wire] := by
    simp [TurnEvent.marks, TurnEvent.dialed?, TurnEvent.records, attemptOf_spent]
  simp [dialEvents, hattempt, TurnEvent.marks_emitted, EmissionRecord.spent?]

theorem dialEvents_dialed (messages : List Message) (t : TurnState) (d : Dial) :
    (dialEvents cfg serde messages t d).filterMap TurnEvent.dialed? = [d.wire] := rfl

/-- **The loop retries as budgeted**: with every dial admitted and enough dials to
spend the allowance, whatever was counted before. -/
theorem turnLoop_retried (messages : List Message) (t : TurnState) (dials : List Dial)
    (admitted : ∀ d ∈ dials, d.Admitted)
    (enough : t.remainingAllowance.toNat < dials.length) :
    let looped := turnLoop cfg serde h messages t dials
    ∃ retried last,
      looped.state.st.attempt = t.st.attempt + UInt32.ofNat (retried.length + 1) ∧
        Retried cfg serde h t.remainingAllowance.toNat dials retried last
          looped.state.st.attempt looped.out looped.stop := by
  induction t, dials using turn_induction cfg serde messages with
  | nil t => exact absurd enough (Nat.not_lt_zero _)
  | denied t d rest denied => exact absurd (admitted d (List.mem_cons_self ..)) denied
  | settled t d rest hd last =>
      rw [turnLoop_of_settled hd last]
      refine ⟨[], d, t.tried_attempt cfg serde messages d.wire, ?_⟩
      exact
        { made := List.prefix_append [d] rest
          within := Nat.zero_le _
          faulted := by simp
          exhausted := fun hf => by
            have hspent := last hf
            rw [UInt32.lt_iff_toNat_lt, UInt32.toNat_zero, Nat.not_lt,
              Nat.le_zero] at hspent
            rw [hspent, List.length_nil]
          verdict := by rw [TurnState.tried_attempt]
          dialed := dialEvents_dialed cfg serde messages t d
          marks := dialEvents_marks cfg serde messages t d }
  | retried t d rest hd faulting left ih =>
      -- the rest of the loop has one draw fewer and counts on from this attempt
      have hleft := UInt32.lt_iff_toNat_lt.mp left
      rw [UInt32.toNat_zero] at hleft
      simp only [TurnState.drawn_remainingAllowance, TurnState.tried_remainingAllowance,
        TurnState.drawn_st, TurnState.tried_attempt, toNat_sub_one left] at ih
      obtain ⟨retried, last, hattempt, hrest⟩ :=
        ih (fun d' hd' => admitted d' (List.mem_cons_of_mem _ hd')) (by
          rw [List.length_cons] at enough
          omega)
      rw [turnLoop_of_retry hd faulting left]
      refine ⟨d :: retried, last, ?_, ?_⟩
      · rw [Outcome.after_state, hattempt, List.length_cons, UInt32.add_assoc]
        congr 1
        simp [UInt32.ofNat_add, UInt32.add_comm]
      · exact
          { made := List.cons_prefix_cons.mpr ⟨rfl, hrest.made⟩
            within := by
              have := hrest.within
              rw [List.length_cons]
              omega
            faulted := List.forall_mem_cons.mpr ⟨faulting, hrest.faulted⟩
            exhausted := fun hf => by
              have := hrest.exhausted hf
              rw [List.length_cons]
              omega
            verdict := hrest.verdict
            dialed := by
              simp only [Outcome.after_out, List.filterMap_append, hrest.dialed,
                dialEvents_dialed]
              rfl
            marks := by
              simp only [Outcome.after_out, List.flatMap_append, hrest.marks,
                dialEvents_marks, retryMarks_cons]
              simp [TurnEvent.marks_emitted, EmissionRecord.spent?,
                toNat_sub_one left] }

/-- The loop writes no trailer. -/
theorem turnLoop_attempts (messages : List Message) (t : TurnState)
    (dials : List Dial) :
    ((turnLoop cfg serde h messages t dials).out.flatMap
      TurnEvent.records).filterMap EmissionRecord.attempts? = [] := by
  have hdial : ∀ (t : TurnState) (d : Dial),
      ((dialEvents cfg serde messages t d).flatMap TurnEvent.records).filterMap
        EmissionRecord.attempts? = [] := by
    intro t d
    simp only [dialEvents, List.flatMap_cons, TurnEvent.records, List.flatMap_nil,
      List.filterMap_append, attemptOf_attempts]
    rfl
  induction t, dials using turn_induction cfg serde messages with
  | nil t => rfl
  | denied t d rest denied => rw [turnLoop_of_denied denied]; rfl
  | settled t d rest hd last => rw [turnLoop_of_settled hd last]; exact hdial t d
  | retried t d rest hd faulting left ih =>
      rw [turnLoop_of_retry hd faulting left, Outcome.after_out, List.flatMap_append,
        List.filterMap_append, ih, List.flatMap_append, List.filterMap_append, hdial]
      rfl

/-! ## The turn -/

/-- **The retry loop of a turn**: with every bucket request admitted, a turn retries
its faulting attempts as its allowance lasts, stops at the first attempt that does
not fault, and otherwise fails over or gives up with the fault of the last one.  As
long as the `u32` counter does not wrap, it reports as many attempts as it made. -/
theorem executeTurn_retried (messages : List Message) (streamId : StreamId) (now : ℕ)
    (dials : List Dial) (admitted : ∀ d ∈ dials, d.Admitted)
    (enough : h.retryAllowancePerTurn.toNat < dials.length) :
    let turn := executeTurn cfg serde h messages streamId now dials
    let calls := (turn.trace.filterMap TurnEvent.dialed?).length
    ∃ retried last attempts,
      Retried cfg serde h h.retryAllowancePerTurn.toNat dials retried last attempts
          turn.trace turn.verdict ∧
        calls ≤ h.retryAllowancePerTurn.toNat + 1 ∧
        (turn.trace.flatMap TurnEvent.records).filterMap EmissionRecord.attempts? =
          [attempts] ∧
        (h.retryAllowancePerTurn.toNat + 1 < 2 ^ 32 → attempts.toNat = calls) ∧
        ∀ begun wire run, .attempt begun wire run ∈ turn.trace →
          run.ended = attemptEnding cfg serde wire := by
  obtain ⟨retried, last, hattempt, hloop⟩ :=
    turnLoop_retried cfg serde h messages (h.enter streamId now) dials admitted enough
  have hattempts := turnLoop_attempts cfg serde h messages (h.enter streamId now) dials
  set looped := turnLoop cfg serde h messages (h.enter streamId now) dials with hlooped
  have hallowance : (h.enter streamId now).remainingAllowance = h.retryAllowancePerTurn :=
    rfl
  rw [hallowance] at hloop
  -- the grant in front of the loop and the trailer behind it are no calls and no draws
  have htrace : (executeTurn cfg serde h messages streamId now dials).trace =
      .emitted (.ledger streamId 0 (.retryAllowanceGranted h.retryAllowancePerTurn)) ::
        (looped.out ++ [.emitted (looped.state.trailer (h.settled looped.state.st.attempt
          (attemptEnding cfg serde last.wire)))]) := by
    simp only [executeTurn, ← hlooped, hloop.verdict]
    rfl
  have hdialed : (executeTurn cfg serde h messages streamId now dials).trace.filterMap
      TurnEvent.dialed? = (retried ++ [last]).map Dial.wire := by
    rw [htrace, List.filterMap_cons_none rfl, List.filterMap_append, hloop.dialed,
      List.filterMap_cons_none rfl, List.filterMap_nil, List.append_nil]
  refine ⟨retried, last, looped.state.st.attempt, ?_, ?_, ?_, ?_, ?_⟩
  · exact
      { hloop with
        dialed := hdialed
        marks := by
          rw [htrace]
          simp [TurnEvent.marks_emitted, EmissionRecord.spent?, TurnState.trailer,
            hloop.marks] }
  · have hwithin := hloop.within
    rw [hdialed, List.length_map, List.length_append, List.length_singleton]
    omega
  · rw [htrace]
    simp only [List.flatMap_cons, List.flatMap_append, List.flatMap_nil,
      TurnEvent.records, List.filterMap_append, hattempts]
    rfl
  · intro hfits
    have hwithin := hloop.within
    rw [hdialed, hattempt, List.length_map, List.length_append, List.length_singleton]
    simp only [EventHandler.enter, EventHandler.beginStream, StreamState.new,
      UInt32.zero_add, UInt32.toNat_ofNat']
    exact Nat.mod_eq_of_lt (by omega)
  · intro begun wire run mem
    obtain ⟨before, -, rfl⟩ := turnLoop_attempt (attempt_mem_executeTurn.mp mem)
    exact attemptOf_ended cfg serde messages before wire

/-- A refused connection and a silent endpoint, with one draw. -/
theorem executeTurn_retried_refused :
    let dials : List Dial :=
      [⟨1, .connectError 0 "connection refused", 0⟩, ⟨1, .elapsed 0, 0⟩]
    let turn := executeTurn exampleConfig (.ofTable []) ⟨1, true⟩ [] 1 0 dials
    ∃ retried last attempts,
      Retried exampleConfig (.ofTable []) ⟨1, true⟩ 1 dials retried last attempts
          turn.trace turn.verdict ∧
        (turn.trace.filterMap TurnEvent.dialed?).length ≤ 2 := by
  obtain ⟨retried, last, attempts, hretried, hcalls, -, -⟩ :=
    executeTurn_retried exampleConfig (.ofTable []) ⟨1, true⟩ [] 1 0
      [⟨1, .connectError 0 "connection refused", 0⟩, ⟨1, .elapsed 0, 0⟩]
      (by decide) (by decide)
  exact ⟨retried, last, attempts, hretried, hcalls⟩

end RarChat
