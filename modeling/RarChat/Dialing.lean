import RarChat.Turn

/-!
# The dials of a turn

A turn retries some leading dials and then comes to one more, or to none.  The retried
dials leave the state `TurnState.behind` and the events `retryEvents`, and the rest of
the turn is a turn entered there (`turnLoop_of_retries`).  `Dialed` says the three ways
in which the loop is left.

`ComesTo` is the view from the inputs: with this allowance and these dials the turn
comes to an attempt on `last`, behind those on `retried`.  The attempts in a trace are
exactly these (`attempt_mem_turnLoop_iff`).
-/

namespace RarChat

open EarlyExit

variable (cfg : OpenAiConfig) (serde : SerdeJson) (h : EventHandler)

/-! ## Dials that are retried -/

/-- With this allowance a turn retries all of these dials. -/
structure Retries (allowance : ℕ) (retried : List Dial) : Prop where
  within : retried.length ≤ allowance
  faulted : ∀ d ∈ retried, d.Admitted ∧ d.Faulting cfg serde

/-- With this allowance and these dials, the turn comes to an attempt on `last`
behind the attempts on `retried`. -/
structure ComesTo (allowance : ℕ) (dials retried : List Dial) (last : Dial) : Prop where
  made : retried ++ [last] <+: dials
  within : retried.length ≤ allowance
  faulted : ∀ d ∈ retried, d.Admitted ∧ d.Faulting cfg serde
  admitted : last.Admitted

/-- The state behind dials that are retried. -/
def TurnState.behind (messages : List Message) (t : TurnState) (retried : List Dial) :
    TurnState :=
  retried.foldl (fun t d => (t.tried cfg serde messages d.wire).drawn) t

/-- The draw on the allowance behind an attempt that is retried. -/
def TurnState.spent (t : TurnState) : TurnEvent :=
  .emitted (.ledger t.st.streamId (t.st.attempt + 1)
    (.retryAllowanceSpent (t.remainingAllowance - 1)))

/-- The events of dials that are retried. -/
def retryEvents (messages : List Message) : TurnState → List Dial → List TurnEvent
  | _, [] => []
  | t, d :: rest =>
      dialEvents cfg serde messages t d ++
        t.spent :: retryEvents messages (t.tried cfg serde messages d.wire).drawn rest

/-- The event of a denied dial. -/
def TurnState.denial (t : TurnState) : TurnEvent :=
  .emitted (.ledger t.st.streamId (t.st.attempt + 1) .sendBucketDenied)

@[simp] theorem TurnState.behind_nil (messages : List Message) (t : TurnState) :
    t.behind cfg serde messages [] = t := rfl

@[simp] theorem TurnState.behind_cons (messages : List Message) (t : TurnState) (d : Dial)
    (retried : List Dial) :
    t.behind cfg serde messages (d :: retried) =
      (t.tried cfg serde messages d.wire).drawn.behind cfg serde messages retried := rfl

variable {cfg serde h}

theorem Retries.nil (allowance : ℕ) : Retries cfg serde allowance [] :=
  ⟨Nat.zero_le _, by simp⟩

theorem retries_cons_iff {allowance : ℕ} {d : Dial} {retried : List Dial} :
    Retries cfg serde allowance (d :: retried) ↔
      d.Admitted ∧ d.Faulting cfg serde ∧ 0 < allowance ∧
        Retries cfg serde (allowance - 1) retried := by
  constructor
  · rintro ⟨hwithin, hfaulted⟩
    rw [List.length_cons] at hwithin
    obtain ⟨hadmitted, hfaulting⟩ := hfaulted d (List.mem_cons_self ..)
    exact ⟨hadmitted, hfaulting, by omega, by omega,
      fun d' hd' => hfaulted d' (List.mem_cons_of_mem _ hd')⟩
  · rintro ⟨hadmitted, hfaulting, hpos, hwithin, hfaulted⟩
    refine ⟨?_, List.forall_mem_cons.mpr ⟨⟨hadmitted, hfaulting⟩, hfaulted⟩⟩
    rw [List.length_cons]
    omega

theorem ComesTo.retries {allowance : ℕ} {dials retried : List Dial} {last : Dial}
    (h : ComesTo cfg serde allowance dials retried last) :
    Retries cfg serde allowance retried := ⟨h.within, h.faulted⟩

@[simp] theorem TurnState.behind_streamId (messages : List Message) (t : TurnState)
    (retried : List Dial) :
    (t.behind cfg serde messages retried).st.streamId = t.st.streamId := by
  induction retried generalizing t with
  | nil => rfl
  | cons d retried ih =>
      rw [TurnState.behind_cons, ih, TurnState.drawn_st, TurnState.tried_streamId]

theorem TurnState.behind_now (messages : List Message) (t : TurnState)
    (retried : List Dial) :
    (t.behind cfg serde messages retried).now =
      t.now + (retried.map fun d => attemptDuration cfg serde d.wire).sum := by
  induction retried generalizing t with
  | nil => rfl
  | cons d retried ih =>
      rw [TurnState.behind_cons, ih, TurnState.drawn_now, TurnState.tried_now,
        List.map_cons, List.sum_cons, Nat.add_assoc]

/-- **Behind the dials it retries** a turn goes on as one entered there. -/
theorem turnLoop_of_retries (messages : List Message) (t : TurnState)
    {retried : List Dial} (retries : Retries cfg serde t.remainingAllowance.toNat retried)
    (rest : List Dial) :
    turnLoop cfg serde h messages t (retried ++ rest) =
      (turnLoop cfg serde h messages (t.behind cfg serde messages retried) rest).after
        (retryEvents cfg serde messages t retried) := by
  induction retried generalizing t with
  | nil => rfl
  | cons d retried ih =>
      obtain ⟨hadmitted, hfaulting, hpos, hrest⟩ := retries_cons_iff.mp retries
      have hleft : 0 < t.remainingAllowance := UInt32.lt_iff_toNat_lt.mpr hpos
      have hrest' : Retries cfg serde
          (t.tried cfg serde messages d.wire).drawn.remainingAllowance.toNat retried := by
        rwa [TurnState.drawn_remainingAllowance, TurnState.tried_remainingAllowance,
          toNat_sub_one hleft]
      rw [List.cons_append, turnLoop_of_retry hadmitted hfaulting hleft, ih _ hrest',
        TurnState.behind_cons]
      simp only [Outcome.after, retryEvents, TurnState.spent, List.append_assoc,
        List.cons_append, List.nil_append]

/-! ## How the loop is left -/

variable (cfg serde h)

/-- **The three ways a turn goes**, behind the dials it retries: no further dial is
there, or the next one is denied, or its attempt settles the turn. -/
inductive Dialed (messages : List Message) (t : TurnState) :
    List Dial → TurnOutcome → Prop
  | awaiting {retried : List Dial}
      (retries : Retries cfg serde t.remainingAllowance.toNat retried) :
      Dialed messages t retried
        ⟨t.behind cfg serde messages retried, retryEvents cfg serde messages t retried,
          none⟩
  | denied {retried : List Dial} {d : Dial} (rest : List Dial)
      (retries : Retries cfg serde t.remainingAllowance.toNat retried)
      (denied : ¬d.Admitted) :
      Dialed messages t (retried ++ d :: rest)
        ⟨(t.behind cfg serde messages retried).begun,
          retryEvents cfg serde messages t retried ++
            [(t.behind cfg serde messages retried).denial],
          some (.failed (.protocol "no send bucket available (admission denied)"))⟩
  | settled {retried : List Dial} {d : Dial} (rest : List Dial)
      (retries : Retries cfg serde t.remainingAllowance.toNat retried)
      (admitted : d.Admitted)
      (last : d.Faulting cfg serde → retried.length = t.remainingAllowance.toNat) :
      Dialed messages t (retried ++ d :: rest)
        ⟨(t.behind cfg serde messages retried).tried cfg serde messages d.wire,
          retryEvents cfg serde messages t retried ++
            dialEvents cfg serde messages (t.behind cfg serde messages retried) d,
          some (h.settled ((t.behind cfg serde messages retried).st.attempt + 1)
            (attemptEnding cfg serde d.wire))⟩

/-- **What a turn can do.** -/
theorem turnLoop_dialed (messages : List Message) (t : TurnState) (dials : List Dial) :
    Dialed cfg serde h messages t dials (turnLoop cfg serde h messages t dials) := by
  induction t, dials using turn_induction cfg serde messages with
  | nil t => exact .awaiting (.nil _)
  | denied t d rest denied =>
      rw [turnLoop_of_denied denied]
      exact .denied rest (.nil _) denied
  | settled t d rest hd last =>
      rw [turnLoop_of_settled hd last]
      refine .settled rest (.nil _) hd fun hf => ?_
      have hspent := last hf
      rw [UInt32.lt_iff_toNat_lt, UInt32.toNat_zero, Nat.not_lt, Nat.le_zero] at hspent
      rw [hspent, List.length_nil]
  | retried t d rest hd faulting left ih =>
      have hpos : 0 < t.remainingAllowance.toNat := UInt32.lt_iff_toNat_lt.mp left
      have hdrawn : (t.tried cfg serde messages d.wire).drawn.remainingAllowance.toNat =
          t.remainingAllowance.toNat - 1 := by
        rw [TurnState.drawn_remainingAllowance, TurnState.tried_remainingAllowance,
          toNat_sub_one left]
      have hretries : ∀ {retried : List Dial}, Retries cfg serde
          (t.tried cfg serde messages d.wire).drawn.remainingAllowance.toNat retried →
            Retries cfg serde t.remainingAllowance.toNat (d :: retried) := fun h =>
        retries_cons_iff.mpr ⟨hd, faulting, hpos, by rwa [hdrawn] at h⟩
      rw [turnLoop_of_retry hd faulting left]
      generalize turnLoop cfg serde h messages _ rest = looped at ih ⊢
      cases ih with
      | awaiting retries =>
          have hgo := @Dialed.awaiting cfg serde h messages t _ (hretries retries)
          simpa [Outcome.after, retryEvents, TurnState.spent] using hgo
      | @denied retried d' rest retries denied =>
          have hgo := @Dialed.denied cfg serde h messages t _ d' rest
            (hretries retries) denied
          simpa [Outcome.after, retryEvents, TurnState.spent] using hgo
      | @settled retried d' rest retries admitted last =>
          have hgo := @Dialed.settled cfg serde h messages t _ d' rest
            (hretries retries) admitted fun hf => by
              rw [List.length_cons, last hf, hdrawn]
              omega
          simpa [Outcome.after, retryEvents, TurnState.spent] using hgo

/-! ## The attempts of a turn -/

variable {cfg serde h}

theorem not_comesTo_nil {allowance : ℕ} {retried : List Dial} {last : Dial} :
    ¬ComesTo cfg serde allowance [] retried last := fun h => by
  simpa using List.prefix_nil.mp h.made

/-- The first dial is the last one, or is retried. -/
theorem comesTo_cons_iff {allowance : ℕ} {d : Dial} {rest : List Dial}
    {P : List Dial → Dial → Prop} :
    (∃ retried last, ComesTo cfg serde allowance (d :: rest) retried last ∧
        P retried last) ↔
      d.Admitted ∧ (P [] d ∨ d.Faulting cfg serde ∧ 0 < allowance ∧
        ∃ retried last, ComesTo cfg serde (allowance - 1) rest retried last ∧
          P (d :: retried) last) := by
  constructor
  · rintro ⟨retried, last, hcomes, hP⟩
    cases retried with
    | nil =>
        obtain ⟨rfl, -⟩ := List.cons_prefix_cons.mp hcomes.made
        exact ⟨hcomes.admitted, .inl hP⟩
    | cons d' retried =>
        obtain ⟨rfl, hmade⟩ := List.cons_prefix_cons.mp hcomes.made
        obtain ⟨hadmitted, hfaulting, hpos, hrest⟩ := retries_cons_iff.mp hcomes.retries
        exact ⟨hadmitted, .inr ⟨hfaulting, hpos, retried, last,
          ⟨hmade, hrest.within, hrest.faulted, hcomes.admitted⟩, hP⟩⟩
  · rintro ⟨hadmitted, hP | ⟨hfaulting, hpos, retried, last, hcomes, hP⟩⟩
    · refine ⟨[], d, ?_, hP⟩
      exact ⟨List.prefix_append [d] rest, Nat.zero_le _, by simp, hadmitted⟩
    · obtain ⟨hwithin, hfaulted⟩ :=
        retries_cons_iff.mpr ⟨hadmitted, hfaulting, hpos, hcomes.retries⟩
      exact ⟨d :: retried, last, ⟨List.cons_prefix_cons.mpr ⟨rfl, hcomes.made⟩, hwithin,
        hfaulted, hcomes.admitted⟩, hP⟩

variable (cfg serde h)

/-- **The attempts of a turn** are those it comes to, each begun behind the ones that
are retried before it. -/
theorem attempt_mem_turnLoop_iff (messages : List Message) (t : TurnState)
    (dials : List Dial) (begun : TurnState) (wire : Wire) (run : AttemptRun) :
    .attempt begun wire run ∈ (turnLoop cfg serde h messages t dials).out ↔
      ∃ retried last, ComesTo cfg serde t.remainingAllowance.toNat dials retried last ∧
        begun = (t.behind cfg serde messages retried).begun ∧ wire = last.wire ∧
          run = attemptOf cfg serde messages begun wire := by
  induction t, dials using turn_induction cfg serde messages with
  | nil t => simp [not_comesTo_nil]
  | denied t d rest denied =>
      rw [turnLoop_of_denied denied, comesTo_cons_iff]
      exact iff_of_false (by simp) fun h => denied h.1
  | settled t d rest hd last =>
      rw [turnLoop_of_settled hd last, comesTo_cons_iff, attempt_mem_dialEvents]
      have hspent : ¬(d.Faulting cfg serde ∧ 0 < t.remainingAllowance.toNat) :=
        fun ⟨hf, hpos⟩ => last hf (UInt32.lt_iff_toNat_lt.mpr hpos)
      rw [← and_assoc (a := d.Faulting cfg serde)]
      simp only [hd, hspent, true_and, false_and, or_false, TurnState.behind_nil]
      refine and_congr_right fun hbegun => and_congr_right fun hwire => ?_
      rw [hbegun, hwire]
  | retried t d rest hd faulting left ih =>
      have hpos : 0 < t.remainingAllowance.toNat := UInt32.lt_iff_toNat_lt.mp left
      rw [turnLoop_of_retry hd faulting left, comesTo_cons_iff, Outcome.after_out,
        List.mem_append, List.mem_append, attempt_mem_dialEvents, ih,
        TurnState.drawn_remainingAllowance, TurnState.tried_remainingAllowance,
        toNat_sub_one left]
      simp only [hd, faulting, hpos, true_and, List.mem_singleton, reduceCtorEq, or_false,
        TurnState.behind_nil, TurnState.behind_cons]
      refine or_congr_left (and_congr_right fun hbegun => and_congr_right fun hwire => ?_)
      rw [hbegun, hwire]

/-! ## Turns that commit -/

variable {cfg serde h}

theorem settled_committed_iff {attempts : UInt32} {e : AttemptEnd} {o : ChatOutcome} :
    h.settled attempts e = .committed o ↔ e = .complete (.committed o) := by
  unfold EventHandler.settled
  match e with
  | .complete (.committed o') => simp
  | .complete (.fault f) => cases h.knowsFailoverExists <;> simp
  | .wire cause =>
      by_cases hcause : cause = .cancelled
      · simp [hcause]
      · cases h.knowsFailoverExists <;> simp [hcause]

theorem not_faulting_of_committed {d : Dial} {o : ChatOutcome}
    (committed : attemptEnding cfg serde d.wire = .complete (.committed o)) :
    ¬d.Faulting cfg serde := by
  unfold Dial.Faulting
  rw [committed]
  simp [AttemptEnd.Faulting, AttemptEnd.fault]

/-- **A turn that commits** retries some dials, and commits what the attempt behind
them came to. -/
theorem turnLoop_committed {messages : List Message} {t : TurnState} {dials : List Dial}
    {o : ChatOutcome}
    (committed : (turnLoop cfg serde h messages t dials).stop = some (.committed o)) :
    ∃ retried d rest, dials = retried ++ d :: rest ∧
      Retries cfg serde t.remainingAllowance.toNat retried ∧ d.Admitted ∧
        attemptEnding cfg serde d.wire = .complete (.committed o) ∧
          (turnLoop cfg serde h messages t dials).out =
            retryEvents cfg serde messages t retried ++
              dialEvents cfg serde messages (t.behind cfg serde messages retried) d := by
  have hdialed := turnLoop_dialed cfg serde h messages t dials
  generalize turnLoop cfg serde h messages t dials = looped at hdialed committed ⊢
  cases hdialed with
  | awaiting retries => cases committed
  | denied rest retries denied => simp at committed
  | settled rest retries admitted last =>
      exact ⟨_, _, rest, rfl, retries, admitted,
        settled_committed_iff.mp (Option.some.inj committed), rfl⟩

/-- The trace of a turn that commits. -/
theorem executeTurn_committed {messages : List Message} {streamId : StreamId} {now : ℕ}
    {dials : List Dial} {o : ChatOutcome}
    (committed : (executeTurn cfg serde h messages streamId now dials).verdict =
      some (.committed o)) :
    ∃ retried d rest, dials = retried ++ d :: rest ∧
      Retries cfg serde h.retryAllowancePerTurn.toNat retried ∧ d.Admitted ∧
        attemptEnding cfg serde d.wire = .complete (.committed o) ∧
          (executeTurn cfg serde h messages streamId now dials).trace =
            .emitted (.ledger streamId 0
                (.retryAllowanceGranted h.retryAllowancePerTurn)) ::
              (retryEvents cfg serde messages (h.enter streamId now) retried ++
                (dialEvents cfg serde messages
                    ((h.enter streamId now).behind cfg serde messages retried) d ++
                  [.emitted ((executeTurn cfg serde h messages streamId now
                    dials).state.trailer (.committed o))])) := by
  obtain ⟨retried, d, rest, hdials, hretries, hadmitted, hended, hout⟩ :=
    turnLoop_committed (t := h.enter streamId now) committed
  refine ⟨retried, d, rest, hdials, hretries, hadmitted, hended, ?_⟩
  have hstop : (turnLoop cfg serde h messages (h.enter streamId now) dials).stop =
      some (.committed o) := committed
  simp only [executeTurn, EventHandler.beginStream, List.map_cons, List.map_nil,
    List.cons_append, List.nil_append]
  simp only [turnLoop] at hout hstop
  rw [hout, hstop]
  simp only [Option.toList_some, List.map_cons, List.map_nil, List.append_assoc]

/-- What is retried in front of an attempt that commits is what the turn retries. -/
theorem ComesTo.retried_isPrefix {allowance : ℕ} {retried retried' rest : List Dial}
    {d last : Dial} (comes : ComesTo cfg serde allowance (retried ++ d :: rest) retried' last)
    (settles : ¬d.Faulting cfg serde) : retried' <+: retried := by
  have hprefix : retried' <+: retried ++ d :: rest :=
    (List.prefix_append retried' [last]).trans comes.made
  by_cases hshort : retried'.length ≤ retried.length
  · exact List.prefix_of_prefix_length_le hprefix (List.prefix_append _ _) hshort
  · -- the dial that settles the turn would be retried
    have hlong : retried ++ [d] <+: retried' := by
      refine List.prefix_of_prefix_length_le ?_ hprefix ?_
      · exact ⟨rest, by rw [List.append_assoc]; rfl⟩
      · rw [List.length_append, List.length_singleton]
        omega
    have hmem : d ∈ retried' := hlong.subset (by simp)
    exact absurd (comes.faulted d hmem).2 settles

/-- Behind any dials that are retried, a last one commits what its attempt comes to. -/
theorem turnLoop_committed_iff (messages : List Message) (t : TurnState)
    {retried : List Dial} (retries : Retries cfg serde t.remainingAllowance.toNat retried)
    (last : Dial) (o : ChatOutcome) :
    (turnLoop cfg serde h messages t (retried ++ [last])).stop = some (.committed o) ↔
      last.Admitted ∧ attemptEnding cfg serde last.wire = .complete (.committed o) := by
  rw [turnLoop_of_retries messages t retries, Outcome.after_stop]
  by_cases hadmitted : last.Admitted
  · by_cases hretry : last.Faulting cfg serde ∧
        0 < (t.behind cfg serde messages retried).remainingAllowance
    · rw [turnLoop_of_retry hadmitted hretry.1 hretry.2]
      exact iff_of_false (by simp) fun h => not_faulting_of_committed h.2 hretry.1
    · rw [turnLoop_of_settled hadmitted fun hf hleft => hretry ⟨hf, hleft⟩]
      simp only [Option.some.injEq, settled_committed_iff, hadmitted, true_and]
  · rw [turnLoop_of_denied hadmitted]
    exact iff_of_false (by simp) fun h => hadmitted h.1

end RarChat
