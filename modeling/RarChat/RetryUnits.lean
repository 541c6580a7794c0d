import RarChat.SendBuckets

/-!
# What a unit of the retry allowance buys

A turn that draws on its allowance goes back to the head of its loop and asks for a
Send Bucket again.  It has returned the one it held before, so other turns can come
between the return and the acquire.  The zero-bucket rule is to fail fast, also for a
turn that re-issues: it dials unless at that moment all buckets are with the attempts
of others (`spentUnit_dials_iff`), and never fails so where there are no more turns
than buckets.

The steps of a turn are labelled here with what they emit (`TurnStep`), so that the
ledger of one turn can be told from those of the others.
-/

namespace RarChat

open EarlyExit Interleaving

/-! ## Steps and what they emit -/

/-- **One step of a turn**, with its events. -/
inductive TurnStep (serde : SerdeJson) (h : EventHandler) :
    UInt32 → TurnThread → List TurnEvent → UInt32 → TurnThread → Prop
  | acquired {v : UInt32} {p : TurnThread} {t : TurnState} (phase : p.phase = .atLoop t)
      (granted : (acquireSendBucket t.begun.st.streamId t.begun.st.attempt v).granted =
        true) :
      TurnStep serde h v p
        ((acquireSendBucket t.begun.st.streamId t.begun.st.attempt v).records.map
          .emitted)
        (acquireSendBucket t.begun.st.streamId t.begun.st.attempt v).available
        (p.to (.inFlight t.begun))
  | denied {v : UInt32} {p : TurnThread} {t : TurnState} (phase : p.phase = .atLoop t)
      (refused : (acquireSendBucket t.begun.st.streamId t.begun.st.attempt v).granted =
        false) :
      TurnStep serde h v p
        ((acquireSendBucket t.begun.st.streamId t.begun.st.attempt v).records.map
          .emitted)
        (acquireSendBucket t.begun.st.streamId t.begun.st.attempt v).available
        (p.to (.ended (.failed
          (.protocol "no send bucket available (admission denied)"))))
  | attempted {v : UInt32} {p : TurnThread} {begun : TurnState}
      (phase : p.phase = .inFlight begun) (wire : Wire) :
      TurnStep serde h v p
        [.attempt begun wire (attemptOf p.cfg serde p.messages begun wire)] v
        (p.to (.returning begun (attemptOf p.cfg serde p.messages begun wire)))
  | returned {v : UInt32} {p : TurnThread} {begun : TurnState} {run : AttemptRun}
      (phase : p.phase = .returning begun run) :
      TurnStep serde h v p
        ((returnSendBucket begun.st.streamId begun.st.attempt v).records.map .emitted)
        (returnSendBucket begun.st.streamId begun.st.attempt v).available
        (p.to (.deciding begun run))
  | settled {v : UInt32} {p : TurnThread} {begun : TurnState} {run : AttemptRun}
      (phase : p.phase = .deciding begun run) :
      TurnStep serde h v p
        (settle h begun.st.streamId begun.st.attempt (begun.attempted run) run.ended).out v
        (p.to (decided h begun run))

variable {serde : SerdeJson} {h : EventHandler}

/-- The steps are those of `TurnMove`. -/
theorem TurnStep.move {v v' : UInt32} {p p' : TurnThread} {events : List TurnEvent}
    (step : TurnStep serde h v p events v' p') : TurnMove serde h v p v' p' := by
  cases step with
  | acquired phase granted => exact .acquired phase granted
  | denied phase refused => exact .denied phase refused
  | attempted phase wire => exact .attempted phase wire
  | returned phase => exact .returned phase
  | settled phase => exact .settled phase

theorem TurnMove.step {v v' : UInt32} {p p' : TurnThread}
    (move : TurnMove serde h v p v' p') : ∃ events, TurnStep serde h v p events v' p' := by
  cases move with
  | acquired phase granted => exact ⟨_, .acquired phase granted⟩
  | denied phase refused => exact ⟨_, .denied phase refused⟩
  | attempted phase wire => exact ⟨_, .attempted phase wire⟩
  | returned phase => exact ⟨_, .returned phase⟩
  | settled phase => exact ⟨_, .settled phase⟩

/-! ## The ledger of one turn -/

/-- The event draws on the retry allowance. -/
def TurnEvent.SpendsUnit (e : TurnEvent) : Prop :=
  ∃ stream attempt remaining,
    e = .emitted (.ledger stream attempt (.retryAllowanceSpent remaining))

/-- The event spends a Send Bucket. -/
def TurnEvent.SpendsBucket (e : TurnEvent) : Prop :=
  ∃ stream attempt left, e = .emitted (.ledger stream attempt (.sendBucketSpent left))

/-- The event denies admission. -/
def TurnEvent.Denies (e : TurnEvent) : Prop :=
  ∃ stream attempt, e = .emitted (.ledger stream attempt .sendBucketDenied)

theorem TurnEvent.SpendsBucket.not_denies {e : TurnEvent} (spends : e.SpendsBucket) :
    ¬e.Denies := by
  obtain ⟨stream, attempt, left, rfl⟩ := spends
  rintro ⟨stream', attempt', he⟩
  simp at he

/-- The event is an attempt. -/
def TurnEvent.Attempts (e : TurnEvent) : Prop :=
  ∃ begun wire run, e = .attempt begun wire run

/-- Where a turn stands, by the last of what it has done. -/
structure StandsBehind (done : List TurnEvent) (p : TurnThread) : Prop where
  unit : ∀ e, done.getLast? = some e → e.SpendsUnit → ∃ t, p.phase = .atLoop t
  bucket : ∀ e, done.getLast? = some e → e.SpendsBucket →
    ∃ begun, p.phase = .inFlight begun

theorem standsBehind_nil (p : TurnThread) : StandsBehind [] p := by
  constructor
  · intro e hlast
    cases hlast
  · intro e hlast
    cases hlast

/-- What the last event says of the turn is all there is to know behind it. -/
theorem StandsBehind.concat {done : List TurnEvent} {e : TurnEvent} {p : TurnThread}
    (unit : e.SpendsUnit → ∃ t, p.phase = .atLoop t)
    (bucket : e.SpendsBucket → ∃ begun, p.phase = .inFlight begun) :
    StandsBehind (done ++ [e]) p := by
  constructor
  · intro e' hlast
    rw [List.getLast?_concat] at hlast
    obtain rfl := Option.some.inj hlast
    exact unit
  · intro e' hlast
    rw [List.getLast?_concat] at hlast
    obtain rfl := Option.some.inj hlast
    exact bucket

/-- A step without an event, from neither of the two places. -/
theorem StandsBehind.silent {done : List TurnEvent} {p : TurnThread}
    (stands : StandsBehind done p) (notLoop : ∀ t, p.phase ≠ .atLoop t)
    (notFlight : ∀ begun, p.phase ≠ .inFlight begun) (q : TurnThread) :
    StandsBehind done q := by
  constructor
  · intro e hlast hunit
    obtain ⟨t, ht⟩ := stands.unit e hlast hunit
    exact absurd ht (notLoop t)
  · intro e hlast hbucket
    obtain ⟨begun, hbegun⟩ := stands.bucket e hlast hbucket
    exact absurd hbegun (notFlight begun)

/-- What the match on the end of an attempt does: it draws on the allowance and goes back
to the loop, or it ends the turn without a word. -/
theorem decided_cases (h : EventHandler) (begun : TurnState) (run : AttemptRun) :
    (∃ t e, (settle h begun.st.streamId begun.st.attempt (begun.attempted run)
        run.ended).out = [e] ∧ e.SpendsUnit ∧ decided h begun run = .atLoop t) ∨
      ∃ verdict, (settle h begun.st.streamId begun.st.attempt (begun.attempted run)
        run.ended).out = [] ∧ decided h begun run = .ended verdict := by
  by_cases hretry : run.ended.Faulting ∧ 0 < (begun.attempted run).remainingAllowance
  · left
    rw [decided, settle_of_retry hretry.1 hretry.2]
    exact ⟨_, _, rfl, ⟨_, _, _, rfl⟩, rfl⟩
  · right
    rw [decided, settle_of_settled fun hfaulting hleft => hretry ⟨hfaulting, hleft⟩]
    exact ⟨_, rfl, rfl⟩

/-- **Where a turn stands follows from its last event.** -/
theorem TurnStep.standsBehind {v v' : UInt32} {p p' : TurnThread}
    {done events : List TurnEvent} (step : TurnStep serde h v p events v' p')
    (stands : StandsBehind done p) : StandsBehind (done ++ events) p' := by
  cases step with
  | @acquired t phase granted =>
      rw [acquireSendBucket_of_pos (pos_of_granted granted)]
      exact .concat (by simp [TurnEvent.SpendsUnit]) fun _ => ⟨_, rfl⟩
  | @denied t phase refused =>
      rw [acquireSendBucket_of_not_pos (not_pos_of_refused refused)]
      exact .concat (by simp [TurnEvent.SpendsUnit]) (by simp [TurnEvent.SpendsBucket])
  | attempted phase wire =>
      exact .concat (by simp [TurnEvent.SpendsUnit]) (by simp [TurnEvent.SpendsBucket])
  | returned phase =>
      exact .concat (by simp [TurnEvent.SpendsUnit]) (by simp [TurnEvent.SpendsBucket])
  | @settled begun run phase =>
      rcases decided_cases h begun run with ⟨t, e, hout, hunit, hdecided⟩ | ⟨verdict, hout, -⟩
      · rw [hout]
        obtain ⟨stream, attempt, remaining, rfl⟩ := hunit
        exact .concat (fun _ => ⟨t, hdecided⟩) (by simp [TurnEvent.SpendsBucket])
      · -- the last event is the one before, and the turn was deciding
        rw [hout, List.append_nil]
        exact stands.silent (by simp [phase]) (by simp [phase]) _

/-! ## The next step -/

/-- Where a turn stands that was denied a bucket: it has failed. -/
def deniedPhase : Phase :=
  .ended (.failed (.protocol "no send bucket available (admission denied)"))

/-- The next step of a turn at its loop asks for a bucket. -/
theorem TurnStep.at_loop {v v' : UInt32} {p p' : TurnThread} {events : List TurnEvent}
    {t : TurnState} (step : TurnStep serde h v p events v' p')
    (phase : p.phase = .atLoop t) :
    (0 < v ∧ ∃ e, events = [e] ∧ e.SpendsBucket) ∨
      ¬0 < v ∧ (∃ e, events = [e] ∧ e.Denies) ∧ p'.phase = deniedPhase := by
  cases step with
  | @acquired t' phase' granted =>
      have hpos := pos_of_granted granted
      rw [acquireSendBucket_of_pos hpos]
      exact .inl ⟨hpos, _, rfl, _, _, _, rfl⟩
  | @denied t' phase' refused =>
      have hzero := not_pos_of_refused refused
      rw [acquireSendBucket_of_not_pos hzero]
      exact .inr ⟨hzero, ⟨_, rfl, _, _, rfl⟩, rfl⟩
  | attempted phase' wire => exact absurd (phase.symm.trans phase') nofun
  | returned phase' => exact absurd (phase.symm.trans phase') nofun
  | settled phase' => exact absurd (phase.symm.trans phase') nofun

/-- The next step of a turn in flight is its attempt. -/
theorem TurnStep.in_flight {v v' : UInt32} {p p' : TurnThread} {events : List TurnEvent}
    {begun : TurnState} (step : TurnStep serde h v p events v' p')
    (phase : p.phase = .inFlight begun) : ∃ e, events = [e] ∧ e.Attempts := by
  cases step with
  | attempted phase' wire => exact ⟨_, rfl, _, _, _, rfl⟩
  | acquired phase' granted => exact absurd (phase.symm.trans phase') nofun
  | denied phase' refused => exact absurd (phase.symm.trans phase') nofun
  | returned phase' => exact absurd (phase.symm.trans phase') nofun
  | settled phase' => exact absurd (phase.symm.trans phase') nofun

theorem held_le_one (p : TurnThread) : p.held ≤ 1 := by
  unfold TurnThread.held
  split <;> omega

/-! ## Two turns and one bucket -/

/-- **Each unit buys a dial**: behind a spent unit a turn is granted a bucket at its next
step, and behind the bucket comes its attempt. -/
def EveryUnitDials (serde : SerdeJson) (h : EventHandler) (B : UInt32)
    (turns : List TurnThread) : Prop :=
  ∀ (trace : List (ℕ × TurnEvent)) (c c' : Config UInt32 TurnThread) (i : ℕ)
    (events : List TurnEvent) (last : TurnEvent),
    Runs (TurnStep serde h) ⟨B, turns⟩ trace c → Noted (TurnStep serde h) c i events c' →
      (doneBy i trace).getLast? = some last →
        (last.SpendsUnit → ∃ e, events = [e] ∧ e.SpendsBucket) ∧
          (last.SpendsBucket → ∃ e, events = [e] ∧ e.Attempts)

/-- A turn that enters its loop with one retry. -/
def contender (stream : StreamId) : TurnThread :=
  ⟨exampleConfig, [], .atLoop (EventHandler.enter ⟨1, false⟩ stream 0)⟩

/-- The first attempt of the turn, which is refused. -/
def refusedAttempt (stream : StreamId) : AttemptRun :=
  attemptOf exampleConfig (.ofTable []) [] (EventHandler.enter ⟨1, false⟩ stream 0).begun
    (.connectError 0 "refused")

/-- The turn behind its first attempt. -/
def reissuing (stream : StreamId) : TurnThread :=
  ⟨exampleConfig, [], decided ⟨1, false⟩ (EventHandler.enter ⟨1, false⟩ stream 0).begun
    (refusedAttempt stream)⟩

/-- Of a handler with one bucket, a turn spends it, is refused, gives it back and spends
its unit. -/
theorem contender_reissues (others : List TurnThread) :
    ∃ trace last, Runs (TurnStep (.ofTable []) ⟨1, false⟩) ⟨1, contender 1 :: others⟩ trace
      ⟨1, reissuing 1 :: others⟩ ∧ (doneBy 0 trace).getLast? = some last ∧
        last.SpendsUnit := by
  have hrun : Runs (TurnStep (.ofTable []) ⟨1, false⟩) ⟨1, contender 1 :: others⟩ _
      ⟨1, reissuing 1 :: others⟩ :=
    .tail (.tail (.tail (.tail .refl
      (.move [] others (.acquired (t := EventHandler.enter ⟨1, false⟩ 1 0) rfl (by decide))))
      (.move [] others (.attempted rfl (.connectError 0 "refused"))))
      (.move [] others (.returned rfl)))
      (.move [] others (.settled rfl))
  exact ⟨_, _, hrun, rfl, ⟨_, _, _, rfl⟩⟩

/-- A turn whose bucket another turn has taken does not dial with the unit it spent. -/
theorem spentUnit_denied :
    ¬EveryUnitDials (.ofTable []) ⟨1, false⟩ 1 [contender 1, contender 2] := by
  intro dials
  obtain ⟨trace, last, hrun, hlast, hunit⟩ := contender_reissues [contender 2]
  let taker : TurnThread :=
    (contender 2).to (.inFlight (EventHandler.enter ⟨1, false⟩ 2 0).begun)
  have htaken : Runs (TurnStep (.ofTable []) ⟨1, false⟩) ⟨1, [contender 1, contender 2]⟩ _
      ⟨0, [reissuing 1, taker]⟩ :=
    hrun.tail (.move [reissuing 1] []
      (.acquired (t := EventHandler.enter ⟨1, false⟩ 2 0) rfl (by decide)))
  have hdenied : Noted (TurnStep (.ofTable []) ⟨1, false⟩) ⟨0, [reissuing 1, taker]⟩ 0 _ _ :=
    .move [] [taker] (.denied (p := reissuing 1) rfl (by decide))
  obtain ⟨e, he, hspends⟩ := (dials _ _ _ 0 _ last htaken hdenied
    (by rw [doneBy_append, if_neg (by decide), List.append_nil, hlast])).1 hunit
  obtain rfl := List.singleton_inj.mp he
  obtain ⟨_, _, _, hspent⟩ := hspends
  cases hspent

/-! ## What a unit buys -/

/-- **What a unit of the retry allowance buys.**  In every run of turns on a handler
created with `B` buckets, a turn that has drawn on its allowance asks for a bucket at its
next step.  It is granted one as long as the attempts in flight, which are those of
others, leave one, and so always where there are no more turns than buckets; its step
after that is the attempt.  Only where all `B` buckets are with attempts in flight it
is denied, and has then failed. -/
theorem spentUnit_dials_iff (serde : SerdeJson) (h : EventHandler) (B : UInt32)
    (turns : List TurnThread) (entered : ∀ p ∈ turns, ∃ t, p.phase = .atLoop t)
    {trace : List (ℕ × TurnEvent)} {c c' : Config UInt32 TurnThread} {i : ℕ}
    {events : List TurnEvent} (run : Runs (TurnStep serde h) ⟨B, turns⟩ trace c)
    (next : Noted (TurnStep serde h) c i events c') {last : TurnEvent}
    (behind : (doneBy i trace).getLast? = some last) :
    (last.SpendsUnit →
        ((∃ e, events = [e] ∧ e.SpendsBucket) ↔ attemptsInFlight c < B.toNat) ∧
          ((∃ e, events = [e] ∧ e.Denies) ↔ attemptsInFlight c = B.toNat) ∧
            (attemptsInFlight c = B.toNat →
              ∃ p, c'.parties[i]? = some p ∧ p.phase = deniedPhase) ∧
            (turns.length ≤ B.toNat → attemptsInFlight c < B.toNat)) ∧
      (last.SpendsBucket → ∃ e, events = [e] ∧ e.Attempts) := by
  obtain ⟨p, p', hp, hstep, hp', -⟩ := next.party
  have hstands : StandsBehind (doneBy i trace) p :=
    run.own (fun p _ => standsBehind_nil p)
      (fun _ _ _ _ _ _ hstands step => TurnStep.standsBehind step hstands) hp
  constructor
  · intro hunit
    obtain ⟨t, hphase⟩ := hstands.unit last behind hunit
    have hreaches : Reaches (TurnMove serde h) ⟨B, turns⟩ c :=
      run.reaches fun _ _ _ _ _ step => step.move
    have hbalance := (sendBuckets_conserved serde h B turns entered hreaches).1
    have hleft : 0 < c.shared ↔ attemptsInFlight c < B.toNat := by
      rw [UInt32.lt_iff_toNat_lt, UInt32.toNat_zero]
      omega
    have hall : attemptsInFlight c = B.toNat ↔ ¬0 < c.shared := by
      rw [hleft]
      omega
    refine ⟨?_, ?_, ?_, ?_⟩
    · rw [← hleft]
      rcases hstep.at_loop hphase with ⟨hpos, hspent⟩ | ⟨hzero, ⟨e, rfl, hdenies⟩, -⟩
      · exact iff_of_true hspent hpos
      · refine iff_of_false ?_ hzero
        rintro ⟨e', he, hspends⟩
        obtain rfl := List.singleton_inj.mp he
        exact hspends.not_denies hdenies
    · rw [hall]
      rcases hstep.at_loop hphase with ⟨hpos, e, rfl, hspends⟩ | ⟨hzero, hdenied, -⟩
      · refine iff_of_false ?_ (not_not_intro hpos)
        rintro ⟨e', he, hdenies⟩
        obtain rfl := List.singleton_inj.mp he
        exact hspends.not_denies hdenies
      · exact iff_of_true hdenied hzero
    · intro hfull
      rcases hstep.at_loop hphase with ⟨hpos, -⟩ | ⟨-, -, hended⟩
      · exact absurd hpos (hall.mp hfull)
      · exact ⟨p', hp', hended⟩
    · -- the turn itself holds nothing, so the attempts in flight are those of the others
      intro hfew
      have hidle : p.held = 0 := by
        simp [TurnThread.held, hphase]
      have hothers := load_lt_length held_le_one (List.mem_of_getElem? hp) hidle
      rw [run.length_parties] at hothers
      exact Nat.lt_of_lt_of_le hothers hfew
  · intro hbucket
    obtain ⟨begun, hphase⟩ := hstands.bucket last behind hbucket
    exact hstep.in_flight hphase

/-- Two turns with one bucket: the first one is refused and gives the bucket back, the second
one takes it before the first has spent its unit, and the first is denied and fails. -/
theorem spentUnit_dials_contended :
    ∃ trace c c' events, Runs (TurnStep (.ofTable []) ⟨1, false⟩)
        ⟨1, [contender 1, contender 2]⟩ trace c ∧
      Noted (TurnStep (.ofTable []) ⟨1, false⟩) c 0 events c' ∧
        (∃ e, events = [e] ∧ e.Denies) ∧
          ∃ p, c'.parties[0]? = some p ∧ p.phase = deniedPhase := by
  let taker : TurnThread :=
    (contender 2).to (.inFlight (EventHandler.enter ⟨1, false⟩ 2 0).begun)
  have hreturned : Runs (TurnStep (.ofTable []) ⟨1, false⟩) ⟨1, [contender 1, contender 2]⟩ _
      ⟨1, [(contender 1).to (.deciding (EventHandler.enter ⟨1, false⟩ 1 0).begun
        (refusedAttempt 1)), contender 2]⟩ :=
    .tail (.tail (.tail .refl
      (.move [] [contender 2]
        (.acquired (t := EventHandler.enter ⟨1, false⟩ 1 0) rfl (by decide))))
      (.move [] [contender 2] (.attempted rfl (.connectError 0 "refused"))))
      (.move [] [contender 2] (.returned rfl))
  have htaken : Runs (TurnStep (.ofTable []) ⟨1, false⟩) ⟨1, [contender 1, contender 2]⟩ _
      ⟨0, [(contender 1).to (.deciding (EventHandler.enter ⟨1, false⟩ 1 0).begun
        (refusedAttempt 1)), taker]⟩ :=
    hreturned.tail (.move [_] []
      (.acquired (t := EventHandler.enter ⟨1, false⟩ 2 0) rfl (by decide)))
  have hspent : Runs (TurnStep (.ofTable []) ⟨1, false⟩) ⟨1, [contender 1, contender 2]⟩ _
      ⟨0, [reissuing 1, taker]⟩ :=
    htaken.tail (.move [] [taker] (.settled rfl))
  have hnext : Noted (TurnStep (.ofTable []) ⟨1, false⟩) ⟨0, [reissuing 1, taker]⟩ 0 _ _ :=
    .move [] [taker] (.denied (p := reissuing 1) rfl (by decide))
  obtain ⟨-, hdenied, hended, -⟩ := (spentUnit_dials_iff (.ofTable []) ⟨1, false⟩ 1
    [contender 1, contender 2] (by simp [contender]) hspent hnext rfl).1 ⟨_, _, _, rfl⟩
  have hfull : attemptsInFlight ⟨0, [reissuing 1, taker]⟩ = (1 : UInt32).toNat := by
    decide +kernel
  exact ⟨_, _, _, _, hspent, hnext, hdenied.mpr hfull, hended hfull⟩

end RarChat
