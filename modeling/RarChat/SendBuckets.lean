import RarChat.Library.Interleaving
import RarChat.Turn

/-!
# Send Buckets under concurrency

All turns of a process share one Event Handler and its bucket counter.  A turn is
cut here into the steps that other turns can come between: the acquire, the attempt,
the return, and the decision about what follows (`Phase`, `TurnMove`).  They are
computed by the same functions as a whole pass of the loop, and a pass is a sequence
of them (`turnPass_moves`).

The attempts in flight are those that have acquired a bucket and not returned it.
Over every interleaving, the counter and the attempts in flight add up to the
buckets the handler was created with (`sendBuckets_conserved`), so the atomic
counter neither underflows nor wraps.
-/

namespace RarChat

open EarlyExit Interleaving

/-! ## Steps of a turn -/

/-- Where a turn stands. -/
inductive Phase
  | atLoop (t : TurnState)
  | inFlight (begun : TurnState)
  | returning (begun : TurnState) (run : AttemptRun)
  | deciding (begun : TurnState) (run : AttemptRun)
  | ended (verdict : TurnVerdict)
deriving DecidableEq, Repr

/-- A turn on its endpoint. -/
structure TurnThread where
  cfg : OpenAiConfig
  messages : List Message
  phase : Phase
deriving DecidableEq, Repr

/-- The turn in another phase. -/
def TurnThread.to (p : TurnThread) (phase : Phase) : TurnThread := { p with phase := phase }

/-- Where a turn stands behind a pass of its loop. -/
def afterPass (o : TurnOutcome) : Phase :=
  match o.stop with
  | none => .atLoop o.state
  | some verdict => .ended verdict

/-- The phase behind the `match` on how an attempt ended. -/
def decided (h : EventHandler) (begun : TurnState) (run : AttemptRun) : Phase :=
  afterPass
    (settle h begun.st.streamId begun.st.attempt (begun.attempted run) run.ended)

/-- **One step of a turn** on the bucket counter it shares.  An attempt ends in any
way that a wire can end it. -/
inductive TurnMove (serde : SerdeJson) (h : EventHandler) :
    UInt32 → TurnThread → UInt32 → TurnThread → Prop
  | acquired {v : UInt32} {p : TurnThread} {t : TurnState} (phase : p.phase = .atLoop t)
      (granted : (acquireSendBucket t.begun.st.streamId t.begun.st.attempt v).granted =
        true) :
      TurnMove serde h v p
        (acquireSendBucket t.begun.st.streamId t.begun.st.attempt v).available
        (p.to (.inFlight t.begun))
  | denied {v : UInt32} {p : TurnThread} {t : TurnState} (phase : p.phase = .atLoop t)
      (refused : (acquireSendBucket t.begun.st.streamId t.begun.st.attempt v).granted =
        false) :
      TurnMove serde h v p
        (acquireSendBucket t.begun.st.streamId t.begun.st.attempt v).available
        (p.to (.ended (.failed
          (.protocol "no send bucket available (admission denied)"))))
  | attempted {v : UInt32} {p : TurnThread} {begun : TurnState}
      (phase : p.phase = .inFlight begun) (wire : Wire) :
      TurnMove serde h v p v
        (p.to (.returning begun (attemptOf p.cfg serde p.messages begun wire)))
  | returned {v : UInt32} {p : TurnThread} {begun : TurnState} {run : AttemptRun}
      (phase : p.phase = .returning begun run) :
      TurnMove serde h v p (returnSendBucket begun.st.streamId begun.st.attempt v).available
        (p.to (.deciding begun run))
  | settled {v : UInt32} {p : TurnThread} {begun : TurnState} {run : AttemptRun}
      (phase : p.phase = .deciding begun run) :
      TurnMove serde h v p v (p.to (decided h begun run))

variable {serde : SerdeJson} {h : EventHandler}

/-! ## The balance -/

/-- The buckets a turn holds. -/
def TurnThread.held (p : TurnThread) : ℕ :=
  match p.phase with
  | .inFlight _ => 1
  | .returning _ _ => 1
  | _ => 0

/-- The attempts that have acquired a bucket and not returned it. -/
abbrev attemptsInFlight (c : Config UInt32 TurnThread) : ℕ := c.load TurnThread.held

theorem held_to_afterPass (p : TurnThread) (o : TurnOutcome) :
    (p.to (afterPass o)).held = 0 := by
  cases hstop : o.stop <;> simp [afterPass, TurnThread.to, TurnThread.held, hstop]

/-- **What a step does to the counter**: an acquire takes one bucket and holds it, a
return gives it back, and every other step, a denied acquire included, leaves both
alone. -/
theorem TurnMove.cases {v v' : UInt32} {p p' : TurnThread}
    (move : TurnMove serde h v p v' p') :
    (0 < v ∧ v' = v - 1 ∧ p.held = 0 ∧ p'.held = 1) ∨
      (v' = v + 1 ∧ p.held = 1 ∧ p'.held = 0) ∨ (v' = v ∧ p'.held = p.held) := by
  cases move with
  | @acquired t phase granted =>
      have hpos := pos_of_granted granted
      rw [acquireSendBucket_of_pos hpos]
      exact .inl ⟨hpos, rfl, by simp [TurnThread.held, phase], rfl⟩
  | @denied t phase refused =>
      rw [acquireSendBucket_of_not_pos (not_pos_of_refused refused)]
      exact .inr (.inr ⟨rfl, by simp [TurnThread.held, TurnThread.to, phase]⟩)
  | attempted phase wire =>
      exact .inr (.inr ⟨rfl, by simp [TurnThread.held, TurnThread.to, phase]⟩)
  | returned phase =>
      exact .inr (.inl ⟨rfl, by simp [TurnThread.held, phase], rfl⟩)
  | settled phase =>
      refine .inr (.inr ⟨rfl, ?_⟩)
      rw [decided, held_to_afterPass]
      simp [TurnThread.held, phase]

/-- A step conserves the balance, and a return does not wrap. -/
theorem TurnMove.conserves {B : UInt32} {v v' : UInt32} {p p' : TurnThread}
    (move : TurnMove serde h v p v' p') (fits : v.toNat + p.held ≤ B.toNat) :
    v'.toNat + p'.held = v.toNat + p.held := by
  have hB := B.toNat_lt
  -- the bucket a turn holds keeps the counter below `B`, so its return cannot wrap
  obtain ⟨hpos, rfl, hp, hp'⟩ | ⟨rfl, hp, hp'⟩ | ⟨rfl, hp'⟩ := move.cases
  · have hv := UInt32.lt_iff_toNat_lt.mp hpos
    rw [UInt32.toNat_zero] at hv
    rw [hp, hp', toNat_sub_one hpos]
    omega
  · rw [hp] at fits
    rw [hp, hp', UInt32.toNat_add, UInt32.toNat_one, Nat.mod_eq_of_lt (by omega)]
  · rw [hp']

/-- **Send Buckets are conserved.**  With any number of turns on a handler created
with `B` buckets, under every interleaving of their steps: the available buckets and
the attempts in flight add up to `B`; so at most `B` attempts are in flight, each step
moves the counter by one bucket at most, without underflow or wrapping, a denied
acquire leaves it alone, and once all turns have ended all buckets are back. -/
theorem sendBuckets_conserved (serde : SerdeJson) (h : EventHandler) (B : UInt32)
    (turns : List TurnThread) (entered : ∀ p ∈ turns, ∃ t, p.phase = .atLoop t)
    {c : Config UInt32 TurnThread}
    (reaches : Reaches (TurnMove serde h) ⟨B, turns⟩ c) :
    c.shared.toNat + attemptsInFlight c = B.toNat ∧
      attemptsInFlight c ≤ B.toNat ∧
      (∀ c', Step (TurnMove serde h) c c' →
        c'.shared.toNat + 1 = c.shared.toNat ∨ c'.shared.toNat = c.shared.toNat + 1 ∨
          c'.shared = c.shared) ∧
      (∀ stream attempt, (acquireSendBucket stream attempt c.shared).granted = false →
        (acquireSendBucket stream attempt c.shared).available = c.shared) ∧
      ((∀ p ∈ c.parties, ∃ verdict, p.phase = .ended verdict) → c.shared = B) := by
  -- turns at the head of their loops hold nothing
  have hstart : B.toNat + Config.load TurnThread.held ⟨B, turns⟩ = B.toNat := by
    rw [load_eq_zero, Nat.add_zero]
    intro p hp
    obtain ⟨t, ht⟩ := entered p hp
    simp [TurnThread.held, ht]
  have hbalance : c.shared.toNat + attemptsInFlight c = B.toNat :=
    Reaches.balance UInt32.toNat TurnThread.held
      (fun v p v' p' move => TurnMove.conserves (B := B) move) reaches hstart
  refine ⟨hbalance, by omega, ?_, ?_, ?_⟩
  · intro c' step
    obtain ⟨p, p', move, hfits, -⟩ := step.fits UInt32.toNat TurnThread.held hbalance
    have hconserves := move.conserves hfits
    obtain ⟨-, -, hp, hp'⟩ | ⟨-, hp, hp'⟩ | ⟨hv, -⟩ := move.cases
    · left
      omega
    · right
      left
      omega
    · exact .inr (.inr hv)
  · intro stream attempt refused
    rw [acquireSendBucket_of_not_pos (not_pos_of_refused refused)]
  · intro allEnded
    have hidle : attemptsInFlight c = 0 := load_eq_zero fun p hp => by
      obtain ⟨verdict, hverdict⟩ := allEnded p hp
      simp [TurnThread.held, hverdict]
    rw [hidle, Nat.add_zero] at hbalance
    exact UInt32.toNat_inj.mp hbalance

/-- A turn at the head of its loop, without a retry. -/
def entering (stream : StreamId) : TurnThread :=
  ⟨exampleConfig, [], .atLoop (EventHandler.enter ⟨0, false⟩ stream 0)⟩

/-- Two turns on one bucket: the first one has it, the second one is denied in the middle of
the attempt, and behind both of them the bucket is back. -/
theorem sendBuckets_conserved_contended :
    ∃ c c', Reaches (TurnMove (.ofTable []) ⟨0, false⟩) ⟨1, [entering 1, entering 2]⟩ c ∧
      c.shared.toNat + attemptsInFlight c = 1 ∧ attemptsInFlight c = 1 ∧
      Reaches (TurnMove (.ofTable []) ⟨0, false⟩) c c' ∧
      (∀ p ∈ c'.parties, ∃ verdict, p.phase = .ended verdict) ∧ c'.shared = 1 := by
  let begun := (EventHandler.enter ⟨0, false⟩ 1 0).begun
  let refused := attemptOf exampleConfig (.ofTable []) [] begun (.connectError 0 "refused")
  let denied := (entering 2).to (.ended (.failed
    (.protocol "no send bucket available (admission denied)")))
  have hacquired : Step (TurnMove (.ofTable []) ⟨0, false⟩) ⟨1, [entering 1, entering 2]⟩
      ⟨0, [(entering 1).to (.inFlight begun), entering 2]⟩ :=
    .move [] [entering 2] (.acquired (t := EventHandler.enter ⟨0, false⟩ 1 0) rfl (by decide))
  have hdenied : Step (TurnMove (.ofTable []) ⟨0, false⟩)
      ⟨0, [(entering 1).to (.inFlight begun), entering 2]⟩
      ⟨0, [(entering 1).to (.inFlight begun), denied]⟩ :=
    .move [_] [] (.denied (t := EventHandler.enter ⟨0, false⟩ 2 0) rfl (by decide))
  have hattempted : Step (TurnMove (.ofTable []) ⟨0, false⟩)
      ⟨0, [(entering 1).to (.inFlight begun), denied]⟩
      ⟨0, [(entering 1).to (.returning begun refused), denied]⟩ :=
    .move [] [denied] (.attempted rfl (.connectError 0 "refused"))
  have hreturned : Step (TurnMove (.ofTable []) ⟨0, false⟩)
      ⟨0, [(entering 1).to (.returning begun refused), denied]⟩
      ⟨1, [(entering 1).to (.deciding begun refused), denied]⟩ :=
    .move [] [denied] (.returned rfl)
  have hsettled : Step (TurnMove (.ofTable []) ⟨0, false⟩)
      ⟨1, [(entering 1).to (.deciding begun refused), denied]⟩
      ⟨1, [(entering 1).to (decided ⟨0, false⟩ begun refused), denied]⟩ :=
    .move [] [denied] (.settled rfl)
  have hmiddle : Reaches (TurnMove (.ofTable []) ⟨0, false⟩) ⟨1, [entering 1, entering 2]⟩ _ :=
    .tail (.single hacquired) hdenied
  have hlater := ((Relation.ReflTransGen.single hattempted).tail hreturned).tail hsettled
  have hentered : ∀ p ∈ [entering 1, entering 2], ∃ t, p.phase = .atLoop t := by
    simp [entering]
  have hended : ∀ p ∈ [(entering 1).to (decided ⟨0, false⟩ begun refused), denied],
      ∃ verdict, p.phase = .ended verdict := by
    intro p hp
    rcases List.mem_pair.mp hp with rfl | rfl
    · exact ⟨_, rfl⟩
    · exact ⟨_, rfl⟩
  exact ⟨_, _, hmiddle,
    (sendBuckets_conserved (.ofTable []) ⟨0, false⟩ 1 _ hentered hmiddle).1, by decide +kernel,
    hlater, hended, (sendBuckets_conserved (.ofTable []) ⟨0, false⟩ 1 _ hentered
      (hmiddle.trans hlater)).2.2.2.2 hended⟩

/-! ## A pass is a sequence of steps -/

/-- **A pass of the loop** is an acquire and, if that is granted, an attempt, a
return and a decision, with the counter as the dial says where it is touched. -/
theorem turnPass_moves {p : TurnThread} {t : TurnState} (phase : p.phase = .atLoop t)
    (d : Dial) :
    let pass := turnPass p.cfg serde h p.messages t d
    let run := attemptOf p.cfg serde p.messages t.begun d.wire
    if d.Admitted then
      TurnMove serde h d.available p (d.available - 1) (p.to (.inFlight t.begun)) ∧
        (∀ v, TurnMove serde h v (p.to (.inFlight t.begun)) v
          (p.to (.returning t.begun run))) ∧
        TurnMove serde h d.availableAtReturn (p.to (.returning t.begun run))
          (d.availableAtReturn + 1) (p.to (.deciding t.begun run)) ∧
        ∀ v, TurnMove serde h v (p.to (.deciding t.begun run)) v (p.to (afterPass pass))
    else TurnMove serde h d.available p d.available (p.to (afterPass pass)) := by
  intro pass run
  split_ifs with hadmitted
  · have hacquired : TurnMove serde h d.available p _ _ := .acquired phase
      (by rw [acquireSendBucket_of_pos hadmitted])
    rw [acquireSendBucket_of_pos hadmitted] at hacquired
    refine ⟨hacquired, fun v => .attempted rfl d.wire, .returned rfl, fun v => ?_⟩
    have hpass : afterPass pass = decided h t.begun run := by
      simp only [pass, run, turnPass_of_admitted hadmitted, decided, afterPass,
        Outcome.after_stop, Outcome.after_state, attemptOf_ended]
      rfl
    rw [hpass]
    exact .settled rfl
  · have hdenied : TurnMove serde h d.available p _ _ := .denied phase
      (by rw [acquireSendBucket_of_not_pos hadmitted])
    rw [acquireSendBucket_of_not_pos hadmitted] at hdenied
    simpa only [pass, turnPass_of_denied hadmitted, afterPass] using hdenied

end RarChat
