import Mathlib.Data.List.Basic
import Mathlib.Tactic.Common

/-!
# Runs with early exit

A loop that consumes a list of inputs, keeps a state, emits outputs and may
stop before the inputs are used up.  `run step s is` is that loop: `step` is
its body, `Outcome.stop` is how the body leaves the loop, and an outcome whose
`stop` is `none` says that the inputs ran out first.

Four kinds of rule are needed about such loops, and each is proved once here:

* **splitting** (`run_append`): running a concatenation is running the first
  part and, unless it stopped, the second one;
* **step conditions** (`Along`): a property of every step the run really takes,
  with the induction that turns it into a property of the run;
* **cost** (`run_measure_le`): what a run adds to a measure of the state, from what
  each input may add;
* **comparison** (`Outcome.Agrees`): two loops whose bodies agree, from related
  states, on what is observed of them agree on it as wholes.
-/

namespace EarlyExit

universe u v w z

variable {σ : Type u} {ω : Type v} {ε : Type w} {ι : Type z}

/-- What one pass, or a whole loop, leaves behind: the state, what was emitted,
and how the loop was left, if it was. -/
structure Outcome (σ : Type u) (ω : Type v) (ε : Type w) where
  state : σ
  out : List ω
  stop : Option ε

/-- Prepend outputs that were emitted earlier. -/
def Outcome.after (earlier : List ω) (o : Outcome σ ω ε) : Outcome σ ω ε :=
  { o with out := earlier ++ o.out }

@[simp] theorem Outcome.after_state (earlier : List ω) (o : Outcome σ ω ε) :
    (o.after earlier).state = o.state := rfl

@[simp] theorem Outcome.after_out (earlier : List ω) (o : Outcome σ ω ε) :
    (o.after earlier).out = earlier ++ o.out := rfl

@[simp] theorem Outcome.after_stop (earlier : List ω) (o : Outcome σ ω ε) :
    (o.after earlier).stop = o.stop := rfl

/-- Continue with `next` unless the loop has been left. -/
def Outcome.andThen (o : Outcome σ ω ε) (next : σ → Outcome σ ω ε) :
    Outcome σ ω ε :=
  match o.stop with
  | some _ => o
  | none => (next o.state).after o.out

theorem Outcome.andThen_of_stop {o : Outcome σ ω ε} {e : ε} (h : o.stop = some e)
    (next : σ → Outcome σ ω ε) : o.andThen next = o := by
  simp [Outcome.andThen, h]

theorem Outcome.andThen_of_running {o : Outcome σ ω ε} (h : o.stop = none)
    (next : σ → Outcome σ ω ε) :
    o.andThen next = (next o.state).after o.out := by
  simp [Outcome.andThen, h]

theorem Outcome.andThen_assoc (o : Outcome σ ω ε) (next later : σ → Outcome σ ω ε) :
    (o.andThen next).andThen later =
      o.andThen fun s => (next s).andThen later := by
  cases hstop : o.stop with
  | some e =>
      rw [Outcome.andThen_of_stop hstop, Outcome.andThen_of_stop hstop,
        Outcome.andThen_of_stop hstop]
  | none =>
      rw [Outcome.andThen_of_running hstop, Outcome.andThen_of_running hstop]
      cases hnext : (next o.state).stop with
      | some e =>
          rw [Outcome.andThen_of_stop hnext]
          exact Outcome.andThen_of_stop (o := (next o.state).after o.out) hnext later
      | none =>
          rw [Outcome.andThen_of_running hnext]
          refine (Outcome.andThen_of_running (o := (next o.state).after o.out)
            hnext later).trans ?_
          simp [Outcome.after]

variable (step : σ → ι → Outcome σ ω ε)

/-- The loop: one pass of `step` for each input until a pass stops it. -/
def run : σ → List ι → Outcome σ ω ε
  | s, [] => ⟨s, [], none⟩
  | s, i :: rest => (step s i).andThen fun s' => run s' rest

@[simp] theorem run_nil (s : σ) : run step s [] = ⟨s, [], none⟩ := rfl

theorem run_cons_of_stop {s : σ} {i : ι} {e : ε} (h : (step s i).stop = some e)
    (rest : List ι) : run step s (i :: rest) = step s i :=
  Outcome.andThen_of_stop h _

theorem run_cons_of_running {s : σ} {i : ι} (h : (step s i).stop = none)
    (rest : List ι) :
    run step s (i :: rest) =
      (run step (step s i).state rest).after (step s i).out :=
  Outcome.andThen_of_running h _

/-- **A loop that is not left** was not left by its first pass, and goes on behind it. -/
theorem run_cons_running {s : σ} {i : ι} {rest : List ι}
    (running : (run step s (i :: rest)).stop = none) :
    (step s i).stop = none ∧ (run step (step s i).state rest).stop = none ∧
      (run step s (i :: rest)).state = (run step (step s i).state rest).state := by
  cases h : (step s i).stop with
  | some e =>
      rw [run_cons_of_stop step h, h] at running
      cases running
  | none =>
      rw [run_cons_of_running step h, Outcome.after_stop] at running
      rw [run_cons_of_running step h, Outcome.after_state]
      exact ⟨rfl, running, rfl⟩

/-- A loop over one input is one pass. -/
theorem run_singleton (s : σ) (i : ι) : run step s [i] = step s i := by
  cases h : (step s i).stop with
  | some e => exact run_cons_of_stop step h []
  | none =>
      rw [run_cons_of_running step h, run_nil, Outcome.after, List.append_nil, ← h]

/-- Running a concatenation is running its first part and then, unless that
stopped, its second one. -/
theorem run_append (s : σ) (xs ys : List ι) :
    run step s (xs ++ ys) = (run step s xs).andThen fun s' => run step s' ys := by
  induction xs generalizing s with
  | nil => simp [Outcome.andThen, Outcome.after]
  | cons x xs ih =>
      cases h : (step s x).stop with
      | some e =>
          rw [List.cons_append, run_cons_of_stop step h, run_cons_of_stop step h,
            Outcome.andThen_of_stop h]
      | none =>
          rw [List.cons_append, run_cons_of_running step h,
            run_cons_of_running step h, ih]
          cases hx : (run step (step s x).state xs).stop with
          | some e =>
              rw [Outcome.andThen_of_stop hx,
                Outcome.andThen_of_stop (e := e) (by simpa using hx)]
          | none =>
              rw [Outcome.andThen_of_running hx,
                Outcome.andThen_of_running (by simpa using hx)]
              simp [Outcome.after]

/-- The inputs the loop takes: all of them up to and including the one whose
pass stops it. -/
def taken : σ → List ι → List ι
  | _, [] => []
  | s, i :: rest =>
      match (step s i).stop with
      | some _ => [i]
      | none => i :: taken (step s i).state rest

@[simp] theorem taken_nil (s : σ) : taken step s [] = [] := rfl

theorem taken_cons_of_stop {s : σ} {i : ι} {e : ε} (h : (step s i).stop = some e)
    (rest : List ι) : taken step s (i :: rest) = [i] := by
  simp [taken, h]

theorem taken_cons_of_running {s : σ} {i : ι} (h : (step s i).stop = none)
    (rest : List ι) :
    taken step s (i :: rest) = i :: taken step (step s i).state rest := by
  simp [taken, h]

theorem taken_isPrefix (s : σ) (is : List ι) : taken step s is <+: is := by
  induction is generalizing s with
  | nil => exact List.prefix_refl _
  | cons i rest ih =>
      cases h : (step s i).stop with
      | some e =>
          rw [taken_cons_of_stop step h]
          exact ⟨rest, rfl⟩
      | none =>
          rw [taken_cons_of_running step h]
          exact List.cons_prefix_cons.mpr ⟨rfl, ih _⟩

/-- If it is the input alone that makes a pass leave the loop, all inputs are
taken exactly when none before the last one does. -/
theorem taken_eq_self_iff {P : ι → Prop}
    (each : ∀ s i, (step s i).stop = none ↔ P i) (s : σ) (is : List ι) :
    taken step s is = is ↔ ∀ i ∈ is.dropLast, P i := by
  induction is generalizing s with
  | nil => simp
  | cons i rest ih =>
      cases h : (step s i).stop with
      | some e =>
          rw [taken_cons_of_stop step h]
          cases rest with
          | nil => simp
          | cons j rest =>
              have hP : ¬P i := fun hP => by
                rw [(each s i).mpr hP] at h
                cases h
              simp [hP]
      | none =>
          rw [taken_cons_of_running step h, List.cons_inj_right, ih]
          cases rest with
          | nil => simp
          | cons j rest => simp [(each s i).mp h]

/-- If it is the input alone that makes a pass leave the loop, the loop is left
exactly when some input does. -/
theorem run_running_iff {P : ι → Prop} (each : ∀ s i, (step s i).stop = none ↔ P i)
    (s : σ) (is : List ι) : (run step s is).stop = none ↔ ∀ i ∈ is, P i := by
  induction is generalizing s with
  | nil => simp
  | cons i rest ih =>
      rw [List.forall_mem_cons, ← each s i]
      cases h : (step s i).stop with
      | some e => simp [run_cons_of_stop step h, h]
      | none => simp [run_cons_of_running step h, ih]

/-- A loop whose body never leaves it uses all its inputs. -/
theorem run_stop_eq_none (never : ∀ s i, (step s i).stop = none) (s : σ)
    (is : List ι) : (run step s is).stop = none :=
  (run_running_iff step (fun s i => iff_true_intro (never s i)) s is).mpr
    fun _ _ => trivial

/-- What holds of every exit of the body holds of the exit of the loop. -/
theorem run_stop_of_each {Q : ε → Prop}
    (each : ∀ s i e, (step s i).stop = some e → Q e) {s : σ} {is : List ι} {e : ε}
    (h : (run step s is).stop = some e) : Q e := by
  induction is generalizing s with
  | nil => cases h
  | cons i rest ih =>
      cases hstep : (step s i).stop with
      | some e' =>
          rw [run_cons_of_stop step hstep] at h
          exact each s i e h
      | none =>
          rw [run_cons_of_running step hstep] at h
          exact ih h

/-! ## Conditions on the steps a run takes -/

/-- `P` holds at every step the run takes: at each input, in the state in which
the loop meets it. -/
def Along (P : σ → ι → Prop) : σ → List ι → Prop
  | _, [] => True
  | s, i :: rest =>
      P s i ∧ ((step s i).stop = none → Along P (step s i).state rest)

instance Along.decidable (P : σ → ι → Prop) [∀ s i, Decidable (P s i)] :
    ∀ (s : σ) (is : List ι), Decidable (Along step P s is)
  | _, [] => inferInstanceAs (Decidable True)
  | s, i :: rest =>
      have : Decidable (Along step P (step s i).state rest) :=
        Along.decidable P (step s i).state rest
      inferInstanceAs (Decidable
        (P s i ∧ ((step s i).stop = none → Along step P (step s i).state rest)))

@[simp] theorem along_nil (P : σ → ι → Prop) (s : σ) :
    Along step P s [] ↔ True := Iff.rfl

theorem along_cons (P : σ → ι → Prop) (s : σ) (i : ι) (rest : List ι) :
    Along step P s (i :: rest) ↔
      P s i ∧ ((step s i).stop = none → Along step P (step s i).state rest) :=
  Iff.rfl

/-- An invariant of the steps holds in the state a run ends in. -/
theorem run_state_of_invariant {I : σ → Prop}
    (preserved : ∀ s i, I s → I (step s i).state) {s : σ} (start : I s)
    (is : List ι) : I (run step s is).state := by
  induction is generalizing s with
  | nil => exact start
  | cons i rest ih =>
      cases h : (step s i).stop with
      | some e =>
          rw [run_cons_of_stop step h]
          exact preserved s i start
      | none =>
          rw [run_cons_of_running step h]
          exact ih (preserved s i start)

/-- What holds of every output of every pass, under an invariant of the passes,
holds of every output of the loop. -/
theorem run_out_of_each {I : σ → Prop} {Q : ω → Prop}
    (each : ∀ s i, I s → I (step s i).state ∧ ∀ o ∈ (step s i).out, Q o) {s : σ}
    (start : I s) (is : List ι) : ∀ o ∈ (run step s is).out, Q o := by
  induction is generalizing s with
  | nil => simp
  | cons i rest ih =>
      obtain ⟨hstate, hout⟩ := each s i start
      cases h : (step s i).stop with
      | some e =>
          rw [run_cons_of_stop step h]
          exact hout
      | none =>
          rw [run_cons_of_running step h, Outcome.after_out]
          intro o ho
          rcases List.mem_append.mp ho with ho | ho
          · exact hout o ho
          · exact ih hstate o ho

/-- **Along a run, spelled out**: the condition holds behind every part of the inputs that
the loop comes through, of the input that follows. -/
theorem along_iff_splits (P : σ → ι → Prop) (s : σ) (is : List ι) :
    Along step P s is ↔
      ∀ earlier i later, is = earlier ++ i :: later → (run step s earlier).stop = none →
        P (run step s earlier).state i := by
  induction is generalizing s with
  | nil =>
      refine iff_of_true trivial ?_
      rintro earlier i later hsplit
      exact absurd hsplit.symm (by simp)
  | cons head rest ih =>
      rw [along_cons]
      constructor
      · rintro ⟨hhead, hrest⟩ earlier i later hsplit running
        cases earlier with
        | nil =>
            obtain ⟨rfl, -⟩ := List.cons_eq_cons.mp hsplit
            exact hhead
        | cons first earlier =>
            obtain ⟨rfl, hlater⟩ := List.cons_eq_cons.mp hsplit
            obtain ⟨hstop, hrunning, hstate⟩ := run_cons_running step running
            rw [hstate]
            exact (ih _).mp (hrest hstop) earlier i later hlater hrunning
      · intro hall
        refine ⟨hall [] head rest rfl rfl, fun hstop => (ih _).mpr ?_⟩
        intro earlier i later hsplit running
        have hstep := hall (head :: earlier) i later (by rw [hsplit, List.cons_append])
        rw [run_cons_of_running step hstop] at hstep
        exact hstep running

/-- Under an invariant of the steps, conditions that agree where it holds hold
along the same runs. -/
theorem along_congr_of_invariant {I : σ → Prop} {P Q : σ → ι → Prop}
    (preserved : ∀ s i, I s → I (step s i).state)
    (agree : ∀ s i, I s → (P s i ↔ Q s i)) {s : σ} (start : I s)
    (is : List ι) : Along step P s is ↔ Along step Q s is := by
  induction is generalizing s with
  | nil => simp
  | cons i rest ih =>
      simp only [along_cons, agree s i start, ih (preserved s i start)]

/-- A run can only be left as `Q` says exactly when this is so of each step it
takes. -/
theorem run_stop_iff_along {Q : ε → Prop} (s : σ) (is : List ι) :
    (∀ e, (run step s is).stop = some e → Q e) ↔
      Along step (fun s i => ∀ e, (step s i).stop = some e → Q e) s is := by
  induction is generalizing s with
  | nil => simp
  | cons i rest ih =>
      rw [along_cons]
      cases h : (step s i).stop with
      | some e' => simp [run_cons_of_stop step h, h]
      | none => simp [run_cons_of_running step h, ih]

/-! ## What a run costs -/

/-- What the inputs may cost together that follow the inputs `earlier`; the cost of an
input may depend on those before it. -/
def costBehind (cost : List ι → ι → ℕ) : List ι → List ι → ℕ
  | _, [] => 0
  | earlier, i :: rest => cost earlier i + costBehind cost (earlier ++ [i]) rest

/-- **A run costs no more than its inputs may**, when each pass adds to the measure no
more than its input may cost, under an invariant that knows the inputs so far. -/
theorem run_measure_le (I : List ι → σ → Prop) (measure : σ → ℕ) (cost : List ι → ι → ℕ)
    (each : ∀ earlier s i, I earlier s → I (earlier ++ [i]) (step s i).state ∧
      measure (step s i).state ≤ measure s + cost earlier i)
    {earlier : List ι} {s : σ} (start : I earlier s) (is : List ι) :
    measure (run step s is).state ≤ measure s + costBehind cost earlier is := by
  induction is generalizing s earlier with
  | nil => exact Nat.le_refl _
  | cons i rest ih =>
      obtain ⟨hstate, hcost⟩ := each earlier s i start
      rw [costBehind, ← Nat.add_assoc]
      cases h : (step s i).stop with
      | some e =>
          -- inputs behind the exit can only cost as well
          rw [run_cons_of_stop step h]
          exact Nat.le_add_right_of_le hcost
      | none =>
          rw [run_cons_of_running step h, Outcome.after_state]
          exact Nat.le_trans (ih hstate) (Nat.add_le_add_right hcost _)

/-! ## What the steps of a run bring -/

/-- What the steps a run takes bring, each in the state in which it is taken. -/
def gather {α : Type v} (bring : σ → ι → List α) : σ → List ι → List α
  | _, [] => []
  | s, i :: rest =>
      match (step s i).stop with
      | some _ => bring s i
      | none => bring s i ++ gather bring (step s i).state rest

@[simp] theorem gather_nil {α : Type v} (bring : σ → ι → List α) (s : σ) :
    gather step bring s [] = [] := rfl

theorem gather_cons_of_stop {α : Type v} (bring : σ → ι → List α) {s : σ} {i : ι}
    {e : ε} (h : (step s i).stop = some e) (rest : List ι) :
    gather step bring s (i :: rest) = bring s i := by
  simp [gather, h]

theorem gather_cons_of_running {α : Type v} (bring : σ → ι → List α) {s : σ} {i : ι}
    (h : (step s i).stop = none) (rest : List ι) :
    gather step bring s (i :: rest) =
      bring s i ++ gather step bring (step s i).state rest := by
  simp [gather, h]

/-- What holds of all that each step brings holds of all that a run brings. -/
theorem gather_of_each {α : Type v} {bring : σ → ι → List α} {Q : α → Prop}
    (each : ∀ s i, ∀ a ∈ bring s i, Q a) (s : σ) (is : List ι) :
    ∀ a ∈ gather step bring s is, Q a := by
  induction is generalizing s with
  | nil => simp
  | cons i rest ih =>
      cases h : (step s i).stop with
      | some e =>
          rw [gather_cons_of_stop step bring h]
          exact each s i
      | none =>
          rw [gather_cons_of_running step bring h]
          intro a ha
          rcases List.mem_append.mp ha with ha | ha
          · exact each s i a ha
          · exact ih _ a ha

/-! ## Comparing two loops -/

variable {σ' : Type u} {ω' : Type v} {α : Type v}

/-- Two outcomes agree: their states are related, what is observed of their
outputs is the same, and both leave the loop the same way. -/
structure Outcome.Agrees (R : σ → σ' → Prop) (observe : ω → Option α)
    (observe' : ω' → Option α) (o : Outcome σ ω ε) (o' : Outcome σ' ω' ε) :
    Prop where
  state : R o.state o'.state
  out : o.out.filterMap observe = o'.out.filterMap observe'
  stop : o.stop = o'.stop

theorem Outcome.Agrees.after {R : σ → σ' → Prop} {observe : ω → Option α}
    {observe' : ω' → Option α} {o : Outcome σ ω ε} {o' : Outcome σ' ω' ε}
    (h : o.Agrees R observe observe' o') {earlier : List ω} {earlier' : List ω'}
    (same : earlier.filterMap observe = earlier'.filterMap observe') :
    (o.after earlier).Agrees R observe observe' (o'.after earlier') where
  state := h.state
  out := by simp [same, h.out]
  stop := h.stop

/-- What is not observed can be put in front of one side. -/
theorem Outcome.Agrees.after_unobserved {R : σ → σ' → Prop} {observe : ω → Option α}
    {observe' : ω' → Option α} {o : Outcome σ ω ε} {o' : Outcome σ' ω' ε}
    (h : o.Agrees R observe observe' o') {earlier : List ω}
    (hidden : earlier.filterMap observe = []) :
    (o.after earlier).Agrees R observe observe' o' where
  state := h.state
  out := by simp [hidden, h.out]
  stop := h.stop

/-- What runs after loops that agree, and agrees, can be put behind them. -/
theorem Outcome.Agrees.andThen {R : σ → σ' → Prop} {observe : ω → Option α}
    {observe' : ω' → Option α} {o : Outcome σ ω ε} {o' : Outcome σ' ω' ε}
    (h : o.Agrees R observe observe' o') {next : σ → Outcome σ ω ε}
    {next' : σ' → Outcome σ' ω' ε}
    (continues : o.stop = none →
      (next o.state).Agrees R observe observe' (next' o'.state)) :
    (o.andThen next).Agrees R observe observe' (o'.andThen next') := by
  cases hstop : o.stop with
  | some e =>
      rw [Outcome.andThen_of_stop hstop,
        Outcome.andThen_of_stop (h.stop.symm.trans hstop)]
      exact h
  | none =>
      rw [Outcome.andThen_of_running hstop,
        Outcome.andThen_of_running (h.stop.symm.trans hstop)]
      exact (continues hstop).after h.out

/-- **Two loops agree as wholes** if related states make their passes agree. -/
theorem run_agrees {step : σ → ι → Outcome σ ω ε}
    {step' : σ' → ι → Outcome σ' ω' ε} {R : σ → σ' → Prop}
    {observe : ω → Option α} {observe' : ω' → Option α}
    (each : ∀ s s' i, R s s' →
      (step s i).Agrees R observe observe' (step' s' i))
    {s : σ} {s' : σ'} (start : R s s') (is : List ι) :
    (run step s is).Agrees R observe observe' (run step' s' is) := by
  induction is generalizing s s' with
  | nil => exact ⟨start, rfl, rfl⟩
  | cons i rest ih =>
      have hstep := each s s' i start
      exact hstep.andThen fun _ => ih hstep.state

/-- Loops that agree as wholes bring the same, if their passes do. -/
theorem gather_agrees {step : σ → ι → Outcome σ ω ε}
    {step' : σ' → ι → Outcome σ' ω' ε} {R : σ → σ' → Prop}
    {observe : ω → Option α} {observe' : ω' → Option α}
    (each : ∀ s s' i, R s s' →
      (step s i).Agrees R observe observe' (step' s' i))
    {β : Type v} {bring : σ → ι → List β} {bring' : σ' → ι → List β}
    (same : ∀ s s' i, R s s' → bring s i = bring' s' i)
    {s : σ} {s' : σ'} (start : R s s') (is : List ι) :
    gather step bring s is = gather step' bring' s' is := by
  induction is generalizing s s' with
  | nil => rfl
  | cons i rest ih =>
      have hstep := each s s' i start
      cases h : (step s i).stop with
      | some e =>
          rw [gather_cons_of_stop step bring h,
            gather_cons_of_stop step' bring' (hstep.stop.symm.trans h),
            same s s' i start]
      | none =>
          rw [gather_cons_of_running step bring h,
            gather_cons_of_running step' bring' (hstep.stop.symm.trans h),
            same s s' i start, ih hstep.state]

/-! ## Other outputs -/

/-- The same outcome with its outputs told otherwise. -/
def Outcome.relabel (f : ω → ω') (o : Outcome σ ω ε) : Outcome σ ω' ε :=
  { o with out := o.out.map f }

@[simp] theorem Outcome.relabel_state (f : ω → ω') (o : Outcome σ ω ε) :
    (o.relabel f).state = o.state := rfl

@[simp] theorem Outcome.relabel_out (f : ω → ω') (o : Outcome σ ω ε) :
    (o.relabel f).out = o.out.map f := rfl

@[simp] theorem Outcome.relabel_stop (f : ω → ω') (o : Outcome σ ω ε) :
    (o.relabel f).stop = o.stop := rfl

theorem Outcome.relabel_after (f : ω → ω') (earlier : List ω) (o : Outcome σ ω ε) :
    (o.after earlier).relabel f = (o.relabel f).after (earlier.map f) := by
  simp [Outcome.relabel, Outcome.after]

/-- **A loop whose passes differ in what they output** differs in that as a whole. -/
theorem run_relabel {step : σ → ι → Outcome σ ω ε} {step' : σ → ι → Outcome σ ω' ε}
    {f : ω → ω'} (each : ∀ s i, step' s i = (step s i).relabel f) (s : σ) (is : List ι) :
    run step' s is = (run step s is).relabel f := by
  induction is generalizing s with
  | nil => rfl
  | cons i rest ih =>
      have hstop : (step' s i).stop = (step s i).stop := by rw [each, Outcome.relabel_stop]
      cases h : (step s i).stop with
      | some e => rw [run_cons_of_stop step h, run_cons_of_stop step' (hstop.trans h), each]
      | none =>
          rw [run_cons_of_running step h, run_cons_of_running step' (hstop.trans h), each, ih,
            Outcome.relabel_after, Outcome.relabel_state, Outcome.relabel_out]

theorem Outcome.after_after (earlier later : List ω) (o : Outcome σ ω ε) :
    (o.after later).after earlier = o.after (earlier ++ later) := by
  simp [Outcome.after]

end EarlyExit
