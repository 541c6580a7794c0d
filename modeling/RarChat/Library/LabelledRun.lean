import Mathlib.Data.List.Basic
import Mathlib.Tactic.Common

/-!
# Labelled runs

Small steps of a system that takes in acts and emits outputs.  One step may take in
any number of acts, none included, and emit any number of outputs; a run strings
steps together and concatenates both.

A run keeps a book: `Run.invariant` is the rule for what holds between the acts and
outputs so far and the state reached.  A step only has to continue the book that the
steps before it left.
-/

namespace LabelledRun

universe u v w

variable {σ : Type u} {α : Type v} {ω : Type w}

/-- **A run** from `s`: the acts it takes in, the outputs it emits, the state it
reaches. -/
inductive Run (step : σ → List α → List ω → σ → Prop) (s : σ) :
    List α → List ω → σ → Prop
  | refl : Run step s [] [] s
  | tail {acts acts' : List α} {outs outs' : List ω} {s' s'' : σ}
      (earlier : Run step s acts outs s') (last : step s' acts' outs' s'') :
      Run step s (acts ++ acts') (outs ++ outs') s''

variable {step : σ → List α → List ω → σ → Prop} {s s' s'' : σ}
variable {acts acts' : List α} {outs outs' : List ω}

theorem Run.single (h : step s acts outs s') : Run step s acts outs s' := by
  have hrun := Run.refl.tail h
  rwa [List.nil_append, List.nil_append] at hrun

theorem Run.trans (h : Run step s acts outs s') (h' : Run step s' acts' outs' s'') :
    Run step s (acts ++ acts') (outs ++ outs') s'' := by
  induction h' with
  | refl => rwa [List.append_nil, List.append_nil]
  | tail _ last ih =>
      rw [← List.append_assoc, ← List.append_assoc]
      exact ih.tail last

/-- **What each step continues**, a run keeps: `I` relates the acts and outputs so
far to the state reached. -/
theorem Run.invariant {I : List α → List ω → σ → Prop} (start : I [] [] s)
    (continues : ∀ acts outs s acts' outs' s', I acts outs s →
      step s acts' outs' s' → I (acts ++ acts') (outs ++ outs') s')
    (h : Run step s acts outs s') : I acts outs s' := by
  induction h with
  | refl => exact start
  | tail _ last ih => exact continues _ _ _ _ _ _ ih last

end LabelledRun
