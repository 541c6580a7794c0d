import Mathlib.Algebra.BigOperators.Group.Finset.Piecewise
import Mathlib.Algebra.BigOperators.Group.List.Basic
import Mathlib.Algebra.GroupWithZero.Nat
import Mathlib.Algebra.Order.BigOperators.Group.List
import Mathlib.Algebra.Order.Group.Nat
import Mathlib.Logic.Relation
import Mathlib.Tactic.Common

/-!
# Interleavings

Any number of parties that share one state.  Each party has a local state; a
`move` is one atomic step of one party, which may change the shared state and its
own local state.  A configuration steps when some party moves, and nothing is said
about which one: `Reaches` covers every interleaving.

The rule is about balances (`Reaches.balance`): where a quantity of the shared
state and a weight of the local states always change by opposite amounts, their sum
over all parties is the same in every configuration that can be reached.  A move
has to conserve the sum only as far as its own party's weight fits into the total,
which is what excludes overflow in machine arithmetic.

Where the shared state instead counts the parties, in whatever weight, an invariant of
it may use that the party that moves is counted (`Reaches.counted`).

Where it matters what a party has done before, moves are labelled with events and a run
notes down who did what (`Runs`).  What one party has done is a book of its own
(`doneBy`): what each of its moves continues holds of it, whatever the others do in
between (`Runs.own`).  What is kept about all events together is `Runs.book`, and
`Runs.balance` for counts of them.
-/

namespace Interleaving

universe u v

/-- The shared state, and the local state of each party. -/
structure Config (γ : Type u) (π : Type v) where
  shared : γ
  parties : List π

variable {γ : Type u} {π : Type v}

/-- Some party moves. -/
inductive Step (move : γ → π → γ → π → Prop) : Config γ π → Config γ π → Prop
  | move {g g' : γ} {p p' : π} (before after : List π) (moved : move g p g' p') :
      Step move ⟨g, before ++ p :: after⟩ ⟨g', before ++ p' :: after⟩

/-- Some interleaving leads from the first configuration to the second. -/
abbrev Reaches (move : γ → π → γ → π → Prop) : Config γ π → Config γ π → Prop :=
  Relation.ReflTransGen (Step move)

/-- The weight of all parties together. -/
def Config.load (weight : π → ℕ) (c : Config γ π) : ℕ := (c.parties.map weight).sum

theorem load_mk_append (weight : π → ℕ) (g : γ) (before after : List π) (p : π) :
    Config.load weight ⟨g, before ++ p :: after⟩ =
      weight p + (before.map weight).sum + (after.map weight).sum := by
  simp [Config.load, Nat.add_left_comm, Nat.add_assoc]

theorem load_eq_zero {weight : π → ℕ} {c : Config γ π}
    (idle : ∀ p ∈ c.parties, weight p = 0) : c.load weight = 0 := by
  rw [Config.load, List.sum_eq_zero]
  intro n hn
  obtain ⟨p, hp, rfl⟩ := List.mem_map.mp hn
  exact idle p hp

/-- Parties of weight one at most, one of which weighs nothing, are more than their
load. -/
theorem load_lt_length {weight : π → ℕ} {c : Config γ π} (light : ∀ p, weight p ≤ 1)
    {p : π} (mem : p ∈ c.parties) (idle : weight p = 0) :
    c.load weight < c.parties.length := by
  have hle : ∀ ps : List π, (ps.map weight).sum ≤ ps.length := by
    intro ps
    induction ps with
    | nil => exact Nat.le_refl _
    | cons q ps ih =>
        have hq := light q
        simp only [List.map_cons, List.sum_cons, List.length_cons]
        omega
  obtain ⟨before, after, hparties⟩ := List.append_of_mem mem
  have hbefore := hle before
  have hafter := hle after
  simp only [Config.load, hparties, List.map_append, List.map_cons, List.sum_append,
    List.sum_cons, List.length_append, List.length_cons, idle]
  omega

/-- Parties of weight one at most are as many as their load, or more. -/
theorem load_le_length {weight : π → ℕ} (light : ∀ p, weight p ≤ 1) (c : Config γ π) :
    c.load weight ≤ c.parties.length := by
  refine (List.sum_le_card_nsmul _ 1 fun n hn => ?_).trans (by simp)
  obtain ⟨p, -, rfl⟩ := List.mem_map.mp hn
  exact light p

theorem weight_le_load (weight : π → ℕ) {c : Config γ π} {p : π} (mem : p ∈ c.parties) :
    weight p ≤ c.load weight :=
  List.single_le_sum (fun _ _ => Nat.zero_le _) _ (List.mem_map_of_mem mem)

variable {move : γ → π → γ → π → Prop} (value : γ → ℕ) (weight : π → ℕ) {total : ℕ}

/-- In a balanced configuration, the party that moves fits into the total. -/
theorem Step.fits {c c' : Config γ π} (h : Step move c c')
    (balanced : value c.shared + c.load weight = total) :
    ∃ p p', move c.shared p c'.shared p' ∧ value c.shared + weight p ≤ total ∧
      c.load weight + weight p' = c'.load weight + weight p := by
  cases h with
  | move before after moved =>
      refine ⟨_, _, moved, ?_, ?_⟩
      · rw [load_mk_append] at balanced
        exact Nat.le_trans (by omega) (Nat.le_of_eq balanced)
      · rw [load_mk_append, load_mk_append]
        omega

/-- **Balances are conserved** by every interleaving of moves that conserve them. -/
theorem Reaches.balance
    (conserves : ∀ g p g' p', move g p g' p' → value g + weight p ≤ total →
      value g' + weight p' = value g + weight p) {c c' : Config γ π}
    (h : Reaches move c c') (balanced : value c.shared + c.load weight = total) :
    value c'.shared + c'.load weight = total := by
  induction h with
  | refl => exact balanced
  | tail _ hstep ih =>
      obtain ⟨p, p', hmove, hfits, hload⟩ := hstep.fits value weight ih
      have hconserved := conserves _ _ _ _ hmove hfits
      omega

/-- The party that moves is part of the load. -/
theorem Step.load {c c' : Config γ π} (h : Step move c c') :
    ∃ p p', move c.shared p c'.shared p' ∧ weight p ≤ c.load weight ∧
      c.load weight + weight p' = c'.load weight + weight p := by
  obtain ⟨p, p', hmove, hfits, hload⟩ := h.fits (fun _ => 0) weight (Nat.zero_add _)
  exact ⟨p, p', hmove, by rwa [Nat.zero_add] at hfits, hload⟩

/-- **Counts are kept**, and an invariant of the shared state with them, by every
interleaving of moves that keep both as far as the party that moves is counted. -/
theorem Reaches.counted {I : γ → Prop}
    (keeps : ∀ g p g' p', move g p g' p' → I g → weight p ≤ value g →
      I g' ∧ value g' + weight p = value g + weight p') {c c' : Config γ π}
    (h : Reaches move c c') (start : I c.shared)
    (counted : value c.shared = c.load weight) :
    I c'.shared ∧ value c'.shared = c'.load weight := by
  induction h with
  | refl => exact ⟨start, counted⟩
  | tail _ hstep ih =>
      obtain ⟨hI, hcount⟩ := ih
      obtain ⟨p, p', hmove, hfits, hload⟩ := hstep.load weight
      obtain ⟨hI', hkeeps⟩ := keeps _ _ _ _ hmove hI (hcount ▸ hfits)
      exact ⟨hI', by omega⟩

/-! ## Who did what -/

variable {ε : Type u} {act : γ → π → List ε → γ → π → Prop}

/-- The party at place `i` moves, and its move has these events. -/
inductive Noted (act : γ → π → List ε → γ → π → Prop) :
    Config γ π → ℕ → List ε → Config γ π → Prop
  | move {g g' : γ} {p p' : π} {events : List ε} (before after : List π)
      (moved : act g p events g' p') :
      Noted act ⟨g, before ++ p :: after⟩ before.length events
        ⟨g', before ++ p' :: after⟩

/-- **A run**, with its events in order and the place of the party behind each. -/
inductive Runs (act : γ → π → List ε → γ → π → Prop) (c : Config γ π) :
    List (ℕ × ε) → Config γ π → Prop
  | refl : Runs act c [] c
  | tail {trace : List (ℕ × ε)} {i : ℕ} {events : List ε} {c' c'' : Config γ π}
      (earlier : Runs act c trace c') (last : Noted act c' i events c'') :
      Runs act c (trace ++ events.map (i, ·)) c''

/-- What the party at place `i` has done. -/
def doneBy (i : ℕ) (trace : List (ℕ × ε)) : List ε :=
  trace.filterMap fun noted => if noted.1 = i then some noted.2 else none

theorem doneBy_append (i : ℕ) (trace : List (ℕ × ε)) (j : ℕ) (events : List ε) :
    doneBy i (trace ++ events.map (j, ·)) =
      doneBy i trace ++ if j = i then events else [] := by
  rw [doneBy, List.filterMap_append, List.filterMap_map]
  congr 1
  split_ifs with h
  · simp [h]
  · simp [h]

/-- The party at the place that moves is the one that moves. -/
theorem Noted.party {c c' : Config γ π} {i : ℕ} {events : List ε}
    (h : Noted act c i events c') :
    ∃ p p', c.parties[i]? = some p ∧ act c.shared p events c'.shared p' ∧
      c'.parties[i]? = some p' ∧ ∀ j, j ≠ i → c'.parties[j]? = c.parties[j]? := by
  cases h with
  | @move g g' p p' events before after moved =>
      refine ⟨p, p', by simp, moved, by simp, fun j hj => ?_⟩
      rcases Nat.lt_or_gt_of_ne hj with hlt | hgt
      · rw [List.getElem?_append_left hlt, List.getElem?_append_left hlt]
      · obtain ⟨k, hk⟩ : ∃ k, j - before.length = k + 1 := ⟨j - before.length - 1, by omega⟩
        rw [List.getElem?_append_right (Nat.le_of_lt hgt),
          List.getElem?_append_right (Nat.le_of_lt hgt), hk, List.getElem?_cons_succ,
          List.getElem?_cons_succ]

/-- **What a party has done** is continued by its own moves alone. -/
theorem Runs.own {I : List ε → π → Prop} {c c' : Config γ π} {trace : List (ℕ × ε)}
    (start : ∀ p ∈ c.parties, I [] p)
    (continues : ∀ done g p events g' p', I done p → act g p events g' p' →
      I (done ++ events) p') (h : Runs act c trace c') {i : ℕ} {p : π}
    (at_i : c'.parties[i]? = some p) : I (doneBy i trace) p := by
  induction h generalizing i p with
  | refl => exact start p (List.mem_of_getElem? at_i)
  | @tail trace j events c' c'' earlier last ih =>
      obtain ⟨q, q', hq, hmoved, hq', hothers⟩ := last.party
      rw [doneBy_append]
      by_cases hij : j = i
      · subst hij
        obtain rfl := Option.some.inj (hq'.symm.trans at_i)
        rw [if_pos rfl]
        exact continues _ _ _ _ _ _ (ih hq) hmoved
      · rw [if_neg hij, List.append_nil]
        rw [hothers i (Ne.symm hij)] at at_i
        exact ih at_i

/-- A run without its events. -/
theorem Runs.reaches {c c' : Config γ π} {trace : List (ℕ × ε)}
    (forget : ∀ g p events g' p', act g p events g' p' → move g p g' p')
    (h : Runs act c trace c') : Reaches move c c' := by
  induction h with
  | refl => exact .refl
  | tail earlier last ih =>
      cases last with
      | move before after moved => exact ih.tail (.move before after (forget _ _ _ _ _ moved))

/-- Moves that can all be noted make up a run. -/
theorem Reaches.runs (notes : ∀ g p g' p', move g p g' p' → ∃ events, act g p events g' p')
    {c c' : Config γ π} (h : Reaches move c c') : ∃ trace, Runs act c trace c' := by
  induction h with
  | refl => exact ⟨[], .refl⟩
  | tail _ last ih =>
      obtain ⟨trace, hrun⟩ := ih
      cases last with
      | move before after moved =>
          obtain ⟨events, hact⟩ := notes _ _ _ _ moved
          exact ⟨_, hrun.tail (.move before after hact)⟩

/-- The events of a run are those of its moves. -/
theorem map_snd_append (trace : List (ℕ × ε)) (i : ℕ) (events : List ε) :
    (trace ++ events.map (i, ·)).map Prod.snd = trace.map Prod.snd ++ events := by
  rw [List.map_append, List.map_map]
  exact congrArg (_ ++ ·) (List.map_id _)

/-- **A book of the whole run**, next to the shared state, is continued by each move. -/
theorem Runs.book {I : List ε → γ → Prop} {c c' : Config γ π} {trace : List (ℕ × ε)}
    (start : I [] c.shared)
    (continues : ∀ done g p events g' p', I done g → act g p events g' p' →
      I (done ++ events) g') (h : Runs act c trace c') :
    I (trace.map Prod.snd) c'.shared := by
  induction h with
  | refl => exact start
  | @tail trace i events c' c'' earlier last ih =>
      rw [map_snd_append]
      cases last with
      | move before after moved => exact continues _ _ _ _ _ _ ih moved

/-- **Two counts of a run balance**, up to the weight of the parties, where each move keeps
them balanced. -/
theorem Runs.balance (left right : List ε → γ → ℕ) {c c' : Config γ π} {trace : List (ℕ × ε)}
    (start : left [] c.shared + c.load weight = right [] c.shared)
    (keeps : ∀ done g p events g' p', act g p events g' p' →
      left (done ++ events) g' + weight p' + right done g =
        left done g + weight p + right (done ++ events) g')
    (h : Runs act c trace c') :
    left (trace.map Prod.snd) c'.shared + c'.load weight =
      right (trace.map Prod.snd) c'.shared := by
  induction h with
  | refl => exact start
  | @tail trace i events c' c'' earlier last ih =>
      rw [map_snd_append]
      cases last with
      | move before after moved =>
          have hkept := keeps (trace.map Prod.snd) _ _ _ _ _ moved
          rw [load_mk_append] at ih ⊢
          dsimp only at ih hkept ⊢
          omega

/-- No move adds or removes a party. -/
theorem Runs.length_parties {c c' : Config γ π} {trace : List (ℕ × ε)}
    (h : Runs act c trace c') : c'.parties.length = c.parties.length := by
  induction h with
  | refl => rfl
  | tail earlier last ih =>
      cases last with
      | move before after moved =>
          rw [← ih]
          simp

/-- What no move changes of a party stays as it was. -/
theorem Runs.unchanged {δ : Type v} (f : π → δ)
    (same : ∀ g p events g' p', act g p events g' p' → f p' = f p) {c c' : Config γ π}
    {trace : List (ℕ × ε)} (h : Runs act c trace c') :
    c'.parties.map f = c.parties.map f := by
  induction h with
  | refl => rfl
  | tail earlier last ih =>
      cases last with
      | move before after moved =>
          rw [← ih]
          simp [same _ _ _ _ _ moved]

/-- What holds of every configuration that a run leads to holds when a party moves. -/
theorem Runs.under {J : γ → π → Prop} {c c' : Config γ π} {trace : List (ℕ × ε)}
    (holds : ∀ {trace' c''}, Runs act c trace' c'' → ∀ p ∈ c''.parties, J c''.shared p)
    (h : Runs act c trace c') :
    Runs (fun g p events g' p' => J g p ∧ act g p events g' p') c trace c' := by
  induction h with
  | refl => exact .refl
  | tail earlier last ih =>
      cases last with
      | move before after moved =>
          have hJ := holds earlier _ (List.mem_append_right _ List.mem_cons_self)
          exact .tail ih (.move before after ⟨hJ, moved⟩)

/-! ## Schedules -/

section Schedules

variable {ι : Type v}

/-- Plays a schedule behind a trace: each cue tells the party at a place which of its moves
to make, and `next` computes the move. -/
def play (next : γ → π → ι → Option (List ε × γ × π)) (c : Config γ π)
    (trace : List (ℕ × ε)) : List (ℕ × ι) → Option (List (ℕ × ε) × Config γ π)
  | [] => some (trace, c)
  | (i, cue) :: rest =>
      match c.parties[i]? with
      | none => none
      | some p =>
          match next c.shared p cue with
          | none => none
          | some (events, g, p') =>
              play next ⟨g, c.parties.set i p'⟩ (trace ++ events.map (i, ·)) rest

/-- **What is played is a run**, if `next` computes moves. -/
theorem play_runs {next : γ → π → ι → Option (List ε × γ × π)}
    (moves : ∀ g p cue events g' p', next g p cue = some (events, g', p') →
      act g p events g' p') {start c c' : Config γ π} {trace trace' : List (ℕ × ε)}
    (earlier : Runs act start trace c) {schedule : List (ℕ × ι)}
    (played : play next c trace schedule = some (trace', c')) :
    Runs act start trace' c' := by
  induction schedule generalizing c trace with
  | nil =>
      obtain ⟨rfl, rfl⟩ := Prod.mk.inj (Option.some.inj played)
      exact earlier
  | cons head rest ih =>
      obtain ⟨i, cue⟩ := head
      rw [play] at played
      cases hp : c.parties[i]? with
      | none => simp [hp] at played
      | some p =>
          cases hnext : next c.shared p cue with
          | none => simp [hp, hnext] at played
          | some moved =>
              obtain ⟨events, g, p'⟩ := moved
              simp only [hp, hnext] at played
              refine ih (earlier.tail ?_) played
              obtain ⟨hlt, hget⟩ := List.getElem?_eq_some_iff.mp hp
              have hsplit : c = ⟨c.shared, c.parties.take i ++ p :: c.parties.drop (i + 1)⟩ := by
                rw [← hget, List.getElem_cons_drop, List.take_append_drop]
              have hplace : (c.parties.take i).length = i :=
                List.length_take_of_le (Nat.le_of_lt hlt)
              rw [List.set_eq_take_append_cons_drop, if_pos hlt]
              have hnoted := Noted.move (c.parties.take i) (c.parties.drop (i + 1))
                (moves _ _ _ _ _ _ hnext)
              rw [hplace, ← hsplit] at hnoted
              exact hnoted

end Schedules

/-! ## Taking a run apart -/

theorem mem_doneBy {i : ℕ} {trace : List (ℕ × ε)} {e : ε} :
    e ∈ doneBy i trace ↔ (i, e) ∈ trace := by
  simp only [doneBy, List.mem_filterMap, Option.ite_none_right_eq_some, Option.some.injEq]
  constructor
  · rintro ⟨⟨j, e'⟩, hmem, rfl, rfl⟩
    exact hmem
  · exact fun hmem => ⟨(i, e), hmem, rfl, rfl⟩

/-- Whoever has done something is there. -/
theorem Runs.place {c c' : Config γ π} {trace : List (ℕ × ε)} (h : Runs act c trace c')
    {i : ℕ} {e : ε} (noted : (i, e) ∈ trace) : ∃ p, c'.parties[i]? = some p := by
  induction h with
  | refl => cases noted
  | @tail trace j events c' c'' earlier last ih =>
      obtain ⟨q, q', -, -, hq', hothers⟩ := last.party
      by_cases hij : i = j
      · exact ⟨q', hij ▸ hq'⟩
      · rw [hothers i hij]
        refine ih ((List.mem_append.mp noted).resolve_right fun hmem => ?_)
        obtain ⟨_, _, heq⟩ := List.mem_map.mp hmem
        exact hij (congrArg Prod.fst heq).symm

/-- **A party is told apart** by what holds of its own events and of no other's: they are
what is left of the run, in order. -/
theorem filter_eq_doneBy {trace : List (ℕ × ε)} {q : ε → Bool} {i : ℕ}
    (own : ∀ e ∈ doneBy i trace, q e = true)
    (others : ∀ j, j ≠ i → ∀ e ∈ doneBy j trace, q e = false) :
    (trace.map Prod.snd).filter q = doneBy i trace := by
  have hown : ∀ noted ∈ trace, q noted.2 = true ↔ noted.1 = i := by
    rintro ⟨j, e⟩ hmem
    constructor
    · intro hq
      by_contra hj
      rw [others j hj e (mem_doneBy.mpr hmem)] at hq
      cases hq
    · rintro rfl
      exact own e (mem_doneBy.mpr hmem)
  clear own others
  induction trace with
  | nil => rfl
  | cons noted trace ih =>
      obtain ⟨hnoted, hrest⟩ := List.forall_mem_cons.mp hown
      have ih := ih hrest
      by_cases hi : noted.1 = i
      · rw [List.map_cons, List.filter_cons_of_pos (hnoted.mpr hi), ih]
        simp [doneBy, hi]
      · rw [List.map_cons, List.filter_cons_of_neg (fun h => hi (hnoted.mp h)), ih]
        simp [doneBy, hi]

/-- **What adds up over a run adds up over its parties.** -/
theorem sum_doneBy {φ : List ε → ℕ} (append : ∀ xs ys, φ (xs ++ ys) = φ xs + φ ys) {N : ℕ}
    {trace : List (ℕ × ε)} (places : ∀ noted ∈ trace, noted.1 < N) :
    ∑ i ∈ Finset.range N, φ (doneBy i trace) = φ (trace.map Prod.snd) := by
  have hnil : φ [] = 0 := Nat.add_eq_left.mp (append [] []).symm
  induction trace with
  | nil =>
      rw [List.map_nil, hnil]
      exact Finset.sum_eq_zero fun _ _ => hnil
  | cons noted trace ih =>
      obtain ⟨hplace, hrest⟩ := List.forall_mem_cons.mp places
      have hsplit : ∀ i, φ (doneBy i (noted :: trace)) =
          (if i = noted.1 then φ [noted.2] else 0) + φ (doneBy i trace) := by
        intro i
        by_cases hi : noted.1 = i
        · rw [if_pos hi.symm, ← append]
          simp [doneBy, hi]
        · rw [if_neg (Ne.symm hi), Nat.zero_add]
          simp [doneBy, hi]
      rw [Finset.sum_congr rfl fun i _ => hsplit i, Finset.sum_add_distrib, ih hrest,
        Finset.sum_ite_eq_of_mem' _ _ _ (Finset.mem_range.mpr hplace), ← append]
      rfl

end Interleaving
