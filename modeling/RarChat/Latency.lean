import Mathlib.Data.List.DropRight
import Mathlib.Data.List.MinMax
import Mathlib.Data.List.Perm.Subperm
import RarChat.Bus

/-!
# What the bus reports of its own latency

Each `emit` measures how long its `try_send` took and folds that into a maximum, and every
256th takes the maximum, resets it, and queues it for the sinks.  These are three atomic
operations, with anything in between: another producer may fold in a latency before the
maximum is taken, or take it first.

So moves are noted (`TimedMove`), and what was taken is compared with what was measured.
No latency gets lost between two producers: what is taken is the maximum of all that was
measured since it was taken last, and the sinks are told no more than was taken, once for
every 256 emits (`latencies_reported`).
-/

namespace RarChat

open Interleaving

/-! ## Moves, and what they do about latencies -/

/-- A latency is measured, the maximum is taken, and what was taken is queued, if there is
room. -/
inductive Timing
  | measured (us : ℕ)
  | taken (us : ℕ)
  | sampled (us : ℕ) (queued : Bool)
deriving DecidableEq, Repr

/-- What is taken, in order. -/
def Timing.taken? : Timing → Option ℕ
  | .taken us => some us
  | _ => none

def Timing.measured? : Timing → Option ℕ
  | .measured us => some us
  | _ => none

def Timing.queued? : Timing → Option ℕ
  | .sampled us true => some us
  | _ => none

/-- What is taken to be queued, be there room or not. -/
def Timing.sampled? : Timing → Option ℕ
  | .sampled us _ => some us
  | _ => none

def takenOf (events : List Timing) : List ℕ := events.filterMap Timing.taken?

/-- A party whose next move has nothing to do with latencies. -/
def Party.Untimed (p : Party) : Prop := p ≠ .sent ∧ p ≠ .peaking ∧ ∀ us, p ≠ .sampling us

/-- **A move, and what it does about latencies.** -/
inductive TimedMove : EmissionBus → Party → List Timing → EmissionBus → Party → Prop
  | time (b : EmissionBus) (us : ℕ) :
      TimedMove b .sent [.measured us] { b with emitMaxUs := max b.emitMaxUs us } .timed
  | peak (b : EmissionBus) :
      TimedMove b .peaking [.taken b.emitMaxUs] { b with emitMaxUs := 0 }
        (.sampling b.emitMaxUs)
  | sample (b : EmissionBus) (us : ℕ) :
      TimedMove b (.sampling us) [.sampled us (b.trySend (.sample us)).isSome] (b.emitSample us)
        .idle
  | untimed {b b' : EmissionBus} {p p' : Party} (move : BusMove b p b' p')
      (untimed : p.Untimed) : TimedMove b p [] b' p'

/-- Every move is noted. -/
theorem BusMove.timed (b : EmissionBus) (p : Party) (b' : EmissionBus) (p' : Party)
    (move : BusMove b p b' p') : ∃ events, TimedMove b p events b' p' := by
  cases move with
  | time us => exact ⟨_, .time b us⟩
  | peak => exact ⟨_, .peak b⟩
  | sample us => exact ⟨_, .sample b us⟩
  | emit record => exact ⟨_, .untimed (.emit b record) ⟨nofun, nofun, nofun⟩⟩
  | count => exact ⟨_, .untimed (.count b) ⟨nofun, nofun, nofun⟩⟩
  | clone held => exact ⟨_, .untimed (.clone held) ⟨nofun, nofun, nofun⟩⟩
  | drop => exact ⟨_, .untimed (.drop b) ⟨nofun, nofun, nofun⟩⟩
  | receive queued => exact ⟨_, .untimed (.receive queued) ⟨nofun, nofun, nofun⟩⟩
  | finish drained dropped =>
      exact ⟨_, .untimed (.finish drained dropped) ⟨nofun, nofun, nofun⟩⟩

/-- And nothing else is. -/
theorem TimedMove.move {b b' : EmissionBus} {p p' : Party} {events : List Timing}
    (timed : TimedMove b p events b' p') : BusMove b p b' p' := by
  cases timed with
  | time us => exact .time b us
  | peak => exact .peak b
  | sample us => exact .sample b us
  | untimed move untimed => exact move

/-- **The runs are the interleavings of the bus**, all of them. -/
theorem runs_iff_reaches {c c' : Config EmissionBus Party} :
    (∃ trace, Runs TimedMove c trace c') ↔ Reaches BusMove c c' := by
  constructor
  · rintro ⟨trace, run⟩
    exact run.reaches fun _ _ _ _ _ timed => timed.move
  · exact fun reached => reached.runs BusMove.timed

/-! ## What should be taken -/

/-- The maximum of these latencies. -/
def peakOf (latencies : List ℕ) : ℕ := latencies.foldr max 0

theorem peakOf_append (xs ys : List ℕ) : peakOf (xs ++ ys) = max (peakOf xs) (peakOf ys) := by
  induction xs with
  | nil => exact (Nat.zero_max _).symm
  | cons x xs ih =>
      show max x (peakOf (xs ++ ys)) = max (max x (peakOf xs)) (peakOf ys)
      rw [ih, Nat.max_assoc]

theorem le_peakOf {us : ℕ} {latencies : List ℕ} (mem : us ∈ latencies) :
    us ≤ peakOf latencies :=
  List.le_max_of_le' 0 mem (Nat.le_refl us)

/-- **What was measured since the maximum was taken last.** -/
def sinceTaken (events : List Timing) : List ℕ :=
  (events.rtakeWhile fun e => e.taken?.isNone).filterMap Timing.measured?

theorem sinceTaken_taken (events : List Timing) (us : ℕ) :
    sinceTaken (events ++ [.taken us]) = [] := by
  rw [sinceTaken, List.rtakeWhile_concat_neg _ _ _ (by simp [Timing.taken?])]
  rfl

theorem sinceTaken_concat (events : List Timing) {e : Timing} (untaken : e.taken? = none) :
    sinceTaken (events ++ [e]) = sinceTaken events ++ e.measured?.toList := by
  rw [sinceTaken, List.rtakeWhile_concat_pos _ _ _ (by simp [untaken]), List.filterMap_append,
    ← sinceTaken]
  cases e <;> rfl

/-- A latency is in, as long as the maximum is not taken. -/
theorem mem_sinceTaken (before : List Timing) (us : ℕ) {within : List Timing}
    (untaken : takenOf within = []) :
    us ∈ sinceTaken (before ++ .measured us :: within) := by
  induction within using List.reverseRecOn with
  | nil =>
      rw [sinceTaken_concat before rfl]
      exact List.mem_append_right _ List.mem_cons_self
  | append_singleton within e ih =>
      rw [takenOf, List.filterMap_append, List.append_eq_nil_iff] at untaken
      obtain ⟨hwithin, he⟩ := untaken
      have htaken : e.taken? = none := by
        cases h : e.taken? with
        | none => rfl
        | some us => simp [h] at he
      rw [← List.cons_append, ← List.append_assoc, sinceTaken_concat _ htaken]
      exact List.mem_append_left _ (ih hwithin)

/-! ## The book of the maximum -/

/-- The samples that a sink was written. -/
def Queued.sample? : Queued → Option ℕ
  | .sample us => some us
  | .emitted _ => none

def Written.sample? : Written → Option ℕ
  | .passed entry => entry.sample?
  | .captureDrop _ => none

def samplesOf (sink : List Written) : List ℕ := sink.filterMap Written.sample?

/-- **The maximum is that of the latencies since it was taken last**, and so was each that
was taken; each sink has got what was queued, but for what still is. -/
structure Metered (events : List Timing) (b : EmissionBus) : Prop where
  current : b.emitMaxUs = peakOf (sinceTaken events)
  taken : ∀ {before us after}, events = before ++ .taken us :: after →
    us = peakOf (sinceTaken before)
  sampled : ∀ sink ∈ b.sinks, samplesOf sink ++ b.queue.filterMap Queued.sample? =
    events.filterMap Timing.queued?

variable {events : List Timing} {b b' : EmissionBus}

/-- What was taken earlier stays as it was. -/
theorem Metered.taken_concat (h : Metered events b) {e : Timing}
    (last : ∀ us, e = .taken us → us = peakOf (sinceTaken events)) {before : List Timing}
    {us : ℕ} {after : List Timing} (split : events ++ [e] = before ++ .taken us :: after) :
    us = peakOf (sinceTaken before) := by
  rcases List.eq_nil_or_concat after with rfl | ⟨after', e', rfl⟩
  · obtain ⟨rfl, he⟩ := List.append_inj' split rfl
    exact last us (List.cons.inj he).1
  · rw [List.concat_eq_append, ← List.cons_append, ← List.append_assoc] at split
    exact h.taken (List.append_inj' split rfl).1

/-- A move that notes nothing keeps the book, if it keeps the maximum and what the sinks get. -/
theorem Metered.same (h : Metered events b) (maximum : b'.emitMaxUs = b.emitMaxUs)
    (fed : ∀ sink' ∈ b'.sinks, ∃ sink ∈ b.sinks,
      samplesOf sink' ++ b'.queue.filterMap Queued.sample? =
        samplesOf sink ++ b.queue.filterMap Queued.sample?) : Metered events b' where
  current := maximum.trans h.current
  taken := h.taken
  sampled := by
    intro sink' hsink'
    obtain ⟨sink, hsink, hsame⟩ := fed sink' hsink'
    rw [hsame]
    exact h.sampled sink hsink

theorem Metered.write (h : Metered events b) (dropped : ℕ) :
    Metered events (b.write (.captureDrop dropped)) := by
  refine h.same rfl fun sink' hsink' => ?_
  obtain ⟨sink, hsink, rfl⟩ := List.mem_map.mp hsink'
  refine ⟨sink, hsink, ?_⟩
  rw [samplesOf, List.filterMap_append]
  exact congrArg (· ++ _) (List.append_nil _)

/-- An entry is received by every sink. -/
theorem Metered.receive (h : Metered events b) {entry : Queued} {rest : List Queued}
    (queued : b.queue = entry :: rest) : Metered events (b.receive entry rest) := by
  have hpassed : Metered events ({ b with queue := rest }.write (.passed entry)) := by
    refine h.same rfl fun sink' hsink' => ?_
    obtain ⟨sink, hsink, rfl⟩ := List.mem_map.mp hsink'
    refine ⟨sink, hsink, ?_⟩
    rw [samplesOf, List.filterMap_append, List.append_assoc, queued]
    cases entry <;> rfl
  unfold EmissionBus.receive
  dsimp only
  split_ifs
  · exact (hpassed.same rfl fun sink hsink => ⟨sink, hsink, rfl⟩ :
      Metered events { ({ b with queue := rest }.write (.passed entry)) with
        lastDropReport := b.dropped }).write b.dropped
  · exact hpassed

theorem emit_unsampled (b : EmissionBus) (record : EmissionRecord) :
    (b.emit record).emitMaxUs = b.emitMaxUs ∧ (b.emit record).sinks = b.sinks ∧
      (b.emit record).queue.filterMap Queued.sample? = b.queue.filterMap Queued.sample? := by
  unfold EmissionBus.emit EmissionBus.trySend
  split_ifs <;> simp [Queued.sample?]

theorem Metered.emit (h : Metered events b) (record : EmissionRecord) :
    Metered events (b.emit record) := by
  obtain ⟨hmaximum, hsinks, hqueue⟩ := emit_unsampled b record
  refine h.same hmaximum fun sink hsink => ⟨sink, hsinks ▸ hsink, ?_⟩
  rw [hqueue]

/-- What was taken is queued behind the samples before it, if there is room. -/
theorem Metered.emitSample (h : Metered events b) (us : ℕ) :
    Metered (events ++ [.sampled us (b.trySend (.sample us)).isSome]) (b.emitSample us) where
  current := by
    have hmaximum : (b.emitSample us).emitMaxUs = b.emitMaxUs := by
      rcases @EmissionBus.emitSample_cases b us with hsame | hsame <;> rw [hsame]
    rw [hmaximum, sinceTaken_concat _ rfl, h.current]
    exact congrArg peakOf (List.append_nil _).symm
  taken := h.taken_concat (by rintro _ ⟨⟩)
  sampled := by
    intro sink hsink
    unfold EmissionBus.emitSample EmissionBus.trySend at hsink ⊢
    split_ifs at hsink ⊢
    · have hqueued := h.sampled sink hsink
      simp only [List.filterMap_append, Option.getD_some]
      rw [← List.append_assoc, hqueued]
      rfl
    · have hqueued := h.sampled sink hsink
      simp only [List.filterMap_append, Option.getD_none]
      rw [hqueued]
      exact (List.append_nil _).symm

/-- **Each move continues the book.** -/
theorem TimedMove.metered {p p' : Party} {noted : List Timing}
    (move : TimedMove b p noted b' p') (h : Metered events b) :
    Metered (events ++ noted) b' := by
  cases move with
  | time us =>
      refine ⟨?_, h.taken_concat (by rintro _ ⟨⟩), fun sink hsink => ?_⟩
      · rw [sinceTaken_concat _ rfl, peakOf_append, ← h.current]
        exact congrArg (max _) (Nat.max_zero us).symm
      · rw [List.filterMap_append, h.sampled sink hsink]
        exact (List.append_nil _).symm
  | peak =>
      refine ⟨?_, h.taken_concat fun us hus => ?_, fun sink hsink => ?_⟩
      · rw [sinceTaken_taken]
        rfl
      · rw [← h.current]
        exact (Timing.taken.inj hus).symm
      · rw [List.filterMap_append, h.sampled sink hsink]
        exact (List.append_nil _).symm
  | sample us => exact h.emitSample us
  | untimed move untimed =>
      obtain ⟨hsent, hpeaking, hsampling⟩ := untimed
      rw [List.append_nil]
      cases move with
      | time us => exact absurd rfl hsent
      | peak => exact absurd rfl hpeaking
      | sample us => exact absurd rfl (hsampling us)
      | emit record => exact h.emit record
      | count => exact h.same rfl fun sink hsink => ⟨sink, hsink, rfl⟩
      | clone held => exact h.same rfl fun sink hsink => ⟨sink, hsink, rfl⟩
      | drop => exact h.same rfl fun sink hsink => ⟨sink, hsink, rfl⟩
      | receive queued => exact h.receive queued
      | finish drained dropped => exact h.same rfl fun sink hsink => ⟨sink, hsink, rfl⟩

/-! ## How often -/

/-- How many of its emits a party has not counted yet. -/
def Party.uncounted : Party → ℕ
  | .sent => 1
  | .timed => 1
  | _ => 0

/-- How often a party is to take the maximum. -/
def Party.due : Party → ℕ
  | .peaking => 1
  | _ => 0

/-- How often a party has this left to queue. -/
def Party.holds (us : ℕ) (p : Party) : ℕ := if p = .sampling us then 1 else 0

theorem emit_counts (b : EmissionBus) (record : EmissionRecord) :
    (b.emit record).emitCount = b.emitCount ∧
      (b.emit record).log.length = b.log.length + 1 := by
  unfold EmissionBus.emit EmissionBus.trySend
  split_ifs <;> simp

theorem emitSample_counts (b : EmissionBus) (us : ℕ) :
    (b.emitSample us).emitCount = b.emitCount ∧ (b.emitSample us).log = b.log := by
  rcases @EmissionBus.emitSample_cases b us with hsame | hsame <;> rw [hsame] <;> exact ⟨rfl, rfl⟩

theorem receive_counts (b : EmissionBus) (entry : Queued) (rest : List Queued) :
    (b.receive entry rest).emitCount = b.emitCount ∧
      (b.receive entry rest).log = b.log := by
  unfold EmissionBus.receive
  dsimp only
  split_ifs <;> exact ⟨rfl, rfl⟩

/-- **What a move counts**: an emit that is counted is one that was made, every 256th is
due, and what is taken is held until it is queued. -/
theorem TimedMove.counts {p p' : Party} {noted : List Timing}
    (move : TimedMove b p noted b' p') :
    b'.emitCount + p'.uncounted + b.log.length = b.emitCount + p.uncounted + b'.log.length ∧
      (takenOf noted).length + p'.due + b.emitCount / 256 = p.due + b'.emitCount / 256 ∧
        ∀ us, (noted.filterMap Timing.sampled?).count us + p'.holds us =
          p.holds us + (takenOf noted).count us := by
  cases move with
  | time us => exact ⟨rfl, rfl, fun us' => rfl⟩
  | peak =>
      refine ⟨rfl, rfl, fun us' => ?_⟩
      have hsampled : [Timing.taken b.emitMaxUs].filterMap Timing.sampled? = [] := rfl
      rw [hsampled]
      simp [Party.holds, takenOf, Timing.taken?, List.count_singleton]
  | sample us =>
      obtain ⟨hcount, hlog⟩ := emitSample_counts b us
      refine ⟨by rw [hcount, hlog]; rfl, by rw [hcount]; rfl, fun us' => ?_⟩
      have htaken : takenOf [.sampled us (b.trySend (.sample us)).isSome] = [] := rfl
      rw [htaken]
      simp [Party.holds, Timing.sampled?, List.count_singleton]
  | untimed move untimed =>
      obtain ⟨hsent, hpeaking, hsampling⟩ := untimed
      cases move with
      | time us => exact absurd rfl hsent
      | peak => exact absurd rfl hpeaking
      | sample us => exact absurd rfl (hsampling us)
      | emit record =>
          obtain ⟨hcount, hlog⟩ := emit_counts b record
          refine ⟨?_, by rw [hcount]; rfl, fun us' => rfl⟩
          rw [hcount, hlog]
          simp only [Party.uncounted]
          omega
      | count =>
          refine ⟨?_, ?_, fun us' => ?_⟩
          · split_ifs <;> rfl
          · simp only [takenOf, List.filterMap_nil, List.length_nil]
            split_ifs <;> simp only [Party.due] <;> omega
          · split_ifs <;> rfl
      | clone held => exact ⟨rfl, rfl, fun us' => rfl⟩
      | drop => exact ⟨rfl, rfl, fun us' => rfl⟩
      | receive queued =>
          obtain ⟨hcount, hlog⟩ := receive_counts b _ _
          exact ⟨by rw [hcount, hlog], by rw [hcount]; rfl, fun us' => rfl⟩
      | finish drained dropped => exact ⟨rfl, rfl, fun us' => rfl⟩

/-! ## A whole run -/

/-- **A latency is in what is taken next**, or in the maximum. -/
theorem Metered.covers (h : Metered events b) {before : List Timing} {us : ℕ}
    {after : List Timing} (split : events = before ++ .measured us :: after) :
    (∃ within peak later, after = within ++ .taken peak :: later ∧ takenOf within = [] ∧
        us ≤ peak) ∨ (takenOf after = [] ∧ us ≤ b.emitMaxUs) := by
  by_cases htaken : takenOf after = []
  · refine .inr ⟨htaken, ?_⟩
    rw [h.current, split]
    exact le_peakOf (mem_sinceTaken before us htaken)
  · obtain ⟨peak, more, htaken⟩ := List.exists_cons_of_ne_nil htaken
    obtain ⟨within, e, later, hafter, hwithin, he, -⟩ := List.filterMap_eq_cons_iff.mp htaken
    have huntaken : takenOf within = [] := List.filterMap_eq_nil_iff.mpr hwithin
    obtain rfl : e = .taken peak := by
      cases e with
      | taken us' => rw [Option.some.inj he]
      | measured us' => cases he
      | sampled us' queued => cases he
    refine .inl ⟨within, peak, later, hafter, huntaken, ?_⟩
    have hpeak : events = (before ++ .measured us :: within) ++ .taken peak :: later := by
      rw [split, hafter, List.append_assoc, List.cons_append]
    rw [h.taken hpeak]
    exact le_peakOf (mem_sinceTaken before us huntaken)

theorem count_queued_le (events : List Timing) (us : ℕ) :
    (events.filterMap Timing.queued?).count us ≤ (events.filterMap Timing.sampled?).count us := by
  have hsublist : List.Sublist (events.filterMap Timing.queued?)
      (events.filterMap Timing.sampled?) := by
    induction events with
    | nil => exact List.Sublist.refl _
    | cons e events ih =>
        cases e with
        | measured us' => exact ih
        | taken us' => exact ih
        | sampled us' queued =>
            cases queued with
            | false => exact ih.cons us'
            | true => exact ih.cons_cons us'
  exact hsublist.count_le us

/-- A party that is not in an `emit`. -/
def Party.AtRest (p : Party) : Prop := p = .writer ∨ p = .idle ∨ p = .without

theorem Party.AtRest.weights {p : Party} (rest : p.AtRest) : p.uncounted = 0 ∧ p.due = 0 := by
  rcases rest with rfl | rfl | rfl <;> exact ⟨rfl, rfl⟩

theorem spawned_load {weight : Party → ℕ} (rest : ∀ p, p.AtRest → weight p = 0)
    (sinks capacity others : ℕ) : (spawned sinks capacity others).load weight = 0 := by
  refine load_eq_zero fun p hp => rest p ?_
  rcases List.mem_cons.mp hp with rfl | hp
  · exact .inl rfl
  · rcases List.mem_cons.mp hp with rfl | hp
    · exact .inr (.inl rfl)
    · exact .inr (.inr (List.eq_of_mem_replicate hp))

/-- **Latencies do not get lost between producers.**  In whatever order they and the writer
move, what is taken is the maximum of what was measured since it was taken last, so that a
latency is in what is taken next or still in the maximum.  It is taken once for every 256
emits, and the samples of each sink are among what was taken. -/
theorem latencies_reported (sinks capacity others : ℕ) {trace : List (ℕ × Timing)}
    {c : Config EmissionBus Party} (run : Runs TimedMove (spawned sinks capacity others) trace c) :
    let events := trace.map Prod.snd
    (∀ before us after, events = before ++ .taken us :: after →
        us = peakOf (sinceTaken before)) ∧
      (∀ before us after, events = before ++ .measured us :: after →
        (∃ within peak later, after = within ++ .taken peak :: later ∧ takenOf within = [] ∧
          us ≤ peak) ∨ (takenOf after = [] ∧ us ≤ c.shared.emitMaxUs)) ∧
      256 * (takenOf events).length ≤ c.shared.log.length ∧
      ((∀ p ∈ c.parties, p.AtRest) →
        (takenOf events).length = c.shared.log.length / 256) ∧
      ∀ sink ∈ c.shared.sinks, (samplesOf sink).Subperm (takenOf events) := by
  intro events
  have hmetered : Metered events c.shared := by
    refine run.book ⟨rfl, by simp, fun sink hsink => ?_⟩
      fun done b p noted b' p' hdone hmove => hmove.metered hdone
    obtain rfl := List.eq_of_mem_replicate hsink
    rfl
  have hmade : c.shared.emitCount + c.load Party.uncounted = c.shared.log.length :=
    run.balance Party.uncounted (fun _ b => b.emitCount) (fun _ b => b.log.length)
      ((Nat.zero_add _).trans (spawned_load (fun p hp => hp.weights.1) _ _ _))
      fun done b p noted b' p' hmove => hmove.counts.1
  have hdue : (takenOf events).length + c.load Party.due = c.shared.emitCount / 256 := by
    refine run.balance Party.due (fun done _ => (takenOf done).length)
      (fun _ b => b.emitCount / 256)
      ((Nat.zero_add _).trans
        ((spawned_load (fun p hp => hp.weights.2) _ _ _).trans (Nat.zero_div 256).symm))
      fun done b p noted b' p' hmove => ?_
    have hcounts := hmove.counts.2.1
    rw [takenOf, List.filterMap_append, List.length_append]
    simp only [takenOf] at hcounts ⊢
    omega
  refine ⟨fun before us after split => hmetered.taken split,
    fun before us after split => hmetered.covers split, by omega, fun rest => ?_, ?_⟩
  · have huncounted := load_eq_zero fun p hp => (rest p hp).weights.1
    have hnone := load_eq_zero fun p hp => (rest p hp).weights.2
    omega
  · intro sink hsink
    refine List.subperm_iff_count.mpr fun us => ?_
    have hheld : (events.filterMap Timing.sampled?).count us + c.load (Party.holds us) =
        (takenOf events).count us := by
      refine run.balance (Party.holds us) (fun done _ => (done.filterMap Timing.sampled?).count us)
        (fun done _ => (takenOf done).count us) ((Nat.zero_add _).trans (spawned_load ?_ _ _ _))
        fun done b p noted b' p' hmove => ?_
      · rintro p (rfl | rfl | rfl) <;> rfl
      · have hcounts := hmove.counts.2.2 us
        simp only [takenOf, List.filterMap_append, List.count_append] at hcounts ⊢
        omega
    have hsampled := hmetered.sampled sink hsink
    have hqueued := count_queued_le events us
    rw [← hsampled, List.count_append] at hqueued
    omega

/-- A whole `emit` of one party. -/
theorem emit_run {start : Config EmissionBus Party} {trace : List (ℕ × Timing)}
    {before after : List Party} (run : Runs TimedMove start trace ⟨b, before ++ .idle :: after⟩)
    (record : EmissionRecord) (us : ℕ) :
    ∃ b', b'.emitCount = b.emitCount + 1 ∧ b'.senders = b.senders ∧
      Runs TimedMove start (trace ++ [(before.length, .measured us)])
        ⟨b', before ++ (if b'.emitCount % 256 = 0 then .peaking else .idle) :: after⟩ := by
  have hemit : Noted TimedMove ⟨b, before ++ .idle :: after⟩ _ _ _ :=
    .move before after (.untimed (.emit b record) ⟨nofun, nofun, nofun⟩)
  have htime : Noted TimedMove ⟨b.emit record, before ++ .sent :: after⟩ _ _ _ :=
    .move before after (.time _ us)
  have hcount : Noted TimedMove ⟨{ b.emit record with
      emitMaxUs := max (b.emit record).emitMaxUs us }, before ++ .timed :: after⟩ _ _ _ :=
    .move before after (.untimed (.count _) ⟨nofun, nofun, nofun⟩)
  obtain ⟨hcounts, -⟩ := emit_counts b record
  have hrun := ((run.tail hemit).tail htime).tail hcount
  simp only [List.map_nil, List.append_nil, List.map_cons] at hrun
  refine ⟨_, ?_, ?_, hrun⟩
  · exact congrArg (· + 1) hcounts
  · exact EmissionBus.emit_senders record

/-- One producer emits, and does not come to the 256th time. -/
theorem emits_run {n : ℕ} (few : n < 256) : ∃ trace b,
    Runs TimedMove (spawned 1 1 1) trace ⟨b, [.writer, .idle, .without]⟩ ∧
      b.emitCount = n ∧ b.senders = 1 := by
  induction n with
  | zero => exact ⟨[], _, .refl, rfl, rfl⟩
  | succ n ih =>
      obtain ⟨trace, b, hrun, hcount, hsenders⟩ := ih (by omega)
      obtain ⟨b', hcount', hsenders', hrun'⟩ :=
        @emit_run b _ _ [.writer] [.without] hrun (.captureDrop 0) 7
      rw [if_neg (by omega)] at hrun'
      exact ⟨_, b', hrun', by omega, hsenders'.trans hsenders⟩

/-- A producer is about to take the maximum when another one folds in what it measured. -/
theorem latencies_reported_between : ∃ trace c, Runs TimedMove (spawned 1 1 1) trace c ∧
    ∃ before peak, trace.map Prod.snd = before ++ [.measured 9, .taken peak] ∧ 9 ≤ peak := by
  obtain ⟨trace, b, hrun, hcount, hsenders⟩ := @emits_run 255 (by decide)
  obtain ⟨b', hcount', hsenders', hpeaking⟩ :=
    @emit_run b _ _ [.writer] [.without] hrun (.captureDrop 0) 7
  rw [if_pos (by omega)] at hpeaking
  have hclone := hpeaking.tail (Noted.move [Party.writer, .peaking] []
    (TimedMove.untimed (.clone (by omega)) ⟨nofun, nofun, nofun⟩))
  obtain ⟨b'', -, -, hother⟩ :=
    @emit_run _ _ _ [.writer, .peaking] [] hclone (.captureDrop 0) 9
  have hwhole := hother.tail (Noted.move [Party.writer] [_] (TimedMove.peak b''))
  obtain ⟨-, hcovers, -⟩ := latencies_reported 1 1 1 hwhole
  refine ⟨_, _, hwhole, trace.map Prod.snd ++ [.measured 7], b''.emitMaxUs, by simp, ?_⟩
  rcases hcovers (trace.map Prod.snd ++ [.measured 7]) 9 [.taken b''.emitMaxUs] (by simp) with
    ⟨within, peak, later, hsplit, huntaken, hle⟩ | ⟨hnone, -⟩
  · cases within with
    | nil =>
        obtain ⟨rfl, -⟩ := Timing.taken.inj (List.cons.inj hsplit).1
        exact hle
    | cons e within => exact absurd (List.cons.inj hsplit).2 (by simp)
  · cases hnone

end RarChat
