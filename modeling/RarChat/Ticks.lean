import Mathlib.Order.Lattice.Nat
import RarChat.EvalRun
import RarChat.Starvation

/-!
# The ticks of an attempt

A run of the read loop makes a call of the evaluator at each tick behind the first byte,
and threads the average and the clock through them; reads in between only fill the window
(`run_threads`).  So an attempt starves with its calls, in the rounding of the loop
(`attempt_starves_iff`).

Two results on threaded calls stand here, in exact arithmetic.  The average of an attempt
starts from zero, and reaches the floor later than the windows do; a stream that keeps up
with the floor is declared starved unless its average is there in time
(`neverStarves_iff`).  And silence always trips the guard, at a tick that the average at
its beginning determines (`silence_trips`).
-/

namespace RarChat

open EarlyExit Smoothing Stretch

variable (cfg : OpenAiConfig) (serde : SerdeJson)

/-! ## The loop threads its calls -/

/-- The call that a wakeup makes: none before the first byte, and none at a read. -/
def callOf (s : ReadLoop) : Wakeup → Option Call
  | .tick after _ => s.firstByteAt.map fun fb =>
      ⟨s.contentBytesThisSec, nanosPerSec ≤ s.now + after - fb, s.now + after - s.turnStart⟩
  | .read _ _ _ => none

/-- The calls of a run of the loop, in order. -/
def callsOf (s : ReadLoop) (ws : List Wakeup) : List Call :=
  gather (wakeupStep cfg serde) (fun s w => (callOf s w).toList) s ws

/-- What the loop hands to its next call. -/
def ReadLoop.threaded (s : ReadLoop) : ThroughputStep := ⟨s.emaBps, false, s.starvedDur⟩

/-- One more call, with this rounding. -/
def ThroughputStep.nextWith (round : ℚ → ℚ) (s : ThroughputStep) (call : Call) :
    ThroughputStep :=
  evalThroughputWith round s.ema call.bytesThisWindow cfg.throughputFloorBps call.warmed
    s.starvedSince call.nowSinceStart cfg.throughputSustained

/-- What a list of calls leaves. -/
def evalCalls (round : ℚ → ℚ) (start : ThroughputStep) (calls : List Call) :
    ThroughputStep :=
  calls.foldl (ThroughputStep.nextWith cfg round) start

/-- The loop has the average and the clock of `t`, and is left as starved if `t` says so. -/
structure Threads (o : LoopOutcome) (t : ThroughputStep) : Prop where
  average : o.state.emaBps = t.ema
  clock : o.state.starvedDur = t.starvedSince
  starved : o.stop = some (starvedEnd cfg) ↔ t.starved = true

theorem start_threaded (st : StreamState) (now selectPolls : ℕ) :
    (ReadLoop.start st now selectPolls).threaded = ⟨0, false, none⟩ := rfl

theorem evalCalls_append (round : ℚ → ℚ) (start : ThroughputStep)
    (calls calls' : List Call) :
    evalCalls cfg round start (calls ++ calls') =
      evalCalls cfg round (evalCalls cfg round start calls) calls' :=
  List.foldl_append

/-- A tick makes its call. -/
theorem tickStep_threads (s : ReadLoop) (after activeStreams : ℕ) :
    Threads cfg (tickStep cfg s after activeStreams)
      (evalCalls cfg Binary64.round s.threaded
        (callOf s (.tick after activeStreams)).toList) := by
  cases hfirst : s.firstByteAt with
  | none =>
      simp only [tickStep, callOf, hfirst]
      exact ⟨rfl, rfl, iff_of_false (by simp) (by simp [evalCalls, ReadLoop.threaded])⟩
  | some fb =>
      have hcall : evalCalls cfg Binary64.round s.threaded
          (callOf s (.tick after activeStreams)).toList =
          evalThroughputWith Binary64.round s.emaBps s.contentBytesThisSec
            cfg.throughputFloorBps (nanosPerSec ≤ s.now + after - fb) s.starvedDur
            (s.now + after - s.turnStart) cfg.throughputSustained := by
        rw [callOf, hfirst]
        rfl
      rw [hcall]
      simp only [tickStep, hfirst]
      split_ifs with hstarved
      · exact ⟨rfl, rfl, iff_of_true rfl hstarved⟩
      · exact ⟨rfl, rfl, iff_of_false (by simp) hstarved⟩

theorem wakeupStep_threads (s : ReadLoop) (w : Wakeup) :
    Threads cfg (wakeupStep cfg serde s w)
      (evalCalls cfg Binary64.round s.threaded (callOf s w).toList) := by
  cases w with
  | tick after activeStreams => exact tickStep_threads cfg s after activeStreams
  | read after wallUnixMs item =>
      obtain ⟨hema, hclock⟩ := readStep_average serde s after wallUnixMs item
      refine ⟨hema, hclock, iff_of_false ?_ (by simp [evalCalls, callOf, ReadLoop.threaded])⟩
      exact readStep_stop_ne_starved cfg serde s after wallUnixMs item

/-- **The loop threads its calls**: its average and its clock are what its calls leave, and
it is left as starved exactly when the last of them says so. -/
theorem run_threads (s : ReadLoop) (ws : List Wakeup) :
    Threads cfg (run (wakeupStep cfg serde) s ws)
      (evalCalls cfg Binary64.round s.threaded (callsOf cfg serde s ws)) := by
  induction ws generalizing s with
  | nil =>
      refine ⟨rfl, rfl, iff_of_false (by simp) ?_⟩
      simp [callsOf, evalCalls, ReadLoop.threaded]
  | cons w ws ih =>
      have hstep := wakeupStep_threads cfg serde s w
      cases hstop : (wakeupStep cfg serde s w).stop with
      | some e =>
          rw [callsOf, gather_cons_of_stop _ _ hstop, run_cons_of_stop _ hstop]
          exact hstep
      | none =>
          rw [callsOf, gather_cons_of_running _ _ hstop, run_cons_of_running _ hstop]
          have hlater := ih (wakeupStep cfg serde s w).state
          have hquiet : (evalCalls cfg Binary64.round s.threaded
              (callOf s w).toList).starved = false := by
            rw [← Bool.not_eq_true, ← hstep.starved, hstop]
            simp
          have hthreaded : (wakeupStep cfg serde s w).state.threaded =
              evalCalls cfg Binary64.round s.threaded (callOf s w).toList := by
            rw [ReadLoop.threaded, hstep.average, hstep.clock, ← hquiet]
          rw [hthreaded] at hlater
          rw [evalCalls_append]
          exact ⟨hlater.average, hlater.clock, hlater.starved⟩

/-- **An attempt starves with its calls**: it is left as starved exactly when the last call
that it made starves, the calls being threaded from an average of zero and a disarmed
clock. -/
theorem attempt_starves_iff (st : StreamState) (now selectPolls : ℕ) (ws : List Wakeup) :
    (run (wakeupStep cfg serde) (ReadLoop.start st now selectPolls) ws).stop =
        some (starvedEnd cfg) ↔
      (evalCalls cfg Binary64.round ⟨0, false, none⟩
        (callsOf cfg serde (ReadLoop.start st now selectPolls) ws)).starved = true := by
  rw [← start_threaded st now selectPolls]
  exact (run_threads cfg serde _ ws).starved

/-! ## A slow start -/

variable {floorBps sustained : ℕ}

/-- **The average is at the floor in time**: whenever the ticks have been warmed for
`sustained`, the windows so far, with their weights, come up to the floor.  The average is
seeded with zero and not with the first window, so a stream that is never slower than the
floor still begins below it, and only windows above the floor make up for the seed.  What
is asked is on the windows and their times alone: the weight of a window falls by `3 / 5`
with every tick behind it, and the seed contributes nothing. -/
def RampsInTime (floorBps sustained : ℕ) (calls : ℕ → Call) : Prop :=
  ∀ n, ∀ s ∈ stretch (fun k => (calls k).warmed = true) n,
    callTimes calls s + sustained ≤ callTimes calls n →
      (floorBps : ℚ) ≤ weighted (3 / 5) (windows calls) (n + 1)

/-- From zero, the average is what the windows contribute. -/
theorem ema_of_zero (calls : ℕ → Call) (n : ℕ) :
    (evalRun floorBps sustained ⟨0, false, none⟩ calls n).ema =
      weighted (3 / 5) (windows calls) n := by
  rw [evalRun_ema, smooth_eq, mul_zero, zero_add]

/-- Windows at the floor keep an average that is there: below the floor at one tick, it
was below at all earlier ones. -/
theorem below_earlier {calls : ℕ → Call} (keepsUp : ∀ n, floorBps ≤ (calls n).bytesThisWindow)
    {k n : ℕ} (hkn : k ≤ n)
    (below : (evalRun floorBps sustained ⟨0, false, none⟩ calls n).ema < (floorBps : ℚ)) :
    (evalRun floorBps sustained ⟨0, false, none⟩ calls k).ema < (floorBps : ℚ) := by
  rw [evalRun_ema] at below ⊢
  by_contra hreached
  have hlevel : ∀ n, (floorBps : ℚ) ≤ windows calls n := by
    intro n
    exact Nat.cast_le.mpr (keepsUp n)
  have hkept := le_smooth_of_le (by norm_num) (by norm_num) hlevel hkn (not_lt.mp hreached)
  exact absurd below (not_lt.mpr hkept)

/-- **A stream that keeps up with the floor** is never declared starved exactly when its
average, which starts from zero, is at the floor in time. -/
theorem neverStarves_iff {calls : ℕ → Call}
    (keepsUp : ∀ n, floorBps ≤ (calls n).bytesThisWindow) (mono : Monotone (callTimes calls)) :
    (∀ n, ¬Starves floorBps sustained ⟨0, false, none⟩ calls n) ↔
      RampsInTime floorBps sustained calls := by
  constructor
  · intro never n s hs hlasted
    have hema := @ema_of_zero floorBps sustained calls (n + 1)
    rw [← hema]
    by_contra hbelow
    have hs' : s ∈ stretch (BelowFloor floorBps sustained ⟨0, false, none⟩ calls) n := by
      refine ⟨hs.1, fun k hk hkn => ⟨hs.2 k hk hkn, ?_⟩⟩
      exact below_earlier keepsUp (Nat.succ_le_succ hkn) (not_le.mp hbelow)
    -- the stretch below the floor began no later than the warmed one
    obtain ⟨r, hr⟩ := exists_isLeast_stretch (holds_of_mem hs')
    have hearlier : callTimes calls r ≤ callTimes calls s := mono (hr.2 hs')
    exact never n (starves_iff_clock.mpr ⟨_, clock_none_of_isLeast hr, by omega⟩)
  · intro ramps n hstarves
    obtain ⟨t, ht, hlasted⟩ := starves_iff_clock.mp hstarves
    obtain ⟨s, hs, rfl⟩ := clock_none_eq_some_iff.mp ht
    have hpast : callTimes calls s ≤ callTimes calls n := mono hs.1.1
    have hwarmed : s ∈ stretch (fun k => (calls k).warmed = true) n :=
      ⟨hs.1.1, fun k hk hkn => (hs.1.2 k hk hkn).1⟩
    have hreached := ramps n s hwarmed (by omega)
    have hbelow := (holds_of_mem hs.1).2
    rw [ema_of_zero] at hbelow
    exact absurd hbelow (not_lt.mpr hreached)

/-- Fifty bytes a second: the average is above the floor from the first tick on. -/
theorem fiftyBytes_not_starved :
    ¬Starves 1 (20 * nanosPerSec) ⟨0, false, none⟩ (steadyCalls 50 nanosPerSec) 29 := by
  refine (neverStarves_iff (fun n => by simp [steadyCalls])
    (monotone_steadyCalls 50 nanosPerSec)).mpr ?_ 29
  intro n s _ _
  have hlevel : ∀ n, ((1 : ℕ) : ℚ) ≤ windows (steadyCalls 50 nanosPerSec) n := by
    intro n
    exact Nat.cast_le.mpr (by simp [steadyCalls])
  have hfirst : ((1 : ℕ) : ℚ) ≤ smooth (3 / 5) 0 (windows (steadyCalls 50 nanosPerSec)) 1 := by
    norm_num [smooth, windows, steadyCalls]
  have hreached := le_smooth_of_le (by norm_num) (by norm_num) hlevel
    (Nat.le_add_left 1 n) hfirst
  rwa [smooth_eq, mul_zero, zero_add] at hreached

/-- One byte a second, exactly the floor, with the default window. -/
theorem oneByte_starves :
    (∀ n, 1 ≤ (steadyCalls 1 nanosPerSec n).bytesThisWindow) ∧
      Monotone (callTimes (steadyCalls 1 nanosPerSec)) ∧
      Starves 1 (20 * nanosPerSec) ⟨0, false, none⟩ (steadyCalls 1 nanosPerSec) 20 := by
  refine ⟨fun n => le_rfl, monotone_steadyCalls 1 nanosPerSec, ?_⟩
  decide +kernel

/-! ## Silence -/

/-- A read whose frames carry no text: comments, undecodable frames, and installments
without text. -/
def QuietRead (s : ReadLoop) : Wakeup → Prop
  | .tick _ _ => False
  | .read _ _ item => ∀ ev ∈ takenFrames serde s item, carriesText (ev.events serde) = false

theorem textBytes_eq_zero {events : List DriverEvent} (quiet : carriesText events = false) :
    textBytes events = 0 := by
  have hnone : events.filterMap DriverEvent.text? = [] := by
    apply List.filterMap_eq_nil_iff.mpr
    intro ev hev
    have hev' := List.any_eq_false.mp quiet ev hev
    rwa [Option.not_isSome_iff_eq_none] at hev'
  rw [textBytes, hnone]
  rfl

/-- **However many reads**: without text in them, the window stays as it is. -/
theorem quiet_window {s : ReadLoop} {reads : List Wakeup}
    (quiet : Along (wakeupStep cfg serde) (QuietRead serde) s reads)
    (running : (run (wakeupStep cfg serde) s reads).stop = none) :
    (run (wakeupStep cfg serde) s reads).state.contentBytesThisSec = s.contentBytesThisSec := by
  induction reads generalizing s with
  | nil => rfl
  | cons w reads ih =>
      obtain ⟨hquiet, hlater⟩ := quiet
      obtain ⟨hstop, hrest, hstate⟩ := run_cons_running _ running
      rw [hstate, ih (hlater hstop) hrest]
      cases w with
      | tick after activeStreams => exact hquiet.elim
      | read after wallUnixMs item =>
          have hnone : readContent serde s item = 0 := by
            apply List.sum_eq_zero
            intro bytes hbytes
            obtain ⟨ev, hev, rfl⟩ := List.mem_map.mp hbytes
            exact textBytes_eq_zero (hquiet ev hev)
          exact (readStep_window serde hstop).trans (by rw [hnone, Nat.add_zero])

/-- In silence the average decays. -/
theorem ema_of_silence {calls : ℕ → Call} (silent : ∀ n, (calls n).bytesThisWindow = 0)
    (ema : ℚ) (n : ℕ) :
    (evalRun floorBps sustained ⟨ema, false, none⟩ calls n).ema = (3 / 5) ^ n * ema := by
  have hzero : windows calls = fun _ => 0 := by
    funext k
    rw [windows, silent k, Nat.cast_zero]
  rw [evalRun_ema, hzero, smooth_zero]

theorem exists_isLeast {S : Set ℕ} (nonempty : S.Nonempty) : ∃ n, IsLeast S n :=
  ⟨sInf S, Nat.sInf_mem nonempty, fun _ h => Nat.sInf_le h⟩

theorem callTimes_of_apart {calls : ℕ → Call}
    (apart : ∀ n, callTimes calls (n + 1) = callTimes calls n + nanosPerSec) (m n : ℕ) :
    callTimes calls (m + n) = callTimes calls m + n * nanosPerSec := by
  induction n with
  | zero => simp
  | succ n ih =>
      rw [← Nat.add_assoc, apart, ih, Nat.succ_mul, Nat.add_assoc]

theorem callTimes_strictMono {calls : ℕ → Call}
    (apart : ∀ n, callTimes calls (n + 1) = callTimes calls n + nanosPerSec) :
    StrictMono (callTimes calls) := by
  apply strictMono_nat_of_lt_succ
  intro n
  rw [apart]
  exact Nat.lt_add_of_pos_right (by decide)

/-- **In silence a call starves** exactly when it is `sustained` behind the first one that
the average is below the floor at. -/
theorem silent_starves_iff {calls : ℕ → Call} {ema : ℚ} (nonneg : 0 ≤ ema)
    (silent : ∀ n, (calls n).bytesThisWindow = 0) (warmed : ∀ n, (calls n).warmed = true)
    (apart : ∀ n, callTimes calls (n + 1) = callTimes calls n + nanosPerSec) {j : ℕ}
    (first : IsLeast {k | 1 ≤ k ∧ (3 / 5 : ℚ) ^ k * ema < (floorBps : ℚ)} (j + 1)) (n : ℕ) :
    Starves floorBps sustained ⟨ema, false, none⟩ calls n ↔
      callTimes calls j + sustained ≤ callTimes calls n := by
  have hmono := callTimes_strictMono apart
  have hbelow : ∀ n, BelowFloor floorBps sustained ⟨ema, false, none⟩ calls n ↔ j ≤ n := by
    intro n
    unfold BelowFloor
    rw [ema_of_silence silent]
    constructor
    · rintro ⟨-, h⟩
      exact Nat.le_of_succ_le_succ (first.2 ⟨Nat.le_add_left 1 n, h⟩)
    · intro hjn
      refine ⟨warmed n, ?_⟩
      exact pow_mul_lt_of_le (by norm_num) (by norm_num) nonneg (Nat.succ_le_succ hjn) first.1.2
  have hstretch : ∀ n, j ≤ n →
      IsLeast (stretch (BelowFloor floorBps sustained ⟨ema, false, none⟩ calls) n) j := by
    intro n hjn
    refine ⟨⟨hjn, fun k hjk _ => (hbelow k).mpr hjk⟩, fun r hr => ?_⟩
    exact (hbelow r).mp (hr.2 r le_rfl hr.1)
  rw [starves_iff_clock]
  constructor
  · rintro ⟨t, ht, hlasted⟩
    obtain ⟨s, hs, rfl⟩ := clock_none_eq_some_iff.mp ht
    have hjn : j ≤ n := (hbelow n).mp (holds_of_mem hs.1)
    obtain rfl := hs.unique (hstretch n hjn)
    have hpast := hmono.monotone hjn
    omega
  · intro hlasted
    have hjn : j ≤ n := by
      by_contra hlt
      have hearly := hmono (Nat.lt_of_not_le hlt)
      omega
    exact ⟨_, clock_none_of_isLeast (hstretch n hjn), by omega⟩

/-- **Silence always trips.**  Reads without text leave the window at nothing, however many
they are.  From any average, the average is below a floor at some tick; and the first call
that starves, which always comes, is the first one that is `sustained` behind the first
such tick. -/
theorem silence_trips :
    (∀ (s : ReadLoop) (reads : List Wakeup),
      Along (wakeupStep cfg serde) (QuietRead serde) s reads →
        (run (wakeupStep cfg serde) s reads).stop = none →
          (run (wakeupStep cfg serde) s reads).state.contentBytesThisSec =
            s.contentBytesThisSec) ∧
    ∀ (floorBps sustained : ℕ) (ema : ℚ) (calls : ℕ → Call), 1 ≤ floorBps → 0 ≤ ema →
      (∀ n, (calls n).bytesThisWindow = 0) → (∀ n, (calls n).warmed = true) →
      (∀ n, callTimes calls (n + 1) = callTimes calls n + nanosPerSec) →
      ∃ k trip, IsLeast {k | 1 ≤ k ∧ (3 / 5 : ℚ) ^ k * ema < (floorBps : ℚ)} k ∧
        IsLeast {n | callTimes calls (k - 1) + sustained ≤ callTimes calls n} trip ∧
        IsLeast {n | Starves floorBps sustained ⟨ema, false, none⟩ calls n} trip := by
  refine ⟨fun s reads => quiet_window cfg serde, ?_⟩
  intro floorBps sustained ema calls hfloor nonneg silent warmed apart
  have hdecays : {k | 1 ≤ k ∧ (3 / 5 : ℚ) ^ k * ema < (floorBps : ℚ)}.Nonempty := by
    obtain ⟨k, hk⟩ := exists_pow_mul_lt (r := (3 / 5 : ℚ)) (by norm_num)
      (Nat.cast_pos.mpr hfloor) ema
    refine ⟨k + 1, Nat.le_add_left 1 k, ?_⟩
    exact pow_mul_lt_of_le (by norm_num) (by norm_num) nonneg (Nat.le_succ k) hk
  obtain ⟨k, hk⟩ := exists_isLeast hdecays
  obtain ⟨j, rfl⟩ : ∃ j, k = j + 1 := ⟨k - 1, (Nat.sub_add_cancel hk.1.1).symm⟩
  have htrips : {n | callTimes calls j + sustained ≤ callTimes calls n}.Nonempty := by
    refine ⟨j + sustained, ?_⟩
    show callTimes calls j + sustained ≤ callTimes calls (j + sustained)
    rw [callTimes_of_apart apart]
    exact Nat.add_le_add_left (Nat.le_mul_of_pos_right sustained (by decide)) _
  obtain ⟨trip, htrip⟩ := exists_isLeast htrips
  have hsame : {n | Starves floorBps sustained ⟨ema, false, none⟩ calls n} =
      {n | callTimes calls j + sustained ≤ callTimes calls n} := by
    ext n
    exact silent_starves_iff nonneg silent warmed apart hk n
  refine ⟨j + 1, trip, hk, htrip, ?_⟩
  rw [hsame]
  exact htrip

/-- From 100 bytes a second, with the defaults. -/
theorem silence_trips_defaults :
    ∃ k trip, IsLeast {k | 1 ≤ k ∧ (3 / 5 : ℚ) ^ k * 100 < ((1 : ℕ) : ℚ)} k ∧
      IsLeast {n | callTimes (steadyCalls 0 nanosPerSec) (k - 1) + 20 * nanosPerSec ≤
        callTimes (steadyCalls 0 nanosPerSec) n} trip ∧
      IsLeast {n | Starves 1 (20 * nanosPerSec) ⟨100, false, none⟩
        (steadyCalls 0 nanosPerSec) n} trip := by
  apply (silence_trips exampleConfig replySerde).2 1 (20 * nanosPerSec) 100
    (steadyCalls 0 nanosPerSec) (by decide) (by norm_num)
  · intro n
    rfl
  · intro n
    rfl
  · intro n
    exact Nat.succ_mul (n + 1) nanosPerSec

end RarChat
