import RarChat.EvalRun
import RarChat.Starvation

/-!
# What the throughput guard goes by

Whether a ready read is outrun depends on the average and on the starvation clock of the
read loop.  Both are determined by what reaches the loop: the instants of the ticks and
the reads, and the bytes that the reads bring.  A `Meter` is what can be measured on these
inputs (`Meter.step`), and the loop agrees with it (`Measured`): the window is the content
of the frames completed since the last tick, the average is that of the windows, and the
clock shows how long the average has been below the floor without a break.

So the condition under which no read is outrun is one on times and bytes (`Spared`), and it
is exact over all runs (`run_neverOutrun_iff`).
-/

namespace RarChat

open EarlyExit Stretch

variable (cfg : OpenAiConfig) (serde : SerdeJson)

/-! ## Windows -/

/-- The average behind these windows: it starts from zero, and every operation rounds. -/
def average (calls : List Call) : ℚ :=
  calls.foldl (fun ema call => nextEma Binary64.round ema call.bytesThisWindow) 0

theorem average_concat (calls : List Call) (call : Call) :
    average (calls ++ [call]) =
      nextEma Binary64.round (average calls) call.bytesThisWindow := by
  rw [average, List.foldl_append]
  rfl

/-- The instant of a tick. -/
def timeAt (calls : List Call) (k : ℕ) : ℕ := (calls[k]?.map Call.nowSinceStart).getD 0

/-- At this tick the floor is in force, and the average is below it. -/
def BelowAt (calls : List Call) (k : ℕ) : Prop :=
  calls[k]?.any Call.warmed = true ∧
    average (calls.take (k + 1)) < Binary64.round cfg.throughputFloorBps

instance (calls : List Call) : DecidablePred (BelowAt cfg calls) :=
  fun _ => inferInstanceAs (Decidable (_ ∧ _))

/-- No tick is ahead of an earlier one. -/
def Ordered (calls : List Call) : Prop :=
  ∀ r s, r ≤ s → s < calls.length → timeAt calls r ≤ timeAt calls s

/-- **The starvation was broken in time**: behind every tick that lies the sustained time
back, or longer, some tick up to the last one found the average at the floor, or came
within the second of grace behind the first byte.  The guard trips on an unbroken stretch
and forgets a broken one, so this is what keeps it from tripping at the last tick. -/
def BrokenInTime (calls : List Call) : Prop :=
  ∀ s < calls.length,
    timeAt calls s + cfg.throughputSustained ≤ timeAt calls (calls.length - 1) →
      ∃ k < calls.length, s ≤ k ∧ ¬BelowAt cfg calls k

instance : DecidablePred (BrokenInTime cfg) :=
  fun calls => inferInstanceAs (Decidable (∀ s < calls.length, _ → _))

section

variable {cfg} {calls : List Call} {call : Call} {k : ℕ}

theorem timeAt_append_of_lt (h : k < calls.length) :
    timeAt (calls ++ [call]) k = timeAt calls k := by
  rw [timeAt, List.getElem?_append_left h]
  rfl

@[simp] theorem timeAt_concat_length :
    timeAt (calls ++ [call]) calls.length = call.nowSinceStart := by
  rw [timeAt, List.getElem?_concat_length]
  rfl

theorem belowAt_append_of_lt (h : k < calls.length) :
    BelowAt cfg (calls ++ [call]) k ↔ BelowAt cfg calls k := by
  unfold BelowAt
  rw [List.getElem?_append_left h, List.take_append_of_le_length h]

@[simp] theorem belowAt_concat_length :
    BelowAt cfg (calls ++ [call]) calls.length ↔
      call.warmed = true ∧
        average (calls ++ [call]) < Binary64.round cfg.throughputFloorBps := by
  unfold BelowAt
  rw [List.getElem?_concat_length, List.take_of_length_le (by simp)]
  rfl

theorem Ordered.le_last (ordered : Ordered (calls ++ [call])) (hk : k ≤ calls.length) :
    timeAt (calls ++ [call]) k ≤ call.nowSinceStart := by
  calc
    timeAt (calls ++ [call]) k ≤ timeAt (calls ++ [call]) calls.length :=
      ordered k calls.length hk (by simp)
    _ = call.nowSinceStart := timeAt_concat_length

theorem Ordered.concat (ordered : Ordered calls)
    (last : ∀ k < calls.length, timeAt calls k ≤ call.nowSinceStart) :
    Ordered (calls ++ [call]) := by
  intro r s hrs hs
  rw [List.length_append, List.length_singleton] at hs
  rcases Nat.lt_succ_iff_lt_or_eq.mp hs with hlt | rfl
  · rw [timeAt_append_of_lt (lt_of_le_of_lt hrs hlt), timeAt_append_of_lt hlt]
    exact ordered r s hrs hlt
  · rw [timeAt_concat_length]
    rcases Nat.lt_or_eq_of_le hrs with hlt | rfl
    · rw [timeAt_append_of_lt hlt]
      exact last r hlt
    · rw [timeAt_concat_length]

variable (cfg) in
/-- What the starvation clock shows behind these ticks. -/
def clockOf (calls : List Call) : Option ℕ :=
  clock (BelowAt cfg calls) (timeAt calls) none calls.length

theorem clockOf_concat (calls : List Call) (call : Call) :
    clockOf cfg (calls ++ [call]) =
      if call.warmed = true ∧
          average (calls ++ [call]) < Binary64.round cfg.throughputFloorBps then
        some ((clockOf cfg calls).getD call.nowSinceStart)
      else none := by
  have hearlier : clock (BelowAt cfg (calls ++ [call])) (timeAt (calls ++ [call])) none
      calls.length = clockOf cfg calls :=
    clock_congr fun k hk => ⟨belowAt_append_of_lt hk, timeAt_append_of_lt hk⟩
  rw [clockOf, List.length_append, List.length_singleton, clock, hearlier,
    timeAt_concat_length]
  simp only [belowAt_concat_length]

/-- **The clock trips on an unbroken stretch**: a tick below the floor finds the clock
armed for the sustained time exactly when the stretch it ends was not broken in time. -/
theorem trips_iff {calls : List Call} {call : Call}
    (ordered : Ordered (calls ++ [call])) :
    (call.warmed = true ∧
        average (calls ++ [call]) < Binary64.round cfg.throughputFloorBps ∧
        cfg.throughputSustained ≤
          call.nowSinceStart - (clockOf cfg calls).getD call.nowSinceStart) ↔
      ¬BrokenInTime cfg (calls ++ [call]) := by
  have hclock : (call.warmed = true ∧
        average (calls ++ [call]) < Binary64.round cfg.throughputFloorBps ∧
        cfg.throughputSustained ≤
          call.nowSinceStart - (clockOf cfg calls).getD call.nowSinceStart) ↔
      ∃ t ∈ clockOf cfg (calls ++ [call]),
        cfg.throughputSustained ≤ call.nowSinceStart - t := by
    rw [clockOf_concat, ← and_assoc]
    split_ifs with hbelow
    · simp [hbelow]
    · simp [hbelow]
  have hlength : (calls ++ [call]).length = calls.length + 1 := by simp
  rw [hclock]
  unfold BrokenInTime
  push Not
  rw [hlength, Nat.add_sub_cancel, timeAt_concat_length]
  constructor
  · rintro ⟨t, ht, hlasted⟩
    rw [clockOf, hlength] at ht
    obtain ⟨s, hs, rfl⟩ := clock_none_eq_some_iff.mp ht
    have hpast := ordered.le_last hs.1.1
    refine ⟨s, Nat.lt_succ_of_le hs.1.1, by omega, fun k hk hsk => ?_⟩
    exact hs.1.2 k hsk (Nat.le_of_lt_succ hk)
  · rintro ⟨s, hs, hlasted, hall⟩
    have hmem : s ∈ stretch (BelowAt cfg (calls ++ [call])) calls.length :=
      ⟨Nat.le_of_lt_succ hs, fun k hsk hk => hall k (Nat.lt_succ_of_le hk) hsk⟩
    -- the stretch may have begun before `s`
    obtain ⟨r, hr⟩ := exists_isLeast_stretch (holds_of_mem hmem)
    have hearlier := ordered r s (hr.2 hmem) (by omega)
    refine ⟨timeAt (calls ++ [call]) r, ?_, by omega⟩
    rw [clockOf, hlength]
    exact clock_none_of_isLeast hr

end

/-! ## The meter -/

/-- The content bytes of the frames that stand complete in these bytes. -/
def contentBytes (body : List UInt8) : ℕ :=
  ((frameEvents body).map fun ev => textBytes (ev.events serde)).sum

/-- What can be measured on the wakeups of a body: how long it has been read, when its
first byte came, its bytes so far, how much of their content was in the window of an
earlier tick, and the ticks with their windows. -/
structure Meter where
  elapsed : ℕ
  firstByte : Option ℕ
  body : List UInt8
  counted : ℕ
  ticks : List Call
deriving DecidableEq, Repr

namespace Meter

def new : Meter := ⟨0, none, [], 0, []⟩

/-- The content that has come since the last tick. -/
def window (m : Meter) : ℕ := contentBytes serde m.body - m.counted

/-- The content a read would add to the window: that of the frames it completes, up to the
one that ends the attempt.  A read whose rest is too long for the buffer adds nothing. -/
def contentOf (m : Meter) (item : List UInt8) : ℕ :=
  if defaultBufLimit < (frameRest (m.body ++ item)).length then 0
  else ((framesUpTo serde (frameEvents (frameRest m.body ++ item))).map
    fun ev => textBytes (ev.events serde)).sum

/-- The tick at this instant, if a byte has come before it. -/
def tick (m : Meter) (after : ℕ) : Option Call :=
  m.firstByte.map fun fb =>
    ⟨m.window serde, nanosPerSec ≤ m.elapsed + after - fb, m.elapsed + after⟩

def step (m : Meter) : Wakeup → Meter
  | .read after _ item =>
      { m with
        elapsed := m.elapsed + after
        firstByte := m.firstByte.or (some (m.elapsed + after))
        body := m.body ++ item }
  | .tick after _ =>
      { m with
        elapsed := m.elapsed + after
        counted := contentBytes serde m.body
        ticks := m.ticks ++ (m.tick serde after).toList }

end Meter

/-! ## The loop agrees with the meter -/

/-- The loop has come to where the meter is, from this instant on. -/
structure Measured (start : ℕ) (m : Meter) (s : ReadLoop) : Prop where
  now : s.now = start + m.elapsed
  turnStart : s.turnStart = start
  firstByte : s.firstByteAt = m.firstByte.map (start + ·)
  parser : s.parser = ⟨frameRest m.body, defaultBufLimit⟩
  window : s.contentBytesThisSec = m.window serde
  counted : m.counted ≤ contentBytes serde m.body
  emaBps : s.emaBps = average m.ticks
  starvedDur : s.starvedDur = clockOf cfg m.ticks
  unread : m.firstByte = none → m.ticks = [] ∧ m.body = []
  ordered : Ordered m.ticks
  past : ∀ k < m.ticks.length, timeAt m.ticks k ≤ m.elapsed

theorem measured_start (st : StreamState) (now selectPolls : ℕ) :
    Measured cfg serde now Meter.new (ReadLoop.start st now selectPolls) where
  now := rfl
  turnStart := rfl
  firstByte := rfl
  parser := by rw [Meter.new, frameRest_nil]; rfl
  window := by simp [Meter.new, Meter.window, contentBytes, ReadLoop.start]
  counted := by simp [Meter.new]
  emaBps := rfl
  starvedDur := rfl
  unread := fun _ => ⟨rfl, rfl⟩
  ordered := fun _ _ _ h => absurd h (Nat.not_lt_zero _)
  past := fun _ h => absurd h (Nat.not_lt_zero _)

theorem contentBytes_append (body item : List UInt8) :
    contentBytes serde (body ++ item) = contentBytes serde body +
      ((frameEvents (frameRest body ++ item)).map
        fun ev => textBytes (ev.events serde)).sum := by
  rw [contentBytes, frameEvents_append, List.map_append, List.sum_append, contentBytes]

section

variable {cfg serde} {start : ℕ} {m : Meter} {s : ReadLoop}

/-- The content of a ready read is what the meter makes of it. -/
theorem Measured.readContent_eq (h : Measured cfg serde start m s) (item : List UInt8) :
    readContent serde s item = m.contentOf serde item := by
  rw [readContent, takenFrames, Meter.contentOf, h.parser]
  dsimp only
  rw [← frameRest_append]
  split_ifs <;> rfl

/-- A read that lets the loop go on. -/
theorem Measured.read (h : Measured cfg serde start m s) {after wallUnixMs : ℕ}
    {item : List UInt8} (running : (readStep serde s after wallUnixMs item).stop = none) :
    Measured cfg serde start (m.step serde (.read after wallUnixMs item))
      (readStep serde s after wallUnixMs item).state := by
  have hwindow := readStep_window serde running
  have htaken := (wakeupStep_read_of_running cfg serde running).1
  obtain ⟨_, _, _, _, _, hframed⟩ := readStep_framed serde s after wallUnixMs item
  have hcontent := contentBytes_append serde m.body item
  have hread : readContent serde s item =
      ((frameEvents (frameRest m.body ++ item)).map
        fun ev => textBytes (ev.events serde)).sum := by
    rw [readContent, htaken, h.parser]
  have hle : m.counted ≤ contentBytes serde (m.body ++ item) :=
    hcontent ▸ Nat.le_add_right_of_le h.counted
  refine ⟨?_, ?_, ?_, ?_, ?_, hle, ?_, ?_, ?_, h.ordered, ?_⟩
  · rw [hframed]
    show s.now + after = start + (m.elapsed + after)
    rw [h.now, Nat.add_assoc]
  · rw [hframed]
    exact h.turnStart
  · rw [hframed]
    show s.firstByteAt.or (some (s.now + after)) =
      (m.firstByte.or (some (m.elapsed + after))).map (start + ·)
    rw [h.firstByte, h.now, Nat.add_assoc]
    cases m.firstByte <;> rfl
  · rw [hframed]
    show (⟨frameRest (s.parser.buf ++ item), s.parser.limitBytes⟩ : SseParser) = _
    rw [h.parser, ← frameRest_append]
    rfl
  · rw [hwindow, h.window, hread]
    show contentBytes serde m.body - m.counted + _ =
      contentBytes serde (m.body ++ item) - m.counted
    have hcounted := h.counted
    omega
  · rw [hframed]
    exact h.emaBps
  · rw [hframed]
    exact h.starvedDur
  · intro hunread
    have hsome : (m.firstByte.or (some (m.elapsed + after))).isSome = true := by
      cases m.firstByte <;> rfl
    rw [show m.firstByte.or (some (m.elapsed + after)) = none from hunread] at hsome
    cases hsome
  · intro k hk
    exact Nat.le_add_right_of_le (h.past k hk)

/-- The ticks so far, with one more at this instant. -/
theorem Measured.ordered_tick (h : Measured cfg serde start m s) {after : ℕ} {call : Call}
    (tick : m.tick serde after = some call) : Ordered (m.ticks ++ [call]) := by
  obtain ⟨fb, -, rfl⟩ := Option.map_eq_some_iff.mp tick
  exact h.ordered.concat fun k hk => Nat.le_add_right_of_le (h.past k hk)

/-- What a tick leaves behind the first byte, in the terms of the meter. -/
theorem Measured.tickStep_state (h : Measured cfg serde start m s) {fb : ℕ}
    (first : m.firstByte = some fb) {after activeStreams : ℕ} :
    (tickStep cfg s after activeStreams).state =
      { s.wakeAt (s.now + after) with
        emaBps := nextEma Binary64.round (average m.ticks) (m.window serde)
        starvedDur :=
          if decide (nanosPerSec ≤ m.elapsed + after - fb) = true ∧
              nextEma Binary64.round (average m.ticks) (m.window serde) <
                Binary64.round cfg.throughputFloorBps then
            some ((clockOf cfg m.ticks).getD (m.elapsed + after))
          else none
        contentBytesThisSec := 0 } := by
  have hbehind : s.now + after - (start + fb) = m.elapsed + after - fb := by
    rw [h.now, Nat.add_assoc, Nat.add_sub_add_left]
  have htime : s.now + after - s.turnStart = m.elapsed + after := by
    rw [h.now, h.turnStart, Nat.add_assoc, Nat.add_sub_cancel_left]
  have hfirst : s.firstByteAt = some (start + fb) := by
    rw [h.firstByte, first, Option.map_some]
  rw [← h.emaBps, ← h.window, ← h.starvedDur, ← hbehind, ← htime]
  rw [← @evalThroughputWith_starvedSince _ _ _ _ _ _ _ cfg.throughputSustained]
  simp only [tickStep, hfirst]
  split_ifs
  · simp only [LoopEnd.after, LoopEnd.returned, ReadLoop.endWire,
      evalThroughputWith_ema]
  · simp only [evalThroughputWith_ema]

/-- A tick, whether it ends the attempt or not. -/
theorem Measured.tick (h : Measured cfg serde start m s) (after activeStreams : ℕ) :
    Measured cfg serde start (m.step serde (.tick after activeStreams))
      (tickStep cfg s after activeStreams).state := by
  have hnow : s.now + after = start + (m.elapsed + after) := by rw [h.now, Nat.add_assoc]
  cases hfirst : m.firstByte with
  | none =>
      obtain ⟨hticks, hbody⟩ := h.unread hfirst
      have hstep : tickStep cfg s after activeStreams =
          ⟨s.wakeAt (s.now + after), [], none⟩ := by
        simp only [tickStep, h.firstByte, hfirst, Option.map_none]
      have hmeter : m.step serde (.tick after activeStreams) =
          { m with elapsed := m.elapsed + after, counted := contentBytes serde m.body } := by
        simp only [Meter.step, Meter.tick, hfirst, Option.map_none, Option.toList_none,
          List.append_nil]
      rw [hstep, hmeter]
      refine ⟨hnow, h.turnStart, h.firstByte, h.parser, ?_, le_rfl, h.emaBps, h.starvedDur,
        h.unread, h.ordered, fun k hk => Nat.le_add_right_of_le (h.past k hk)⟩
      -- there has been no content yet
      have hwindow := h.window
      simp only [Meter.window, hbody, contentBytes, frameEvents_nil, List.map_nil,
        List.sum_nil, Nat.zero_sub] at hwindow ⊢
      exact hwindow
  | some fb =>
      let call : Call :=
        ⟨m.window serde, nanosPerSec ≤ m.elapsed + after - fb, m.elapsed + after⟩
      have htick : m.tick serde after = some call := by
        rw [Meter.tick, hfirst, Option.map_some]
      have hmeter : m.step serde (.tick after activeStreams) =
          { m with
            elapsed := m.elapsed + after
            counted := contentBytes serde m.body
            ticks := m.ticks ++ [call] } := by
        rw [Meter.step, htick, Option.toList_some]
      rw [hmeter, h.tickStep_state hfirst]
      refine ⟨hnow, h.turnStart, h.firstByte, h.parser, ?_, le_rfl, ?_, ?_, ?_,
        h.ordered_tick htick, ?_⟩
      · show 0 = contentBytes serde m.body - contentBytes serde m.body
        rw [Nat.sub_self]
      · exact (average_concat m.ticks call).symm
      · show (if _ then _ else _) = clockOf cfg (m.ticks ++ [call])
        rw [clockOf_concat, average_concat]
      · intro hunread
        rw [show m.firstByte = none from hunread] at hfirst
        cases hfirst
      · intro k hk
        exact (h.ordered_tick htick).le_last (Nat.le_of_lt_succ (by simpa using hk))

/-- **A tick is the last one** exactly when the starvation was not broken in time. -/
theorem Measured.lastTick_iff (h : Measured cfg serde start m s) (after : ℕ) :
    LastTick cfg s (s.now + after) ↔
      ¬BrokenInTime cfg (m.ticks ++ (m.tick serde after).toList) := by
  cases hfirst : m.firstByte with
  | none =>
      have hticks : m.ticks ++ (m.tick serde after).toList = [] := by
        simp [(h.unread hfirst).1, Meter.tick, hfirst]
      rw [hticks]
      refine iff_of_false (fun hlast => ?_) (not_not_intro fun s hs => absurd hs s.not_lt_zero)
      obtain ⟨fb, hfb, -⟩ := hlast.warmed
      rw [h.firstByte, hfirst] at hfb
      cases hfb
  | some fb =>
      let call : Call :=
        ⟨m.window serde, nanosPerSec ≤ m.elapsed + after - fb, m.elapsed + after⟩
      have htick : m.tick serde after = some call := by
        rw [Meter.tick, hfirst, Option.map_some]
      have hbehind : s.now + after - (start + fb) = m.elapsed + after - fb := by
        rw [h.now, Nat.add_assoc, Nat.add_sub_add_left]
      have htime : s.now + after - s.turnStart = m.elapsed + after := by
        rw [h.now, h.turnStart, Nat.add_assoc, Nat.add_sub_cancel_left]
      rw [htick, Option.toList_some, ← trips_iff (h.ordered_tick htick), average_concat]
      constructor
      · rintro ⟨⟨fb', hfb', hwarmed⟩, hbelow, hsustained⟩
        rw [h.firstByte, hfirst] at hfb'
        obtain rfl := Option.some.inj hfb'
        rw [ReadLoop.emaWith, h.emaBps, h.window] at hbelow
        rw [htime, h.starvedDur] at hsustained
        exact ⟨decide_eq_true (hbehind ▸ hwarmed), hbelow, hsustained⟩
      · rintro ⟨hwarmed, hbelow, hsustained⟩
        refine ⟨⟨start + fb, ?_, ?_⟩, ?_, ?_⟩
        · rw [h.firstByte, hfirst, Option.map_some]
        · rw [hbehind]
          exact of_decide_eq_true hwarmed
        · rw [ReadLoop.emaWith, h.emaBps, h.window]
          exact hbelow
        · rw [htime, h.starvedDur]
          exact hsustained

theorem Measured.wakeup (h : Measured cfg serde start m s) {w : Wakeup}
    (running : (wakeupStep cfg serde s w).stop = none) :
    Measured cfg serde start (m.step serde w) (wakeupStep cfg serde s w).state := by
  cases w with
  | tick after activeStreams => exact h.tick after activeStreams
  | read after wallUnixMs item => exact h.read running

theorem Measured.run (h : Measured cfg serde start m s) {ws : List Wakeup}
    (running : (run (wakeupStep cfg serde) s ws).stop = none) :
    Measured cfg serde start (ws.foldl (Meter.step serde) m)
      (run (wakeupStep cfg serde) s ws).state := by
  induction ws generalizing m s with
  | nil => exact h
  | cons w ws ih =>
      obtain ⟨hstop, hrest, hstate⟩ := run_cons_running _ running
      rw [hstate, List.foldl_cons]
      exact ih (h.wakeup hstop) hrest

end

/-! ## Over all runs -/

/-- The wakeups of a poll, in the order in which the arms are taken. -/
def Poll.wakeups : Poll → List Wakeup
  | .alone w => [w]
  | .both after activeStreams wallUnixMs item picked =>
      bothReady after activeStreams wallUnixMs item picked

theorem pollStep_eq (s : ReadLoop) (poll : Poll) :
    pollStep cfg serde s poll = run (wakeupStep cfg serde) s poll.wakeups := by
  cases poll with
  | alone w => exact (run_singleton (wakeupStep cfg serde) s w).symm
  | both after activeStreams wallUnixMs item picked => rfl

/-- The meter behind these polls. -/
def meterAfter (polls : List Poll) : Meter :=
  (polls.flatMap Poll.wakeups).foldl (Meter.step serde) Meter.new

theorem Measured.polls {start : ℕ} {m : Meter} {s : ReadLoop}
    (h : Measured cfg serde start m s) {polls : List Poll}
    (running : (EarlyExit.run (pollStep cfg serde) s polls).stop = none) :
    Measured cfg serde start ((polls.flatMap Poll.wakeups).foldl (Meter.step serde) m)
      (EarlyExit.run (pollStep cfg serde) s polls).state := by
  induction polls generalizing m s with
  | nil => exact h
  | cons poll polls ih =>
      obtain ⟨hstop, hrest, hstate⟩ := run_cons_running _ running
      rw [hstate, List.flatMap_cons, List.foldl_append]
      rw [pollStep_eq] at hstop hrest ⊢
      exact ih (h.run hstop) hrest

/-- **The reads at this poll are spared**, by what came before: a read that is ready
together with a tick would not bring the average to the floor, or the starvation was broken
in time.  In the first case the guard is right; in the second it does not trip, whichever
arm is taken.  Otherwise it trips on the window without the read if the tick is taken
first, and only then. -/
def Spared (before : List Poll) : Poll → Prop
  | .alone _ => True
  | .both after _ _ item _ =>
      let m := meterAfter serde before
      nextEma Binary64.round (average m.ticks) (m.window serde + m.contentOf serde item) <
          Binary64.round cfg.throughputFloorBps ∨
        BrokenInTime cfg (m.ticks ++ (m.tick serde after).toList)

/-- **Over all runs**: no ready read is outrun at any poll of a run exactly when each poll
that the loop comes to spares it, by the instants and the bytes up to it. -/
theorem run_neverOutrun_iff (st : StreamState) (now selectPolls : ℕ) (polls : List Poll) :
    Along (pollStep cfg serde) (NeverOutrun cfg serde) (ReadLoop.start st now selectPolls)
        polls ↔
      ∀ before poll later, polls = before ++ poll :: later →
        (run (pollStep cfg serde) (ReadLoop.start st now selectPolls) before).stop = none →
          Spared cfg serde before poll := by
  rw [along_iff_splits]
  refine forall_congr' fun before => forall_congr' fun poll => forall_congr' fun later =>
    imp_congr_right fun _ => imp_congr_right fun running => ?_
  have h := (measured_start cfg serde st now selectPolls).polls cfg serde running
  cases poll with
  | alone w => exact Iff.rfl
  | both after activeStreams wallUnixMs item picked =>
      rw [neverOutrun_both_iff, h.lastTick_iff, ReadLoop.emaWith, h.emaBps, h.window,
        h.readContent_eq, imp_iff_not_or, not_not]
      exact Or.comm

/-- A keep-alive comment, twenty ticks without content, and a read that is ready together
with the next tick. -/
def slowPolls : List Poll :=
  .alone (.read 0 0 (asBytes ": hi\n\n")) ::
    (List.replicate 20 (.alone (.tick nanosPerSec 1)) ++
      [.both nanosPerSec 1 0 (hiFrame ++ hiFrame) .tick])

/-- The read would have brought the average above the floor, and is outrun. -/
theorem slow_reply_outrun :
    ¬Along (pollStep exampleConfig replySerde) (NeverOutrun exampleConfig replySerde)
      (ReadLoop.start (StreamState.new 1).beginAttempt 0 0) slowPolls := by
  decide +kernel

end RarChat
