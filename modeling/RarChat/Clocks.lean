import RarChat.Deadline

/-!
# The clocks of the read loop

The `select!` rebuilds its futures at every pass.  What keeps the clocks from being
postponed is that the stall timer is armed for an absolute time, and the deadline for
what is left of it.  Here the times of a run are read off its wakeups alone
(`clockBehind`, `lastReadBehind`), and every pass is shown to arm its timers for them
(`ReadLoop.Timed.armed`), so that no tick moves the one and nothing moves the other.  What a
timer that has fired says about the reads is then a matter of what it was armed for
(`readLoop_clockVerdict`).

Times are natural numbers here, and a sum of two always is one.  Which of these sums the
program can compute is the subject of `Arming`.
-/

namespace RarChat

open EarlyExit

/-! ## The times of a run -/

/-- How long the loop waited for a wakeup. -/
def Wakeup.after : Wakeup → ℕ
  | .tick after _ => after
  | .read after _ _ => after

/-- The instants of the reads among wakeups that follow `now`. -/
def readInstants : ℕ → List Wakeup → List ℕ
  | _, [] => []
  | now, .tick after _ :: rest => readInstants (now + after) rest
  | now, .read after _ _ :: rest => (now + after) :: readInstants (now + after) rest

/-- The instant of the last of the wakeups that follow `now`. -/
def clockBehind (now : ℕ) (wakeups : List Wakeup) : ℕ :=
  now + (wakeups.map Wakeup.after).sum

/-- The instant of the last read of a loop that started at `now`, or its start. -/
def lastReadBehind (now : ℕ) (wakeups : List Wakeup) : ℕ :=
  (readInstants now wakeups).getLast?.getD now

variable (cfg : OpenAiConfig) (serde : SerdeJson)

/-- The window in force: the backstop until the first read, then the stall timeout. -/
def windowBehind (now : ℕ) (wakeups : List Wakeup) : ℕ :=
  if readInstants now wakeups = [] then cfg.firstByteBackstop else cfg.stallTimeout

/-- The instant the overall timer is armed for, by what is left of the deadline. -/
def ReadLoop.overallArm (s : ReadLoop) : ℕ := s.now + s.overallRemaining cfg

theorem readInstants_append (now : ℕ) (xs ys : List Wakeup) :
    readInstants now (xs ++ ys) =
      readInstants now xs ++ readInstants (clockBehind now xs) ys := by
  induction xs generalizing now with
  | nil => rfl
  | cons w xs ih =>
      cases w with
      | tick after activeStreams =>
          simp [readInstants, ih, clockBehind, Wakeup.after, Nat.add_assoc]
      | read after wallUnixMs item =>
          simp [readInstants, ih, clockBehind, Wakeup.after, Nat.add_assoc]

/-- Reads lie between the start and the last wakeup. -/
theorem readInstants_within {now instant : ℕ} {wakeups : List Wakeup}
    (mem : instant ∈ readInstants now wakeups) :
    now ≤ instant ∧ instant ≤ clockBehind now wakeups := by
  induction wakeups generalizing now with
  | nil => cases mem
  | cons w wakeups ih =>
      cases w with
      | tick after activeStreams =>
          have hrest := ih mem
          simp only [clockBehind, List.map_cons, List.sum_cons, Wakeup.after] at hrest ⊢
          omega
      | read after wallUnixMs item =>
          simp only [clockBehind, List.map_cons, List.sum_cons, Wakeup.after] at ih ⊢
          rcases List.mem_cons.mp mem with rfl | mem
          · omega
          · have hrest := ih mem
            omega

/-- No read is later than the last one. -/
theorem readInstants_le_last {now instant : ℕ} {wakeups : List Wakeup}
    (mem : instant ∈ readInstants now wakeups) :
    instant ≤ lastReadBehind now wakeups := by
  induction wakeups using List.reverseRecOn with
  | nil => cases mem
  | append_singleton wakeups w ih =>
      rw [readInstants_append, List.mem_append] at mem
      unfold lastReadBehind at ih ⊢
      rw [readInstants_append]
      cases w with
      | tick after activeStreams =>
          simp only [readInstants, List.append_nil, List.not_mem_nil, or_false] at mem ⊢
          exact ih mem
      | read after wallUnixMs item =>
          simp only [readInstants, List.mem_singleton] at mem
          rw [readInstants, readInstants, List.getLast?_concat, Option.getD_some]
          rcases mem with mem | rfl
          · exact Nat.le_add_right_of_le (readInstants_within mem).2
          · exact Nat.le_refl _

/-! ## The clocks follow the times of the run -/

/-- The clocks of a loop that started at `origin` and has had these wakeups. -/
structure ReadLoop.Timed (origin : ℕ) (wakeups : List Wakeup) (s : ReadLoop) : Prop where
  turnStart : s.turnStart = origin
  now : s.now = clockBehind origin wakeups
  lastReadAt : s.lastReadAt = lastReadBehind origin wakeups
  readSeq : s.readSeq = (readInstants origin wakeups).length

theorem ReadLoop.Timed.framed {origin : ℕ} {wakeups : List Wakeup} {s s' : ReadLoop}
    (h : s.Timed origin wakeups) (framed : s.Framed s') : s'.Timed origin wakeups := by
  obtain ⟨_, _, _, _, _, rfl⟩ := framed
  exact ⟨h.turnStart, h.now, h.lastReadAt, h.readSeq⟩

theorem clockBehind_concat (origin : ℕ) (wakeups : List Wakeup) (w : Wakeup) :
    clockBehind origin (wakeups ++ [w]) = clockBehind origin wakeups + w.after := by
  simp [clockBehind, Nat.add_assoc]

/-- The clocks behind a tick: only the time has gone on. -/
theorem ReadLoop.Timed.ticked {origin : ℕ} {wakeups : List Wakeup} {s s' : ReadLoop}
    (h : s.Timed origin wakeups) (after activeStreams : ℕ)
    (now : s'.now = s.now + after) (turnStart : s'.turnStart = s.turnStart)
    (lastReadAt : s'.lastReadAt = s.lastReadAt) (readSeq : s'.readSeq = s.readSeq) :
    s'.Timed origin (wakeups ++ [.tick after activeStreams]) := by
  have hreads : readInstants origin (wakeups ++ [.tick after activeStreams]) =
      readInstants origin wakeups := by
    rw [readInstants_append]
    exact List.append_nil _
  exact
    { turnStart := turnStart.trans h.turnStart
      now := by rw [now, h.now, clockBehind_concat]; rfl
      lastReadAt := by rw [lastReadAt, h.lastReadAt, lastReadBehind, lastReadBehind, hreads]
      readSeq := by rw [readSeq, h.readSeq, hreads] }

/-- The clocks behind a read. -/
theorem ReadLoop.Timed.pushed {origin : ℕ} {wakeups : List Wakeup} {s : ReadLoop}
    (h : s.Timed origin wakeups) (after wallUnixMs : ℕ) (item : List UInt8) :
    (s.afterPush (s.now + after) item).Timed origin
      (wakeups ++ [.read after wallUnixMs item]) := by
  have hreads : readInstants origin (wakeups ++ [.read after wallUnixMs item]) =
      readInstants origin wakeups ++ [s.now + after] := by
    rw [readInstants_append, h.now]
    rfl
  exact
    { turnStart := h.turnStart
      now := by
        rw [clockBehind_concat, ← h.now]
        rfl
      lastReadAt := by
        rw [lastReadBehind, hreads, List.getLast?_concat]
        rfl
      readSeq := by
        rw [hreads, List.length_append, ← h.readSeq]
        rfl }

/-- **Every wakeup moves the clocks as its time says.** -/
theorem wakeupStep_timed {origin : ℕ} {wakeups : List Wakeup} {s : ReadLoop}
    (h : s.Timed origin wakeups) (w : Wakeup) :
    (wakeupStep cfg serde s w).state.Timed origin (wakeups ++ [w]) := by
  cases w with
  | tick after activeStreams =>
      unfold wakeupStep tickStep
      cases s.firstByteAt with
      | none => exact h.ticked after activeStreams rfl rfl rfl rfl
      | some fb =>
          dsimp only
          split_ifs <;> exact h.ticked after activeStreams rfl rfl rfl rfl
  | read after wallUnixMs item =>
      exact (h.pushed after wallUnixMs item).framed (readStep_framed serde s after wallUnixMs item)

/-- The clocks of a run that goes on. -/
theorem run_wakeupStep_timed {origin : ℕ} {earlier : List Wakeup} {s : ReadLoop}
    (h : s.Timed origin earlier) {wakeups : List Wakeup}
    (running : (run (wakeupStep cfg serde) s wakeups).stop = none) :
    (run (wakeupStep cfg serde) s wakeups).state.Timed origin (earlier ++ wakeups) := by
  induction wakeups generalizing s earlier with
  | nil =>
      rw [List.append_nil]
      exact h
  | cons w wakeups ih =>
      have hstep := wakeupStep_timed cfg serde h w
      obtain ⟨-, hrest, hstate⟩ := run_cons_running _ running
      have hrun := ih hstep hrest
      rwa [List.append_assoc, ← hstate] at hrun

theorem timed_start (st : StreamState) (now selectPolls : ℕ) :
    (ReadLoop.start st now selectPolls).Timed now [] := ⟨rfl, rfl, rfl, rfl⟩

/-! ## What the timers are armed for -/

/-- **What the timers are armed for** at the pass behind these wakeups, by their times
alone. -/
structure ReadLoop.Armed (origin : ℕ) (wakeups : List Wakeup) (s : ReadLoop) : Prop where
  stall : s.stallDeadline cfg =
    lastReadBehind origin wakeups + windowBehind cfg origin wakeups
  overall : s.overallArm cfg =
    max (clockBehind origin wakeups) (origin + cfg.overallDeadline)

theorem ReadLoop.Timed.armed {origin : ℕ} {wakeups : List Wakeup} {s : ReadLoop}
    (h : s.Timed origin wakeups) : s.Armed cfg origin wakeups where
  stall := by
    rw [ReadLoop.stallDeadline, ReadLoop.stallWindow, windowBehind, h.lastReadAt, h.readSeq]
    simp only [List.length_eq_zero_iff]
  overall := by
    have hlater : origin ≤ clockBehind origin wakeups := Nat.le_add_right _ _
    rw [ReadLoop.overallArm, ReadLoop.overallRemaining, h.now, h.turnStart]
    omega

/-- The loop that started in `s` comes to the pass `pass` behind these wakeups. -/
def PassBehind (s : ReadLoop) (wakeups : List Wakeup) (pass : ReadLoop) : Prop :=
  (run (wakeupStep cfg serde) s wakeups).stop = none ∧
    (run (wakeupStep cfg serde) s wakeups).state = pass

theorem PassBehind.timed {st : StreamState} {origin selectPolls : ℕ}
    {wakeups : List Wakeup} {pass : ReadLoop}
    (h : PassBehind cfg serde (ReadLoop.start st origin selectPolls) wakeups pass) :
    pass.Timed origin wakeups := by
  obtain ⟨hstop, rfl⟩ := h
  exact run_wakeupStep_timed cfg serde (timed_start st origin selectPolls) hstop

/-- Ticks bring no read. -/
theorem readInstants_of_ticks {now : ℕ} {ticks : List Wakeup}
    (silent : ∀ w ∈ ticks, ∃ after activeStreams, w = .tick after activeStreams) :
    readInstants now ticks = [] := by
  induction ticks generalizing now with
  | nil => rfl
  | cons w ticks ih =>
      obtain ⟨⟨after, activeStreams, rfl⟩, hticks⟩ := List.forall_mem_cons.mp silent
      exact ih hticks

/-! ## What a timer that fired says -/

/-- **A verdict of the clocks is justified** by the times of the run. -/
structure ClockVerdict (origin : ℕ) (body : BodyTrace) (e : LoopEnd) : Prop where
  stall : ∀ secs, e.ended = .wire (.stallTimeout secs) →
    readInstants origin body.wakeups ≠ [] ∧
      ∀ instant ∈ readInstants origin body.wakeups,
        instant + cfg.stallTimeout ≤ e.state.now
  firstByte : ∀ secs, e.ended = .wire (.firstByteBackstop secs) →
    readInstants origin body.wakeups = [] ∧
      origin + cfg.firstByteBackstop ≤ e.state.now
  overall : ∀ secs, e.ended = .wire (.overallDeadline secs) →
    origin + cfg.overallDeadline ≤ e.state.now

/-- An end that is no verdict of the clocks. -/
theorem clockVerdict_of_other {origin : ℕ} {body : BodyTrace} {e : LoopEnd}
    (other : ∀ secs, e.ended ≠ .wire (.stallTimeout secs) ∧
      e.ended ≠ .wire (.firstByteBackstop secs) ∧
        e.ended ≠ .wire (.overallDeadline secs)) : ClockVerdict cfg origin body e where
  stall := fun secs h => absurd h (other secs).1
  firstByte := fun secs h => absurd h (other secs).2.1
  overall := fun secs h => absurd h (other secs).2.2

/-- The overall timer fires no earlier than it is armed for. -/
theorem overallDeadline_clockVerdict {origin : ℕ} {wakeups : List Wakeup} {s : ReadLoop}
    (h : s.Armed cfg origin wakeups) (late : ℕ) :
    ClockVerdict cfg origin ⟨wakeups, .overallDeadline late⟩
      (lastWait cfg serde s (.overallDeadline late)) where
  stall := fun secs ended => by cases ended
  firstByte := fun secs ended => by cases ended
  overall := fun secs _ => by
    have hnow : (lastWait cfg serde s (.overallDeadline late)).state.now =
        s.overallArm cfg + late := rfl
    rw [hnow, h.overall]
    omega

/-- The stall timer fires no earlier than it is armed for, and reports the window it was
armed with. -/
theorem stall_clockVerdict {origin : ℕ} {wakeups : List Wakeup} {s : ReadLoop}
    (h : s.Timed origin wakeups) (late : ℕ) :
    ClockVerdict cfg origin ⟨wakeups, .stall late⟩
      (lastWait cfg serde s (.stall late)) := by
  have hstall := (h.armed cfg).stall
  have hnow : (lastWait cfg serde s (.stall late)).state.now =
      max s.now (s.stallDeadline cfg) + late := rfl
  have hended : (lastWait cfg serde s (.stall late)).ended =
      if s.readSeq = 0 then .wire (.firstByteBackstop (asSecs (s.stallWindow cfg)))
      else .wire (.stallTimeout (asSecs (s.stallWindow cfg))) := by
    simp only [lastWait, LoopEnd.after, ReadLoop.endWire]
    split_ifs <;> rfl
  have hreads : s.readSeq = 0 ↔ readInstants origin wakeups = [] := by
    rw [h.readSeq, List.length_eq_zero_iff]
  rw [windowBehind] at hstall
  constructor
  · intro secs ended
    have hsome : ¬s.readSeq = 0 := fun hnone => by
      rw [hended, if_pos hnone] at ended
      simp at ended
    rw [if_neg fun hnone => hsome (hreads.mpr hnone)] at hstall
    refine ⟨fun hnone => hsome (hreads.mpr hnone), fun instant hinstant => ?_⟩
    have hlast : instant ≤ lastReadBehind origin wakeups := readInstants_le_last hinstant
    rw [hnow, hstall]
    omega
  · intro secs ended
    have hnone : s.readSeq = 0 := by
      by_contra hsome
      rw [hended, if_neg hsome] at ended
      simp at ended
    have hsilent := hreads.mp hnone
    rw [if_pos hsilent, lastReadBehind, hsilent] at hstall
    refine ⟨hsilent, ?_⟩
    rw [hnow, hstall]
    exact Nat.le_add_right_of_le (Nat.le_max_right _ _)
  · intro secs ended
    rw [hended] at ended
    split_ifs at ended <;> simp at ended

/-- **The timer that fires** was armed for what it reports. -/
theorem lastWait_clockVerdict {origin : ℕ} {wakeups : List Wakeup} {s : ReadLoop}
    (h : s.Timed origin wakeups) (last : WaitEnd) :
    ClockVerdict cfg origin ⟨wakeups, last⟩ (lastWait cfg serde s last) := by
  cases last with
  | overallDeadline late => exact overallDeadline_clockVerdict cfg serde (h.armed cfg) late
  | stall late => exact stall_clockVerdict cfg serde h late
  | cancelled after =>
      exact clockVerdict_of_other cfg fun secs => ⟨nofun, nofun, nofun⟩
  | closed after =>
      exact clockVerdict_of_other cfg fun secs => ⟨nofun, nofun, nofun⟩
  | transportError after detail =>
      exact clockVerdict_of_other cfg fun secs => ⟨nofun, nofun, nofun⟩

/-- The verdicts of the clocks over a whole body: wakeups bring none. -/
theorem readLoop_clockVerdict {st : StreamState} {origin selectPolls : ℕ}
    (body : BodyTrace) :
    ClockVerdict cfg origin body
      (readLoop cfg serde (ReadLoop.start st origin selectPolls) body) := by
  cases hstop : (run (wakeupStep cfg serde) (ReadLoop.start st origin selectPolls)
      body.wakeups).stop with
  | some e =>
      have hother : ∀ secs, e ≠ .wire (.stallTimeout secs) ∧
          e ≠ .wire (.firstByteBackstop secs) ∧ e ≠ .wire (.overallDeadline secs) := by
        intro secs
        refine run_stop_of_each (wakeupStep cfg serde) (Q := fun e =>
          e ≠ .wire (.stallTimeout secs) ∧ e ≠ .wire (.firstByteBackstop secs) ∧
            e ≠ .wire (.overallDeadline secs)) (fun s w e stop => ?_) hstop
        rcases wakeupStep_stop_cases cfg serde stop with ⟨resolution, rfl⟩ | rfl | rfl <;> simp
      rw [readLoop_of_stop cfg serde hstop]
      exact clockVerdict_of_other cfg hother
  | none =>
      have htimed := run_wakeupStep_timed cfg serde (timed_start st origin selectPolls) hstop
      have hlast := lastWait_clockVerdict cfg serde htimed body.last
      rw [readLoop_of_running cfg serde hstop]
      exact ⟨hlast.stall, hlast.firstByte, hlast.overall⟩

/-- **The clocks of the read loop**, over all wakeups: at each pass the timers are armed
for times that depend on the reads alone; later wakeups move the overall time only when
it has passed, and ticks do not move the stall time; and the verdicts of the clocks are
justified. -/
theorem readLoop_clocks (st : StreamState) (origin selectPolls : ℕ) :
    (∀ wakeups pass,
        PassBehind cfg serde (ReadLoop.start st origin selectPolls) wakeups pass →
          pass.Armed cfg origin wakeups) ∧
      (∀ wakeups more pass pass',
        PassBehind cfg serde (ReadLoop.start st origin selectPolls) wakeups pass →
          PassBehind cfg serde (ReadLoop.start st origin selectPolls) (wakeups ++ more)
            pass' →
          pass'.overallArm cfg = max pass'.now (pass.overallArm cfg) ∧
            ((∀ w ∈ more, ∃ after activeStreams, w = .tick after activeStreams) →
              pass'.stallDeadline cfg = pass.stallDeadline cfg)) ∧
      ∀ body, ClockVerdict cfg origin body
        (readLoop cfg serde (ReadLoop.start st origin selectPolls) body) := by
  refine ⟨fun wakeups pass h => h.timed.armed cfg, ?_, readLoop_clockVerdict cfg serde⟩
  intro wakeups more pass pass' h h'
  have harmed := h.timed.armed cfg
  have harmed' := h'.timed.armed cfg
  constructor
  · have hlater : clockBehind origin wakeups ≤ clockBehind origin (wakeups ++ more) := by
      simp only [clockBehind, List.map_append, List.sum_append]
      omega
    rw [harmed.overall, harmed'.overall, h'.timed.now]
    omega
  · intro silent
    have hreads : readInstants origin (wakeups ++ more) = readInstants origin wakeups := by
      rw [readInstants_append, readInstants_of_ticks silent, List.append_nil]
    rw [harmed.stall, harmed'.stall, lastReadBehind, lastReadBehind, windowBehind,
      windowBehind, hreads]

end RarChat
