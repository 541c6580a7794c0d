import RarChat.ReadLoop

/-!
# What one pass of the read loop can do

One law for each kind of pass.  A frame leaves the clock, the buffer and the timers
alone and can only leave the loop by finalizing (`frameStep_cases`); a read either
overflows and returns, or runs through the frames it completes
(`readStep_of_overflow`, `readStep_of_fits`); a tick moves the meter, or returns
(`tickStep_cases`).
-/

namespace RarChat

open EarlyExit

variable (cfg : OpenAiConfig) (serde : SerdeJson)

/-! ## Frames -/

/-- The bookkeeping of frames, the stream and the meter moved, and nothing else. -/
def ReadLoop.Framed (s s' : ReadLoop) : Prop :=
  ∃ st instSeq spanStart ttft content,
    s' = { s with
      st := st
      instSeq := instSeq
      spanStart := spanStart
      ttftEmitted := ttft
      contentBytesThisSec := content }

theorem ReadLoop.Framed.refl (s : ReadLoop) : s.Framed s := ⟨_, _, _, _, _, rfl⟩

theorem ReadLoop.Framed.trans {s s' s'' : ReadLoop} (h : s.Framed s')
    (h' : s'.Framed s'') : s.Framed s'' := by
  obtain ⟨_, _, _, _, _, rfl⟩ := h
  obtain ⟨_, _, _, _, _, rfl⟩ := h'
  exact ⟨_, _, _, _, _, rfl⟩

theorem ReadLoop.Framed.parser {s s' : ReadLoop} (h : s.Framed s') :
    s'.parser = s.parser := by
  obtain ⟨_, _, _, _, _, rfl⟩ := h
  rfl

/-- Following a directive goes on, or finalizes. -/
theorem follow_cases (s : ReadLoop) (gained : ℕ)
    (result : Except DriverFault FlowDirective) :
    s.Framed (s.follow gained result).state ∧
      ∀ e, (s.follow gained result).stop = some e →
        ∃ resolution, e = .complete resolution := by
  unfold ReadLoop.follow
  split
  · exact ⟨⟨_, _, _, _, _, rfl⟩, fun e he => by cases he⟩
  all_goals exact ⟨⟨_, _, _, _, _, rfl⟩, fun e he => ⟨_, (Option.some.inj he).symm⟩⟩

/-- The loop behind the refinement of a data frame. -/
def ReadLoop.refinedTo (s : ReadLoop) (st : StreamState) : ReadLoop :=
  { s with instSeq := s.instSeq + 1, spanStart := s.readSeq, st := st, ttftEmitted := true }

/-- What a data frame does with what its refinement left. -/
def ReadLoop.dataOutcome (s : ReadLoop) (gap : ℕ) (ev : SseEvent) (text : String)
    (step : InstallmentStep) : LoopOutcome :=
  ((s.refinedTo step.state).follow (step.state.contentBytes - s.st.contentBytes)
    step.result).after (s.dataRecords gap ev text step.records)

/-- A data frame, with its refinement as an argument that proofs can abstract. -/
theorem frameStep_of_data {ev : SseEvent} {text : String}
    (payload : ev.payload = .data text) (gap : ℕ) (s : ReadLoop) :
    frameStep serde gap s ev =
      s.dataOutcome gap ev text
        (onInstallment serde s.st (s.instSeq + 1) .data text .complete) := by
  simp only [frameStep, payload, ReadLoop.dataOutcome, ReadLoop.refinedTo]

/-- **What a frame can do.** -/
theorem frameStep_cases (gap : ℕ) (s : ReadLoop) (ev : SseEvent) :
    s.Framed (frameStep serde gap s ev).state ∧
      ∀ e, (frameStep serde gap s ev).stop = some e →
        ∃ resolution, e = .complete resolution := by
  cases hpayload : ev.payload with
  | undecodable raw error =>
      simp only [frameStep, hpayload]
      exact ⟨⟨_, _, _, _, _, rfl⟩, fun e he => by cases he⟩
  | comment text =>
      simp only [frameStep, hpayload]
      exact ⟨⟨_, _, _, _, _, rfl⟩, fun e he => by cases he⟩
  | data text =>
      rw [frameStep_of_data serde hpayload]
      generalize onInstallment serde s.st _ _ _ _ = step
      obtain ⟨hframed, hstop⟩ := follow_cases (s.refinedTo step.state)
        (step.state.contentBytes - s.st.contentBytes) step.result
      exact ⟨ReadLoop.Framed.trans ⟨_, _, _, _, _, rfl⟩ hframed, hstop⟩

/-- What the frames of a read can do. -/
theorem run_frameStep_cases (gap : ℕ) (s : ReadLoop) (evs : List SseEvent) :
    s.Framed (run (frameStep serde gap) s evs).state ∧
      ∀ e, (run (frameStep serde gap) s evs).stop = some e →
        ∃ resolution, e = .complete resolution :=
  ⟨run_state_of_invariant (frameStep serde gap) (I := s.Framed)
      (fun t ev h => h.trans (frameStep_cases serde gap t ev).1) (.refl s) evs,
    fun _ => run_stop_of_each (frameStep serde gap)
      fun t ev => (frameStep_cases serde gap t ev).2⟩

/-- The frames of a read leave the buffer alone. -/
theorem parser_run_frameStep (gap : ℕ) (s : ReadLoop) (evs : List SseEvent) :
    (run (frameStep serde gap) s evs).state.parser = s.parser :=
  (run_frameStep_cases serde gap s evs).1.parser

/-- The tail never leaves its loop. -/
theorem tailStep_running (s : ReadLoop) (ev : SseEvent) :
    (tailStep serde s ev).stop = none := by
  unfold tailStep
  cases ev.payload <;> rfl

/-! ## Reads -/

/-- The state a read leaves to its frames. -/
def ReadLoop.afterPush (s : ReadLoop) (instant : ℕ) (item : List UInt8) : ReadLoop :=
  { s.beginRead instant with
    parser := { s.parser with buf := frameRest (s.parser.buf ++ item) } }

/-- **A read that overflows** returns behind its record. -/
theorem readStep_of_overflow {s : ReadLoop} {item : List UInt8}
    (overflow : s.parser.limitBytes < (frameRest (s.parser.buf ++ item)).length)
    (after wallUnixMs : ℕ) :
    readStep serde s after wallUnixMs item =
      (((s.afterPush (s.now + after) item).endWire
        (.bufferOverflow s.parser.limitBytes)).after
          [s.readRecord (s.now + after) wallUnixMs item.length]).returned := by
  simp only [readStep, SseParser.push_eq, overflow, if_true]
  rfl

/-- **A read that fits** runs through the frames it completes. -/
theorem readStep_of_fits {s : ReadLoop} {item : List UInt8}
    (fits : ¬s.parser.limitBytes < (frameRest (s.parser.buf ++ item)).length)
    (after wallUnixMs : ℕ) :
    readStep serde s after wallUnixMs item =
      (run (frameStep serde (s.now + after - s.lastReadAt))
        (s.afterPush (s.now + after) item)
        (frameEvents (s.parser.buf ++ item))).after
          [s.readRecord (s.now + after) wallUnixMs item.length] := by
  simp only [readStep, SseParser.push_eq, fits, if_false]
  rfl

/-- **Of what a read takes in**, the frames move what frames move. -/
theorem readStep_framed (s : ReadLoop) (after wallUnixMs : ℕ) (item : List UInt8) :
    (s.afterPush (s.now + after) item).Framed (readStep serde s after wallUnixMs item).state := by
  by_cases hlong : s.parser.limitBytes < (frameRest (s.parser.buf ++ item)).length
  · rw [readStep_of_overflow serde hlong]
    exact .refl _
  · rw [readStep_of_fits serde hlong]
    exact (run_frameStep_cases serde _ _ _).1

/-! ## Ticks -/

/-- The clock and the throughput meter moved, and nothing else. -/
def ReadLoop.Ticked (s s' : ReadLoop) : Prop :=
  ∃ now polls ema starved content,
    s' = { s with
      now := now
      selectPolls := polls
      emaBps := ema
      starvedDur := starved
      contentBytesThisSec := content }

/-- **What a tick can do**: nothing but metering, or end the attempt as starved;
what it emits first are scheduler notes. -/
theorem tickStep_cases (s : ReadLoop) (after activeStreams : ℕ) :
    ∃ (s' : ReadLoop) (notes : List SchedNote), s.Ticked s' ∧
      (tickStep cfg s after activeStreams =
          ⟨s', notes.map (.scheduler s.st.streamId s.st.attempt), none⟩ ∨
        tickStep cfg s after activeStreams =
          ((s'.endWire (.throughputStarved cfg.throughputFloorBps
            (asSecs cfg.throughputSustained))).after
              (notes.map (.scheduler s.st.streamId s.st.attempt))).returned) := by
  unfold tickStep
  cases s.firstByteAt with
  | none => exact ⟨_, [], ⟨_, _, _, _, _, rfl⟩, .inl rfl⟩
  | some fb =>
      simp only
      split_ifs
      · exact ⟨_, [_], ⟨_, _, _, _, _, rfl⟩, .inr rfl⟩
      · exact ⟨_, [_], ⟨_, _, _, _, _, rfl⟩, .inl rfl⟩

/-! ## Wakeups -/

/-- **What a wakeup can end the attempt with**: a verdict, an overflow, or starvation. -/
theorem wakeupStep_stop_cases {s : ReadLoop} {w : Wakeup} {e : AttemptEnd}
    (stop : (wakeupStep cfg serde s w).stop = some e) :
    (∃ resolution, e = .complete resolution) ∨
      e = .wire (.bufferOverflow s.parser.limitBytes) ∨
        e = .wire (.throughputStarved cfg.throughputFloorBps
          (asSecs cfg.throughputSustained)) := by
  cases w with
  | tick after activeStreams =>
      obtain ⟨s', notes, -, hstep | hstep⟩ := tickStep_cases cfg s after activeStreams
      · rw [wakeupStep, hstep] at stop
        cases stop
      · rw [wakeupStep, hstep] at stop
        exact .inr (.inr (Option.some.inj stop).symm)
  | read after wallUnixMs item =>
      rw [wakeupStep] at stop
      by_cases hlong : s.parser.limitBytes < (frameRest (s.parser.buf ++ item)).length
      · rw [readStep_of_overflow serde hlong] at stop
        exact .inr (.inl (Option.some.inj stop).symm)
      · rw [readStep_of_fits serde hlong] at stop
        exact .inl ((run_frameStep_cases serde _ _ _).2 e stop)

end RarChat
