import RarChat.Attempt
import RarChat.Digest
import RarChat.Passes

/-!
# The result of an attempt does not depend on read boundaries

`Delivers` says that a wire hands a body to the read loop in some division into
reads, followed by a peer close, and that neither the throughput guard nor the
buffer bound interferes.  The read loop then produces the digest of the body
(`readLoop_agrees`), so two deliveries of one body resolve alike and leave the
same evidence (`runAttempt_delivery_independent`).
-/

namespace RarChat

open EarlyExit

/-! ## Deliveries -/

/-- The bytes a wakeup brings. -/
def Wakeup.item : Wakeup → List UInt8
  | .tick _ _ => []
  | .read _ _ item => item

/-- The bytes all reads bring, in order. -/
def bodyBytes (wakeups : List Wakeup) : List UInt8 := wakeups.flatMap Wakeup.item

/-- The wakeup is a tick that does not declare starvation, or a read that does
not overflow the buffer.  These two are the ways in which a wakeup ends an attempt by how
the body arrives and not by what it says: the evaluator counts the bytes of a window, and
the bound is on what a push leaves behind its last terminator, so another division of the
same body into reads may meet neither.  An attempt whose wakeups are all undisturbed is
ended by its frames or by its last wait. -/
def Undisturbed (cfg : OpenAiConfig) (s : ReadLoop) : Wakeup → Prop
  | .tick after activeStreams => (tickStep cfg s after activeStreams).stop = none
  | .read _ _ item => (s.parser.push item).2.isOk = true

instance (cfg : OpenAiConfig) (s : ReadLoop) : DecidablePred (Undisturbed cfg s)
  | .tick after activeStreams =>
      inferInstanceAs (Decidable ((tickStep cfg s after activeStreams).stop = none))
  | .read _ _ item => inferInstanceAs (Decidable ((s.parser.push item).2.isOk = true))

variable (cfg : OpenAiConfig) (serde : SerdeJson)

/-- **The wire delivers `body`** to an attempt begun in `st` at instant `now`: the
response is accepted as an event stream, its reads divide `body`, the peer then
closes, and nothing else ends the attempt. -/
def Delivers (st : StreamState) (selectPolls now : ℕ) (wire : Wire)
    (body : List UInt8) : Prop :=
  ∃ after wakeups closedAfter,
    wire.framed = some (after, ⟨wakeups, .closed closedAfter⟩) ∧
      bodyBytes wakeups = body ∧
      Along (wakeupStep cfg serde) (Undisturbed cfg)
        (ReadLoop.start st (now + after) selectPolls) wakeups

/-! ## One wakeup -/

theorem run_frameStep_agrees (gap : ℕ) (s : ReadLoop) (evs : List SseEvent) :
    (run (frameStep serde gap) s evs).Agrees ReadLoop.HasDigest
      EmissionRecord.evidence some (run (Digest.step serde) s.digest evs) :=
  run_agrees (frameStep_agrees serde gap) (rfl : s.HasDigest s.digest) evs

/-- A frame stops the loop exactly when it has a verdict. -/
theorem frameStep_running_iff (gap : ℕ) (s : ReadLoop) (ev : SseEvent) :
    (frameStep serde gap s ev).stop = none ↔ frameVerdict serde ev = none := by
  rw [(frameStep_agrees serde gap s s.digest ev rfl).stop]
  exact Digest.step_running_iff serde s.digest ev

/-- What an undisturbed read does: its frames are steps of the digest, and the
rest behind them stays in the buffer. -/
theorem readStep_undisturbed {s : ReadLoop} {item : List UInt8}
    (ok : (s.parser.push item).2.isOk = true) (after wallUnixMs : ℕ) :
    (readStep serde s after wallUnixMs item).Agrees ReadLoop.HasDigest
        EmissionRecord.evidence some
        (run (Digest.step serde) s.digest (frameEvents (s.parser.buf ++ item))) ∧
      (readStep serde s after wallUnixMs item).state.parser =
        { s.parser with buf := frameRest (s.parser.buf ++ item) } := by
  rw [SseParser.push_eq] at ok
  have hfits : ¬s.parser.limitBytes <
      (frameRest (s.parser.buf ++ item)).length := fun h => by
    simp [h, Except.isOk, Except.toBool] at ok
  rw [readStep_of_fits serde hfits]
  refine ⟨?_, parser_run_frameStep serde _ _ _⟩
  exact (run_frameStep_agrees serde _ _ _).after_unobserved rfl

/-- An undisturbed tick is invisible in the digest. -/
theorem tickStep_undisturbed {s : ReadLoop} {after activeStreams : ℕ}
    (running : (tickStep cfg s after activeStreams).stop = none) :
    (tickStep cfg s after activeStreams).Agrees ReadLoop.HasDigest
        EmissionRecord.evidence some ⟨s.digest, [], none⟩ ∧
      (tickStep cfg s after activeStreams).state.parser = s.parser := by
  obtain ⟨s', notes, ⟨_, _, _, _, _, rfl⟩, hstep | hstep⟩ :=
    tickStep_cases cfg s after activeStreams
  · rw [hstep]
    exact ⟨⟨rfl, filterMap_map_eq_nil (fun _ => rfl) notes, rfl⟩, rfl⟩
  · rw [hstep] at running
    cases running

/-! ## The whole body -/

/-- **Undisturbed wakeups** do what the digest does with their bytes. -/
theorem run_wakeupStep_agrees {s : ReadLoop}
    (between : frameRest s.parser.buf = s.parser.buf) {wakeups : List Wakeup}
    (quiet : Along (wakeupStep cfg serde) (Undisturbed cfg) s wakeups) :
    (run (wakeupStep cfg serde) s wakeups).Agrees ReadLoop.HasDigest
        EmissionRecord.evidence some
        (run (Digest.step serde) s.digest
          (frameEvents (s.parser.buf ++ bodyBytes wakeups))) ∧
      ((run (wakeupStep cfg serde) s wakeups).stop = none →
        (run (wakeupStep cfg serde) s wakeups).state.parser.buf =
          frameRest (s.parser.buf ++ bodyBytes wakeups)) := by
  induction wakeups generalizing s with
  | nil =>
      rw [show bodyBytes [] = [] from rfl, List.append_nil,
        frameEvents_of_rest between, between]
      exact ⟨⟨rfl, rfl, rfl⟩, fun _ => rfl⟩
  | cons w wakeups ih =>
      obtain ⟨hw, hlater⟩ := (along_cons _ _ _ _ _).mp quiet
      cases w with
      | tick after activeStreams =>
          obtain ⟨hagrees, hparser⟩ := tickStep_undisturbed cfg hw
          have hstate : (tickStep cfg s after activeStreams).state.digest = s.digest :=
            hagrees.state
          have hout := hagrees.out
          obtain ⟨hrun, hbuf⟩ := ih (by rw [wakeupStep, hparser, between]) (hlater hw)
          simp only [wakeupStep, hparser, hstate] at hrun hbuf
          have hstop : (wakeupStep cfg serde s
              (.tick after activeStreams)).stop = none := hw
          rw [run_cons_of_running (wakeupStep cfg serde) hstop]
          exact ⟨hrun.after_unobserved hout, hbuf⟩
      | read after wallUnixMs item =>
          obtain ⟨hagrees, hparser⟩ :=
            readStep_undisturbed serde hw after wallUnixMs
          -- frame by frame: those this read completes, then those of the later reads
          have hsplit : s.parser.buf ++ bodyBytes (.read after wallUnixMs item ::
              wakeups) = (s.parser.buf ++ item) ++ bodyBytes wakeups := by
            simp [bodyBytes, Wakeup.item]
          rw [hsplit, frameEvents_append (s.parser.buf ++ item),
            frameRest_append (s.parser.buf ++ item), run_append]
          cases hstop : (wakeupStep cfg serde s
              (.read after wallUnixMs item)).stop with
          | some e =>
              -- a frame of this read stops the loop, and the digest at the same frame
              rw [run_cons_of_stop (wakeupStep cfg serde) hstop,
                Outcome.andThen_of_stop (hagrees.stop.symm.trans hstop)]
              refine ⟨hagrees, fun hnone => ?_⟩
              rw [hstop] at hnone
              cases hnone
          | none =>
              obtain ⟨hrun, hbuf⟩ :=
                ih (s := (readStep serde s after wallUnixMs item).state)
                  (by rw [hparser, frameRest_idem]) (hlater hstop)
              rw [hparser] at hrun hbuf
              rw [run_cons_of_running (wakeupStep cfg serde) hstop,
                Outcome.andThen_of_running (hagrees.stop.symm.trans hstop),
                ← hagrees.state]
              exact ⟨hrun.after hagrees.out, hbuf⟩

/-- The read loop as a loop followed by its last wait. -/
theorem readLoop_returned (s : ReadLoop) (body : BodyTrace) :
    (readLoop cfg serde s body).returned =
      (run (wakeupStep cfg serde) s body.wakeups).andThen fun s' =>
        (lastWait cfg serde s' body.last).returned := by
  cases hstop : (run (wakeupStep cfg serde) s body.wakeups).stop with
  | some e =>
      rw [readLoop_of_stop cfg serde hstop, Outcome.andThen_of_stop hstop]
      simp only [LoopEnd.returned, ← hstop]
  | none =>
      rw [readLoop_of_running cfg serde hstop, Outcome.andThen_of_running hstop]
      rfl

/-- **The read loop produces the digest of the body it is delivered.** -/
theorem readLoop_agrees {s : ReadLoop} (fresh : s.parser.buf = [])
    {wakeups : List Wakeup}
    (quiet : Along (wakeupStep cfg serde) (Undisturbed cfg) s wakeups)
    (closedAfter : ℕ) :
    (readLoop cfg serde s ⟨wakeups, .closed closedAfter⟩).returned.Agrees
      ReadLoop.HasDigest EmissionRecord.evidence some
      (s.digest.ofBytes serde (bodyBytes wakeups)) := by
  obtain ⟨hrun, hbuf⟩ :=
    run_wakeupStep_agrees cfg serde (by rw [fresh, frameRest_nil]) quiet
  rw [fresh, List.nil_append] at hrun hbuf
  rw [readLoop_returned, Digest.ofBytes]
  refine hrun.andThen fun hstop => ?_
  have hpeer := peerClosed_agrees serde
    ((run (wakeupStep cfg serde) s wakeups).state.wakeAt
      ((run (wakeupStep cfg serde) s wakeups).state.now + closedAfter))
  rw [← hrun.state, ← hbuf hstop]
  exact hpeer

/-- What a delivered attempt leaves is the digest of its body. -/
theorem runAttempt_of_delivers {st : StreamState} {selectPolls now : ℕ} {wire : Wire}
    {body : List UInt8} (delivers : Delivers cfg serde st selectPolls now wire body)
    (messages : List Message) :
    some (runAttempt cfg serde messages st selectPolls now wire).ended =
        (Digest.ofBytes serde ⟨st.streamId, st.attempt, 0, st.machine,
          st.sawAnyContent⟩ body).stop ∧
      (runAttempt cfg serde messages st selectPolls now wire).records.filterMap
          EmissionRecord.evidence =
        (Digest.ofBytes serde ⟨st.streamId, st.attempt, 0, st.machine,
          st.sawAnyContent⟩ body).out := by
  obtain ⟨after, wakeups, closedAfter, hframed, rfl, hquiet⟩ := delivers
  have hloop := readLoop_agrees cfg serde rfl hquiet closedAfter
  have hout := hloop.out
  rw [List.filterMap_some] at hout
  rw [runAttempt_of_framed cfg serde hframed messages st selectPolls now]
  exact ⟨hloop.stop, hout⟩

/-- **The result of an attempt does not depend on read boundaries.** -/
theorem runAttempt_delivery_independent (messages : List Message) (st : StreamState)
    (body : List UInt8)
    {selectPolls selectPolls' now now' : ℕ} {wire wire' : Wire}
    (one : Delivers cfg serde st selectPolls now wire body)
    (other : Delivers cfg serde st selectPolls' now' wire' body) :
    (∃ resolution,
      (runAttempt cfg serde messages st selectPolls now wire).ended =
          .complete resolution ∧
        (runAttempt cfg serde messages st selectPolls' now' wire').ended =
          .complete resolution) ∧
      (runAttempt cfg serde messages st selectPolls now wire).records.filterMap
          EmissionRecord.evidence =
        (runAttempt cfg serde messages st selectPolls' now' wire').records.filterMap
          EmissionRecord.evidence := by
  obtain ⟨hended, hrecords⟩ := runAttempt_of_delivers cfg serde one messages
  obtain ⟨hended', hrecords'⟩ := runAttempt_of_delivers cfg serde other messages
  obtain ⟨resolution, hresolution⟩ := Digest.ofBytes_complete serde
    ⟨st.streamId, st.attempt, 0, st.machine, st.sawAnyContent⟩ body
  rw [hresolution] at hended hended'
  refine ⟨⟨resolution, Option.some.inj hended, Option.some.inj hended'⟩, ?_⟩
  rw [hrecords, hrecords']

/-- An event stream that brings the given reads at once and is then closed. -/
def streamOf (reads : List (List UInt8)) : Wire :=
  .response 0 ⟨200, some "text/event-stream; charset=utf-8", .failed 0,
    ⟨reads.map (.read 0 0), .closed 0⟩⟩

theorem streamOf_framed (reads : List (List UInt8)) :
    (streamOf reads).framed = some (0, ⟨reads.map (.read 0 0), .closed 0⟩) := by
  have haccepted : isSuccess 200 ∧
      contains "text/event-stream; charset=utf-8" "text/event-stream" := by
    decide +kernel
  exact if_pos haccepted

/-- The endpoint of the examples. -/
def exampleConfig : OpenAiConfig where
  baseUrl := "https://api.openai.com/v1"
  apiKey := "key"
  model := "model"
  requestUsage := true
  stallTimeout := 30 * nanosPerSec
  firstByteBackstop := 120 * nanosPerSec
  overallDeadline := 600 * nanosPerSec
  throughputFloorBps := 1
  throughputSustained := 20 * nanosPerSec
  systemPrompt := none

/-- A keep-alive comment and a rejected chunk, in one read and in three. -/
theorem runAttempt_delivery_independent_split :
    let st := (StreamState.new 1).beginAttempt
    let whole := streamOf [asBytes ": hi\n\ndata: \x7b\n\n"]
    let parts := streamOf
      [asBytes ": hi\n", asBytes "\ndata: \x7b", asBytes "\n\n"]
    (runAttempt exampleConfig (.ofTable []) [] st 0 0 whole).records.filterMap
        EmissionRecord.evidence =
      (runAttempt exampleConfig (.ofTable []) [] st 0 0 parts).records.filterMap
        EmissionRecord.evidence :=
  (runAttempt_delivery_independent exampleConfig (.ofTable []) []
    (StreamState.new 1).beginAttempt (asBytes ": hi\n\ndata: \x7b\n\n")
    ⟨0, _, 0, streamOf_framed _, by decide +kernel, by decide +kernel⟩
    ⟨0, _, 0, streamOf_framed _, by decide +kernel, by decide +kernel⟩).2

end RarChat
