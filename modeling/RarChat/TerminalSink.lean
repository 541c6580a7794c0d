import RarChat.Bookkeeping

/-!
# The terminal

The first observer sink of `ports.rs`: it renders the records that a reader at the terminal
is to see, the text on `stdout` and everything else on `stderr`.  Normalized events are its
single source of text, those of a recovered tail included (`screen_eq`).
-/

namespace RarChat

/-- A call of `print!` or `eprintln!`. -/
inductive Printed
  | stdout (text : String)
  | stderr (line : String)
deriving DecidableEq, Repr

def Printed.stdout? : Printed → Option String
  | .stdout text => some text
  | .stderr _ => none

/-- What an event is rendered as. -/
def DriverEvent.printed : DriverEvent → Option Printed
  | .textDelta t => some (.stdout t)
  | .finish reason => some (.stderr s!"\n[SYSTEM] Stream completed. Exit Reason: {reason}")
  | .usage promptTokens completionTokens totalTokens =>
      some (.stderr
        s!"[ACCOUNTING] Prompt: {promptTokens}, Completion: {completionTokens}, Total: {totalTokens}")
  | .done => none

/-- `TerminalSink::write`. -/
def TerminalSink.write : EmissionRecord → Option Printed
  | .normalizedEvent _ _ _ event => event.printed
  | .wire _ _ (.ttft ms) => some (.stderr s!"\n[METRIC] TTFT: {ms}ms")
  | .wire _ _ (.unhandledChannel channel) =>
      some (.stderr
        s!"\n[WIRE] unhandled channel present: {channel} (surfaced, not interpreted)")
  | .anomaly _ _ note => some (.stderr s!"\n[ANOMALY] {note}")
  | .normalizationError _ _ _ detail =>
      some (.stderr s!"\n[WIRE-ERROR] normalization failed: {detail}")
  | .undecodableInstallment _ _ _ bytes error hexPrefix =>
      some (.stderr s!"\n[WIRE-ERROR] undecodable frame ({bytes}b): {error} [{hexPrefix}]")
  | .residue _ _ bytes _ =>
      some (.stderr s!"\n[WIRE-ERROR] {bytes}b unframed residue at stream end")
  | .captureDrop dropped =>
      some (.stderr s!"\n[CAPTURE] {dropped} record(s) dropped under load")
  | _ => none

/-- What the sink writes to `stdout`. -/
def screen (records : List EmissionRecord) : String :=
  String.join ((records.filterMap TerminalSink.write).filterMap Printed.stdout?)

/-- Only the text of a normalized event goes to `stdout`. -/
theorem stdout?_write (r : EmissionRecord) :
    (TerminalSink.write r).bind Printed.stdout? = r.event?.bind DriverEvent.text? := by
  cases r with
  | normalizedEvent stream attempt seq event => cases event <;> rfl
  | wire stream attempt note => cases note <;> rfl
  | _ => rfl

/-- **The screen shows the text of the normalized events.** -/
theorem screen_eq (records : List EmissionRecord) : screen records = textOf (eventsOf records) := by
  rw [screen, textOf, eventsOf, List.filterMap_filterMap, List.filterMap_filterMap]
  exact congrArg String.join (List.filterMap_congr fun r _ => stdout?_write r)

theorem screen_append (xs ys : List EmissionRecord) :
    screen (xs ++ ys) = screen xs ++ screen ys := by
  rw [screen_eq, screen_eq, screen_eq, eventsOf_append, textOf_append]

end RarChat
