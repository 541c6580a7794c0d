import Mathlib.Algebra.GroupWithZero.Nat
import Mathlib.Data.List.Infix
import Mathlib.Tactic.Common

/-!
# The vocabulary of the Driver boundary

The types of `driver.rs`: the events a streaming call emits, the outcome a
completed call resolves to, and the typed faults an incomplete one resolves to.
`String` is the source's `String`, `ℕ` its `usize` and `u64` (byte counts,
character counts and whole seconds), and `UInt32` its `u32`.
-/

namespace RarChat

/-- One normalized event from the vendor stream, in arrival order. -/
inductive DriverEvent
  | textDelta (text : String)
  | finish (reason : String)
  | usage (promptTokens completionTokens totalTokens : UInt32)
  | done
deriving DecidableEq, Repr

/-- The settled result of one successful streaming call.  `usage` is the
(prompt, completion, total) triple. -/
structure ChatOutcome where
  content : String
  finishReason : String
  usage : Option (UInt32 × UInt32 × UInt32)
deriving DecidableEq, Repr

/-- Typed faults for calls that did not settle into a `ChatOutcome`. -/
inductive DriverFault
  | truncated (partialChars : ℕ)
  | aborted (partialChars : ℕ)
  | stalled (afterSecs : ℕ)
  | bufferOverflow (limitBytes : ℕ)
  | emptyStream
  | protocol (msg : String)
deriving DecidableEq, Repr

/-- `impl fmt::Display for DriverFault`. -/
def DriverFault.display : DriverFault → String
  | .truncated partialChars =>
      s!"stream truncated: connection ended before finish_reason ({partialChars} chars of uncommitted partial output discarded)"
  | .aborted partialChars =>
      s!"stream aborted by handler directive ({partialChars} chars of uncommitted partial output discarded)"
  | .stalled afterSecs => s!"stream stalled: no bytes for {afterSecs}s"
  | .bufferOverflow limitBytes =>
      s!"SSE buffer exceeded {limitBytes} bytes without a frame terminator"
  | .emptyStream => "stream accepted but produced no content before closing"
  | .protocol msg => s!"protocol violation: {msg}"

end RarChat
