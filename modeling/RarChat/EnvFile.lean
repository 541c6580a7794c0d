import Mathlib.Data.List.DropRight
import RarChat.Text

/-!
# The configuration source

`env_file.rs`: the one lookup path of every setting.  An operator's file comes first, the
process environment second, and there is no third.  The process environment is an input,
and so is what reading the file comes to.

A file is read line by line, to its first fault.  What a line says is `parseLine`; the
message about a fault is a function of the path, the number of the line and the fault.
-/

namespace RarChat

/-- The process environment, as `std::env::var(key).ok()`. -/
abbrev ProcessEnv := String → Option String

/-- The entries of the file, the latest one first, and the path they came from. -/
structure EnvSource where
  fileEntries : List (String × String)
  origin : Option String
deriving DecidableEq, Repr

namespace EnvSource

/-- A source backed only by the process environment. -/
def processOnly : EnvSource := ⟨[], none⟩

/-- The one lookup path. -/
def get (src : EnvSource) (process : ProcessEnv) (key : String) : Option String :=
  match src.fileEntries.lookup key with
  | some v => some v
  | none => process key

end EnvSource

/-! ## Methods of `str` -/

/-- `str::trim_start`. -/
def trimStart (text : List Char) : List Char := text.dropWhile isWhitespace

/-- `str::trim`, on characters. -/
def trimChars (text : List Char) : List Char := (trimStart text).rdropWhile isWhitespace

/-- `"export "`. -/
def exportWord : List Char := ['e', 'x', 'p', 'o', 'r', 't', ' ']

/-- `line.strip_prefix("export ").unwrap_or(line)`. -/
def stripExport (line : List Char) : List Char :=
  if exportWord <+: line then line.drop exportWord.length else line

/-! ## Lines -/

def doubleQuote : Char := '\x22'

def singleQuote : Char := '\x27'

/-- Strip one layer of quotes, when the same quote character opens and closes the value. -/
def stripMatchingQuotes (v : List Char) : List Char :=
  if 2 ≤ v.length ∧ (v.head? = some doubleQuote ∨ v.head? = some singleQuote) ∧
      v.getLast? = v.head? then
    v.tail.dropLast
  else v

/-- What is wrong with a line. -/
inductive LineFault
  | notAPair
  | malformedKey
deriving DecidableEq, Repr

/-- The message about a fault: position, not content. -/
def LineFault.message (path : String) (lineNumber : ℕ) : LineFault → String
  | .notAPair => s!"{path}:{lineNumber}: expected KEY=VALUE, comment, or blank line"
  | .malformedKey => s!"{path}:{lineNumber}: malformed key"

/-- One line: the entry it makes, if it is not skipped. -/
def parseLine (raw : List Char) : Except LineFault (Option (String × String)) :=
  let line := trimChars raw
  if line = [] ∨ line.head? = some '#' then .ok none
  else
    match splitOnce '=' (trimStart (stripExport line)) with
    | none => .error .notAPair
    | some (key, value) =>
        let key := trimChars key
        if key = [] ∨ key.any isWhitespace then .error .malformedKey
        else
          .ok (some (String.ofList key,
            String.ofList (stripMatchingQuotes (trimChars value))))

/-! ## Files -/

/-- The loop over the lines, from line `idx` on. -/
def loadLines (path : String) :
    ℕ → List (String × String) → List (List Char) →
      Except String (List (String × String))
  | _, entries, [] => .ok entries
  | idx, entries, raw :: lines =>
      match parseLine raw with
      | .error fault => .error (fault.message path (idx + 1))
      | .ok none => loadLines path (idx + 1) entries lines
      | .ok (some entry) => loadLines path (idx + 1) (entry :: entries) lines

/-- Load a file; `text` is what it was read as, if it could be read. -/
def fromFile (path : String) (text : Option String) : Except String EnvSource :=
  match text with
  | none => .error s!"cannot read env file {path}"
  | some text =>
      match loadLines path 0 [] (lines text.toList) with
      | .error e => .error e
      | .ok entries => .ok ⟨entries, some path⟩

end RarChat
