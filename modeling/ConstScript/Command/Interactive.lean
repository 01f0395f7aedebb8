import ConstScript.Command.Console

set_option autoImplicit false

/-! # Interactive sessions

An interactive session runs the lines of the standard input one after another in one scope, and
writes a prompt before it reads each of them, also before the reading that finds the end of the
input. A line that is not valid UTF-8 ends the session with exit code 1. The session does not end if
calls are nested too deeply in one of its lines. -/

namespace ConstScript.Command

/-- What is written before a line is read. -/
def prompt : String := ">> "

/-- The first line of an input, with the line feed that ends it, and the bytes after it. -/
def firstLine : List UInt8 → List UInt8 × List UInt8
  | [] => ([], [])
  | b :: bytes =>
    if b = 10 then ([b], bytes)
    else
      let (line, rest) := firstLine bytes
      (b :: line, rest)

theorem length_firstLine_lt (b : UInt8) (bytes : List UInt8) :
    (firstLine (b :: bytes)).2.length < (b :: bytes).length := by
  have hle : ∀ bytes : List UInt8, (firstLine bytes).2.length ≤ bytes.length := by
    intro bytes
    induction bytes with
    | nil => simp [firstLine]
    | cons c bytes ih =>
      unfold firstLine
      split
      · simp
      · simp only [List.length_cons]
        omega
  unfold firstLine
  split
  · simp
  · have := hle bytes
    simp only [List.length_cons]
    omega

/-- The lines of an input, each with the line feed that ends it; the last one may have none. -/
def lines (bytes : List UInt8) : List (List UInt8) :=
  match bytes with
  | [] => []
  | b :: bytes => (firstLine (b :: bytes)).1 :: lines (firstLine (b :: bytes)).2
termination_by bytes.length
decreasing_by exact length_firstLine_lt b bytes

variable [Hashing] (texts : Texts) (depth : Nat) (scope : ScopeId)

/-- Runs one line of a session, with at most `depth` nested calls. -/
def runLine (line : List UInt8) (st : Store) : Option (Except Written (Written × Store)) :=
  match decodeText line with
  | .ok source => (runText depth scope source st).map .ok
  | .error failure => some (.error (failure.report texts "from stdin"))

/-- Runs the lines of a session. -/
def runLines : List (List UInt8) → Store → Option Exit
  | [], _ => some ⟨0, ⟨prompt, ""⟩⟩
  | line :: rest, st => do
    match ← runLine texts depth scope line st with
    | .error written => return ⟨1, ⟨prompt, ""⟩ ++ written⟩
    | .ok (written, st') =>
      let exit ← runLines rest st'
      return ⟨exit.code, ⟨prompt, ""⟩ ++ written ++ exit.written⟩

end ConstScript.Command
