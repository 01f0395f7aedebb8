import ConstScript.Command.Arguments
import ConstScript.Command.Interactive

set_option autoImplicit false

/-! # The command as a whole

What the command does with its arguments, given what its files and its standard input hold. -/

namespace ConstScript.Command

variable [Hashing] (texts : Texts) (depth : Nat)

/-- Runs a program on its own, in a new scope. -/
def runAlone (source : String) : Option Exit := do
  let (written, _) ← runText depth Session.start.1 source Session.start.2
  return ⟨0, written⟩

/-- Runs the program a file holds. -/
def runFile (path : String) : Except ReadFailure (List UInt8) → Option Exit
  | .ok bytes =>
    match decodeText bytes with
    | .ok source => runAlone depth source
    | .error failure => some (failed failure)
  | .error failure => some (failed failure)
where
  /-- How the command ends if the file cannot be read. -/
  failed (failure : ReadFailure) : Exit :=
    ⟨1, failure.report texts ("the input file '" ++ path ++ "'")⟩

/-- Runs the command with at most `depth` nested calls: `readFile` says what files hold, `stdin` is
    the whole standard input. -/
def run (readFile : String → Except ReadFailure (List UInt8)) (stdin : List UInt8)
    (args : List String) : Option Exit :=
  match Invocation.ofArguments args with
  | .version => some ⟨0, ⟨texts.version, ""⟩⟩
  | .help => some ⟨0, ⟨texts.help, ""⟩⟩
  | .rejected => some ⟨2, ⟨"", texts.usage args⟩⟩
  | .interactive => runLines texts depth Session.start.1 (lines stdin) Session.start.2
  | .text source => runAlone depth source
  | .file path => runFile texts depth path (readFile path)

end ConstScript.Command
