import ConstScript.Session

set_option autoImplicit false

/-! # What a command writes

A command writes to its standard output and its standard error and ends with an exit code.
Whatever programs print goes to the standard output, and so does the value of a source text
unless it is `null`; runtime errors and syntax errors go to the standard error and do not change
the exit code. A source text during which calls are nested too deeply has no result, and the command
does not end then: `none` stands for this.

How wrong arguments and failures are put into words is left open. -/

namespace ConstScript.Command

/-- What was written to the standard output and to the standard error. -/
structure Written where
  out : String
  err : String

/-- A command that ended: its exit code and what it wrote. -/
structure Exit where
  code : Nat
  written : Written

/-- What is written after one thing and then another. -/
def Written.append (a b : Written) : Written := ⟨a.out ++ b.out, a.err ++ b.err⟩

instance : Append Written := ⟨Written.append⟩

/-- The texts that the command takes from elsewhere. -/
structure Texts where
  /-- Shows the version. -/
  version : String
  /-- Shows how the command is used. -/
  help : String
  /-- Reports arguments that are wrong. -/
  usage : List String → String
  /-- Reports what could not be done and why. -/
  failure : String → String → String

/-- How the result of a source text is reported, if it has one. -/
def report : RunResult → Option Written
  | .rejected errors => some ⟨"", SyntaxError.report errors ++ "\n"⟩
  | .finished v =>
    if v.isError then some ⟨"", v.text ++ "\n"⟩
    else if v.isNull then some ⟨"", ""⟩
    else some ⟨v.text ++ "\n", ""⟩
  | .tooDeep => none

/-- Runs a source text in a scope, with at most `depth` nested calls: what it prints and the report
    of its result. -/
def runText [Hashing] (depth : Nat) (scope : ScopeId) (source : String) (st : Store) :
    Option (Written × Store) := do
  let (result, st') := Session.run depth scope source { st with output := "" }
  let reported ← report result
  return (⟨st'.output, ""⟩ ++ reported, st')

/-! ## Input that cannot be read -/

/-- Why a file or the standard input could not be read as text. -/
inductive ReadFailure where
  /-- There is no such file. -/
  | missing
  /-- The bytes are not UTF-8. -/
  | notText
  /-- Another cause, in the words of the operating system. -/
  | other (cause : String)

/-- The text that reports a failure to read. -/
def ReadFailure.message : ReadFailure → String
  | missing => "No such file or directory (os error 2)"
  | notText => "stream did not contain valid UTF-8"
  | other cause => cause

/-- How the failure to read something ends a command. -/
def ReadFailure.report (texts : Texts) (what : String) (failure : ReadFailure) : Written :=
  ⟨"", texts.failure ("failed to read " ++ what) failure.message⟩

/-- The text that bytes encode, if they are valid UTF-8. -/
def decodeText (bytes : List UInt8) : Except ReadFailure String :=
  match String.fromUTF8? ⟨bytes.toArray⟩ with
  | some text => .ok text
  | none => .error .notText

end ConstScript.Command
