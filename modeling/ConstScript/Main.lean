import ConstScript.Command.Run

set_option autoImplicit false

/-! # The command

Reads arguments, files and the standard input, and writes what `Command` says. An interactive
session is run line by line, so that each answer is written before the next line is read. An
executable supplies the hash function and the texts. -/

namespace ConstScript.Command

/-- Writes what a command wrote. -/
def emit (written : Written) : IO Unit := do
  let out ← IO.getStdout
  out.putStr written.out
  out.flush
  (← IO.getStderr).putStr written.err

/-- Reads the bytes up to the next line feed, which is kept, or up to the end of the input. -/
partial def readLine (input : IO.FS.Stream) (line : Array UInt8) : IO (Array UInt8) := do
  let bytes ← input.read 1
  match bytes.toList with
  | b :: _ => if b = 10 then return line.push b else readLine input (line.push b)
  | [] => return line

/-- Reads the bytes of a file. -/
def readBytes (path : String) : IO (Except ReadFailure (List UInt8)) := do
  try
    return .ok (← IO.FS.readBinFile path).toList
  catch
    | .noFileOrDirectory .. => return .error .missing
    | e => return .error (.other (toString e))

/-- What has no result ends the process. -/
def resultOrThrow {α : Type} : Option α → IO α
  | some a => return a
  | none => throw (IO.userError "calls are nested too deeply")

variable [Hashing] (texts : Texts) (depth : Nat)

/-- Runs an interactive session on the standard input. -/
partial def converse (scope : ScopeId) (st : Store) : IO UInt32 := do
  emit ⟨prompt, ""⟩
  let line ← readLine (← IO.getStdin) #[]
  if line.isEmpty then return 0
  match ← resultOrThrow (runLine texts depth scope line.toList st) with
  | .error written =>
    emit written
    return 1
  | .ok (written, st') =>
    emit written
    converse scope st'

/-- Executes the command: its arguments are `args`, and at most `depth` calls may be nested. -/
def execute (args : List String) : IO UInt32 := do
  match Invocation.ofArguments args with
  | .interactive => converse texts depth Session.start.1 Session.start.2
  | .file path => finish (runFile texts depth path (← readBytes path))
  | _ => finish (run texts depth (fun _ => .error .missing) [] args)
where
  /-- Ends the command. -/
  finish (exit : Option Exit) : IO UInt32 := do
    let exit ← resultOrThrow exit
    emit exit.written
    return exit.code.toUInt32

end ConstScript.Command
