set_option autoImplicit false

/-! # Command line arguments

The command takes options, which start with `-`, and at most one other argument: a program, or
with the option `-f` the path of a file that holds one. Short options may be written together
(`-fV`); `--` ends the options; `-` alone is no option.

Arguments are read from left to right, and the first one that settles the outcome does so,
whatever follows: a request for the version or for help, an option that does not exist or has a
value, `-f` for the second time, or a second program. -/

namespace ConstScript.Command

/-- What the arguments ask for. -/
inductive Invocation where
  /-- Show the version. -/
  | version
  /-- Show how the command is used. -/
  | help
  /-- Nothing that can be done: the arguments are wrong. -/
  | rejected
  /-- Run the lines of the standard input. -/
  | interactive
  /-- Run a program. -/
  | text (source : String)
  /-- Run the program in a file. -/
  | file (path : String)
  deriving DecidableEq, Repr

/-- The options. -/
inductive Switch where
  | file
  | version
  | help
  deriving DecidableEq, Repr

/-- The option with the given letter. -/
def Switch.ofLetter? : Char → Option Switch
  | 'f' => some file
  | 'V' => some version
  | 'h' => some help
  | _ => none

/-- The option with the given name. -/
def Switch.ofName? : String → Option Switch
  | "file" => some file
  | "version" => some version
  | "help" => some help
  | _ => none

/-- The arguments read so far: whether a file is to be read, and the program or path. -/
structure Given where
  file : Bool
  contents : Option String

namespace Given

/-- Takes an option into account; `none` stands for one that does not exist. The outcome is an error
    where it is settled. -/
def addSwitch (given : Given) : Option Switch → Except Invocation Given
  | some .file => if given.file then .error .rejected else .ok { given with file := true }
  | some .version => .error .version
  | some .help => .error .help
  | none => .error .rejected

/-- Takes short options that are written together into account. -/
def addLetters (given : Given) : List Char → Except Invocation Given
  | [] => .ok given
  | c :: cs => do
    let given ← given.addSwitch (Switch.ofLetter? c)
    given.addLetters cs

/-- Takes an argument that is no option into account. -/
def addContents (given : Given) (arg : String) : Except Invocation Given :=
  match given.contents with
  | none => .ok { given with contents := some arg }
  | some _ => .error .rejected

/-- Takes an argument before the end of the options into account. -/
def addArgument (given : Given) (arg : String) : Except Invocation Given :=
  match arg.toList with
  | '-' :: '-' :: name => given.addSwitch (Switch.ofName? (String.ofList name))
  | '-' :: c :: cs => given.addLetters (c :: cs)
  | _ => given.addContents arg

/-- Takes all arguments into account. -/
def addAll (given : Given) : List String → Except Invocation Given
  | [] => .ok given
  | arg :: args =>
    if arg = "--" then args.foldlM addContents given
    else do
      let given ← given.addArgument arg
      given.addAll args

/-- What arguments ask for that leave the outcome open. -/
def invocation (given : Given) : Invocation :=
  match given.contents with
  | none => .interactive
  | some contents => if given.file then .file contents else .text contents

end Given

/-- What the arguments of the command ask for. -/
def Invocation.ofArguments (args : List String) : Invocation :=
  match Given.addAll ⟨false, none⟩ args with
  | .ok given => given.invocation
  | .error settled => settled

end ConstScript.Command
