import ConstScript.Grammar.Expression
import ConstScript.Token.Scan

set_option autoImplicit false

/-! # Reading programs

The tokens of a program are cut into *segments*, one after another and without gaps. A segment
is either the tokens of one statement or a stretch from which no statement could be read.
Reading goes on after a failure, so that one run reports every faulty statement: from where it
failed it moves on to the first `;` at which as many brackets are open as where the statement
began, or to the end of the input. The brackets are counted along the way, through statements and
failures alike; a closing bracket that matches no opening one changes nothing.

`Program.parse` collects the statements and the syntax errors of all segments. -/

namespace ConstScript

/-! ## Segments -/

/-- How many brackets are open after a token, given how many were open before it. -/
def Token.bracketsAfter (depth : Nat) : Token → Nat
  | .symbol s => if s.opens then depth + 1 else if s.closes then depth - 1 else depth
  | _ => depth

/-- How many brackets are open after some tokens, given how many were open before them. -/
def openBrackets (depth : Nat) (ts : List Token) : Nat :=
  ts.foldl Token.bracketsAfter depth

/-- A stretch of the input, how many brackets were open before it, and what was read from it. -/
structure Segment where
  depth : Nat
  tokens : List Token
  outcome : Except Fault Stmt

/-- How many tokens of a failed stretch reading has left behind when it fails. It has reached the
    offending token if that starts no operand, but still stands before one that it did not
    expect. -/
def Fault.position (fault : Fault) (ts : List Token) : Nat :=
  let before := ts.length - fault.unread.length
  match fault.error with
  | .unexpected .. => before - 1
  | _ => before

namespace Grammar

/-- The tokens after the first `;` at which `start` brackets are open, when `depth` are open now. -/
def recover (start depth : Nat) : List Token → List Token
  | [] => []
  | t :: rest =>
    if t = .symbol .semicolon ∧ depth = start then rest
    else recover start (t.bracketsAfter depth) rest

theorem length_recover_le (start depth : Nat) (ts : List Token) :
    (recover start depth ts).length ≤ ts.length - 1 := by
  induction ts generalizing depth with
  | nil => simp [recover]
  | cons t rest ih =>
    unfold recover
    split
    · simp
    · exact Nat.le_trans (ih _) (Nat.sub_le _ _)

/-- The tokens after a failed statement that began at `ts`, where `depth` brackets were open. -/
def afterFailure (depth : Nat) (fault : Fault) (ts : List Token) : List Token :=
  let n := fault.position ts
  recover depth (openBrackets depth (ts.take n)) (ts.drop n)

theorem length_afterFailure_lt (depth : Nat) (fault : Fault) (t : Token) (ts : List Token) :
    (afterFailure depth fault (t :: ts)).length < (t :: ts).length := by
  refine Nat.lt_of_le_of_lt (length_recover_le _ _ _) ?_
  simp only [List.length_drop, List.length_cons]
  omega

/-- The first segment of a nonempty input before which `depth` brackets are open: its outcome and
    the tokens after it. -/
def readSegment (depth : Nat) (t : Token) (ts : List Token) :
    Except Fault Stmt × { rest : List Token // rest.length < (t :: ts).length } :=
  match statement (t :: ts) with
  | .ok s => (.ok s.value, ⟨s.rest, s.length_rest_lt⟩)
  | .error fault =>
    (.error fault, ⟨afterFailure depth fault (t :: ts), length_afterFailure_lt depth fault t ts⟩)

/-- All segments of an input before which `depth` brackets are open. -/
def segments (depth : Nat) (ts : List Token) : List Segment :=
  match ts with
  | [] => []
  | t :: ts =>
    let (outcome, rest) := readSegment depth t ts
    let tokens := (t :: ts).take ((t :: ts).length - rest.val.length)
    ⟨depth, tokens, outcome⟩ :: segments (openBrackets depth tokens) rest.val
termination_by ts.length
decreasing_by exact rest.property

end Grammar

/-! ## Programs -/

/-- What a source text was read as: the statements that could be read and an error for each of the
    others, both in the order of the text. -/
structure Reading where
  program : Program
  faults : List Fault

/-- The syntax errors of a source text, in order. -/
def Reading.errors (r : Reading) : List SyntaxError :=
  r.faults.map Fault.error

/-- What a list of segments was read as. -/
def Reading.ofSegments (segments : List Segment) : Reading where
  program := ⟨segments.filterMap (fun s => s.outcome.toOption)⟩
  faults := segments.filterMap fun s =>
    match s.outcome with
    | .ok _ => none
    | .error fault => some fault

/-- Reads a program from its tokens. -/
def Program.ofTokens (ts : List Token) : Reading :=
  Reading.ofSegments (Grammar.segments 0 ts)

/-- Reads a program from its source text. -/
def Program.parse (source : String) : Reading :=
  Program.ofTokens (Token.scan source.toList)

end ConstScript
