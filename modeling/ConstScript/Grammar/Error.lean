import ConstScript.Token.Basic

set_option autoImplicit false

/-! # Syntax errors

A stretch of tokens that is no statement fails for one of three causes. Where it failed is kept
beside the cause as the tokens that were not read, the offending one first; at the end of the
input there are none. -/

namespace ConstScript

/-- Why tokens could not be read as a statement. -/
inductive SyntaxError where
  /-- One kind of token had to come next and another one was found. -/
  | unexpected (expected found : Kind)
  /-- No expression starts with this kind of token. -/
  | noOperand (found : Kind)
  /-- An integer literal exceeds the largest integer. -/
  | integerTooLarge (digits : String)
  deriving DecidableEq, Repr

namespace SyntaxError

/-- The text that reports a syntax error. -/
def message : SyntaxError → String
  | unexpected expected found =>
    "expected next token to be " ++ expected.name ++ ", got " ++ found.name ++ " instead"
  | noOperand found => "no prefix parse function for " ++ found.name ++ " found"
  | integerTooLarge digits => "could not parse " ++ digits ++ " as integer"

/-- The text that reports all syntax errors of a source: their number, then one indented line for
    each. -/
def report (errors : List SyntaxError) : String :=
  let noun := if errors.length = 1 then "error" else "errors"
  "found " ++ toString errors.length ++ " syntax " ++ noun ++ ":" ++
    String.join (errors.map (fun e => "\n\t" ++ e.message))

end SyntaxError

/-- A syntax error together with the tokens from the offending one on. -/
structure Fault where
  error : SyntaxError
  unread : List Token
  deriving DecidableEq, Repr

end ConstScript
