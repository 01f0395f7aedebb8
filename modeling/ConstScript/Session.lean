import ConstScript.Eval.Program
import ConstScript.Grammar.Program
import ConstScript.Value.Render

set_option autoImplicit false

/-! # Sessions

A session runs source texts one after another in one scope, so that a text can use what earlier
ones have bound. A text with any syntax error is rejected as a whole and changes nothing. -/

namespace ConstScript

/-- What running a source text came to. -/
inductive RunResult where
  /-- The text was not executed because of its syntax errors. -/
  | rejected (errors : List SyntaxError)
  /-- The text was executed and has this value, which may be a runtime error. -/
  | finished (v : Value)
  /-- The text was executed until calls were nested too deeply. -/
  | tooDeep

namespace Session

/-- Runs a source text in a scope, with at most `depth` nested calls. -/
def run [Hashing] (depth : Nat) (scope : ScopeId) (source : String) (st : Store) :
    RunResult × Store :=
  let reading := Program.parse source
  match reading.errors with
  | [] =>
    match reading.program.eval depth scope st with
    | (some v, st') => (.finished v, st')
    | (none, st') => (.tooDeep, st')
  | errors => (.rejected errors, st)

/-- A store with one scope, which no other encloses, and the number of this scope. -/
def start : ScopeId × Store := Store.empty.openScope none

end Session

end ConstScript
