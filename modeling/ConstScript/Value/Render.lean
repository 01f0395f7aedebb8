import ConstScript.Syntax.Render
import ConstScript.Value.Basic

set_option autoImplicit false

/-! # The text of a value

How values are printed and shown as results. The text of a string is the string itself, that of
a function is the canonical text of its literal. The pairs of a map are shown in the order in which
its table lists them. -/

namespace ConstScript

/-- The canonical text of the literal a function value comes from. -/
def Closure.text (f : Closure) : String :=
  (Expr.fn f.params f.body).text

/-- The decimal text of an integer. -/
def integerText (n : Int64) : String :=
  toString n.toInt

/-- The text of a key. -/
def Key.text : Key → String
  | int n => integerText n
  | bool b => toString b
  | str s => s

mutual

/-- The text of a value. -/
def Value.text : Value → String
  | .int n => integerText n
  | .bool b => toString b
  | .str s => s
  | .null => "null"
  | .array _ items => "[" ++ joinWith ", " (Value.texts items) ++ "]"
  | .map _ entries => "\x7b" ++ joinWith ", " (Value.entryTexts entries) ++ "\x7d"
  | .function f => f.text
  | .builtin _ => "builtin function"
  | .error e => "ERROR: " ++ e.message

/-- The texts of values. -/
def Value.texts : List Value → List String
  | [] => []
  | v :: vs => v.text :: Value.texts vs

/-- The texts of the pairs of a map. -/
def Value.entryTexts : List (Entry Value) → List String
  | [] => []
  | ⟨_, key, value⟩ :: entries => (key.text ++ ": " ++ value.text) :: Value.entryTexts entries

end

end ConstScript
