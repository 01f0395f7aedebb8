import ConstScript.Eval.Basic
import ConstScript.Value.Render

set_option autoImplicit false

/-! # Built-in functions

What the built-in functions do with their arguments. All but `print` take a fixed number of
arguments, and check it before they look at any of them. -/

namespace ConstScript

/-- Refuses a number of arguments other than the wanted one. -/
def checkArgumentCount (got want : Nat) : Except RuntimeError Unit :=
  if got = want then .ok () else .error (.wrongArgumentCount got want)

namespace Builtin

/-- The only argument. -/
def oneArgument : List Value → Except RuntimeError Value
  | [v] => .ok v
  | args => .error (.wrongArgumentCount args.length 1)

/-- The items of the only argument, which has to be an array. -/
def oneArray (b : Builtin) (args : List Value) : Except RuntimeError (List Value) := do
  match ← oneArgument args with
  | .array _ items => .ok items
  | v => .error (.wrongArgument b .array v.kind)

/-- The number of bytes of a string, which is encoded in UTF-8, or of items of an array. -/
def applyLength (args : List Value) : Except RuntimeError Value := do
  match ← oneArgument args with
  | .str s => return .int (← integerOfLength s.utf8ByteSize)
  | .array _ items => return .int (← integerOfLength items.length)
  | v => .error (.unsupportedArgument .length v.kind)

/-- The position of the last item of an array, `null` if it has none. -/
def applyLastIndex (args : List Value) : Except RuntimeError Value := do
  match ← oneArray .lastIndex args with
  | [] => return .null
  | _ :: rest => return .int (← integerOfLength rest.length)

/-- The two arguments of `push`: the items of an array and a value. -/
def pushArguments : List Value → Except RuntimeError (List Value × Value)
  | [.array _ items, v] => .ok (items, v)
  | [v, _] => .error (.wrongFirstArgument .push .array v.kind)
  | args => .error (.wrongArgumentCount args.length 2)

/-- A built-in function applied to its arguments: `tail` and `push` create new arrays, of all items
    but the first and of all items and one more, and `print` writes each argument on a line of its
    own. -/
def apply (b : Builtin) (args : List Value) : Eval Value :=
  match b with
  | length => Eval.ofExcept (applyLength args)
  | lastIndex => Eval.ofExcept (applyLastIndex args)
  | tail => do
    let items ← Eval.ofExcept (oneArray .tail args)
    Eval.newArray items.tail
  | push => do
    let (items, v) ← Eval.ofExcept (pushArguments args)
    Eval.newArray (items ++ [v])
  | print => do
    args.forM (fun v => Eval.printLine v.text)
    return .null

end Builtin

end ConstScript
