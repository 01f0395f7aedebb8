import ConstScript.Value.Equality

set_option autoImplicit false

/-! # Operators on values

What the prefix and binary operators and the index brackets do with values. None of them needs a
store: they create nothing and change nothing.

A binary operator looks at the kinds of its operands first. Two integers have all operators, two
strings have `+`, `==` and `!=`, and any other two values of one kind have `==` and `!=`, which
compare them as `Value.identical` does. Values of different kinds have no operator at all. -/

namespace ConstScript

/-- A prefix operator applied to a value. -/
def UnaryOp.apply (op : UnaryOp) (operand : Value) : Except RuntimeError Value :=
  match op, operand with
  | .not, v => .ok (.bool (!v.isTruthy))
  | .negate, .int n => .ok (.int (-n))
  | .negate, v => .error (.unknownUnary .negate v.kind)

namespace BinaryOp

/-- A binary operator between integers. Sums, differences, products and quotients wrap around, and
    quotients are rounded toward zero. -/
def applyInt (op : BinaryOp) (m n : Int64) : Except RuntimeError Value :=
  match op with
  | add => .ok (.int (m + n))
  | sub => .ok (.int (m - n))
  | mul => .ok (.int (m * n))
  | div => if n = 0 then .error .divisionByZero else .ok (.int (m / n))
  | less => .ok (.bool (m < n))
  | greater => .ok (.bool (n < m))
  | equal => .ok (.bool (m = n))
  | notEqual => .ok (.bool (m ≠ n))

/-- A binary operator between strings. -/
def applyStr (op : BinaryOp) (s t : String) : Except RuntimeError Value :=
  match op with
  | add => .ok (.str (s ++ t))
  | equal => .ok (.bool (s = t))
  | notEqual => .ok (.bool (s ≠ t))
  | _ => .error (.unknownBinary .string op .string)

/-- A binary operator between two values of one kind, other than integers and strings. -/
def applyIdentity (op : BinaryOp) (v w : Value) : Except RuntimeError Value :=
  match op with
  | equal => .ok (.bool (v.identical w))
  | notEqual => .ok (.bool (!v.identical w))
  | _ => .error (.unknownBinary v.kind op w.kind)

/-- A binary operator applied to values. -/
def apply (op : BinaryOp) (left right : Value) : Except RuntimeError Value :=
  match left, right with
  | .int m, .int n => op.applyInt m n
  | .str s, .str t => op.applyStr s t
  | v, w =>
    if v.kind = w.kind then op.applyIdentity v w
    else if op.isEquality then .error (.unknownBinary v.kind op w.kind)
    else .error (.typeMismatch v.kind op w.kind)

end BinaryOp

/-- What a collection holds at a position: an item of an array or the value under the hashed key of
    a key of a map, and `null` where there is none. -/
def Value.index [Hashing] (collection position : Value) : Except RuntimeError Value :=
  match collection, position with
  | .array _ items, .int n => .ok (((positionOfInteger n).bind (fun i => items[i]?)).getD .null)
  | .map _ entries, key =>
    match key.hashedKey? with
    | some hashed => .ok (((Table.find? hashed entries).map Entry.value).getD .null)
    | none => .error (.unusableKey key.kind)
  | v, w => .error (.cannotIndex v.kind w.kind)

end ConstScript
