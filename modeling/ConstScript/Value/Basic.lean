import ConstScript.Syntax.Basic
import ConstScript.Value.Error
import ConstScript.Value.Key

set_option autoImplicit false

/-! # Values

What expressions evaluate to. Integers are 64 bits wide and their arithmetic wraps around.
Arrays, maps and functions have an *identity* besides their contents: a number that is new
whenever one of them is created and that stays with it wherever it is stored or passed, so that
two arrays with the same items can be told apart. No value ever changes. -/

namespace ConstScript

/-! ## Values -/

/-- The identity of an array, a map or a function. -/
abbrev ObjectId := Nat

/-- A scope of bindings is referred to by its number in the order of creation. -/
abbrev ScopeId := Nat

/-- A function value: a function literal and the scope in which it was evaluated. -/
structure Closure where
  id : ObjectId
  params : List String
  body : List Stmt
  scope : ScopeId

/-- Values. -/
inductive Value where
  | int (n : Int64)
  | bool (b : Bool)
  | str (s : String)
  | null
  | array (id : ObjectId) (items : List Value)
  | map (id : ObjectId) (entries : List (Entry Value))
  | function (f : Closure)
  | builtin (b : Builtin)
  /-- A runtime error as the result of a program. -/
  | error (e : RuntimeError)

namespace Value

/-- The kind of a value. -/
def kind : Value → ValueKind
  | int _ => .integer
  | bool _ => .boolean
  | str _ => .string
  | null => .null
  | array .. => .array
  | map .. => .map
  | function _ => .function
  | builtin _ => .builtin
  | error _ => .error

/-- Whether a value counts as true: all values do but `null` and `false`. -/
def isTruthy : Value → Bool
  | null | bool false => false
  | _ => true

/-- Whether a value is `null`. -/
def isNull : Value → Bool
  | null => true
  | _ => false

/-- Whether a value is a runtime error. -/
def isError : Value → Bool
  | error _ => true
  | _ => false

/-- The key that a value is, if it can be one. -/
def toKey? : Value → Option Key
  | int n => some (.int n)
  | bool b => some (.bool b)
  | str s => some (.str s)
  | _ => none

/-- The hashed key of a value, if it can be a key. -/
def hashedKey? [Hashing] (v : Value) : Option HashedKey :=
  v.toKey?.map Key.hashed

end Value

/-- A key as a value. -/
def Key.toValue : Key → Value
  | int n => .int n
  | bool b => .bool b
  | str s => .str s

theorem Key.toKey?_toValue (k : Key) : k.toValue.toKey? = some k := by
  cases k <;> rfl

/-! ## Lengths and positions -/

/-- A length as an integer; a length that exceeds the largest integer is an error. -/
def integerOfLength (n : Nat) : Except RuntimeError Int64 :=
  if n ≤ maxInteger then .ok (Int64.ofNat n) else .error .lengthOverflow

/-- An integer as a position in a list; a negative one is none. -/
def positionOfInteger (n : Int64) : Option Nat :=
  if 0 ≤ n.toInt then some n.toInt.toNat else none

end ConstScript
