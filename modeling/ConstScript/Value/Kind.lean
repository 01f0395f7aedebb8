set_option autoImplicit false

/-! # Kinds of values and the built-in functions

Names for what a running program handles: the kinds of values, which error messages mention, and the
functions that exist without being declared. -/

namespace ConstScript

/-! ## Kinds of values -/

/-- The kinds of values. -/
inductive ValueKind where
  | integer
  | boolean
  | string
  | null
  | array
  | map
  | function
  | builtin
  | error
  deriving DecidableEq, Repr

/-- The name under which error messages mention a kind of value. -/
def ValueKind.name : ValueKind → String
  | integer => "INTEGER"
  | boolean => "BOOLEAN"
  | string => "STRING"
  | null => "NULL"
  | array => "ARRAY"
  | map => "MAP"
  | function => "FUNCTION"
  | builtin => "BUILTIN"
  | error => "ERROR"

/-! ## Built-in functions -/

/-- The built-in functions. -/
inductive Builtin where
  | length
  | lastIndex
  | tail
  | push
  | print
  deriving DecidableEq, Repr

namespace Builtin

/-- All built-in functions. -/
def all : List Builtin := [length, lastIndex, tail, push, print]

/-- The name that refers to a built-in function where no binding has that name. -/
def name : Builtin → String
  | length => "length"
  | lastIndex => "lastIndex"
  | tail => "tail"
  | push => "push"
  | print => "print"

/-- The built-in function with the given name, if there is one. -/
def ofName? (n : String) : Option Builtin :=
  all.find? (fun b => b.name = n)

theorem ofName?_name (b : Builtin) : ofName? b.name = some b := by
  cases b <;> decide

theorem name_of_ofName? {n : String} {b : Builtin} (h : ofName? n = some b) : b.name = n := by
  simpa using List.find?_some h

end Builtin

end ConstScript
