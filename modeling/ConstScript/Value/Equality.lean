import ConstScript.Value.Basic

set_option autoImplicit false

/-! # Two notions of equality

`Value.identical` is the equality that a program can observe on values other than integers and
strings: booleans and `null` are compared by value, built-in functions by name, and arrays, maps
and functions by identity. `Value.equal` compares data by its structure instead: arrays item by
item, maps by what is under their hashed keys, errors by their cause; functions keep being compared
by identity. -/

namespace ConstScript

/-- Whether two values are the same object, or the same value of a kind that has no identity. -/
def Value.identical : Value → Value → Bool
  | .bool a, .bool b => a == b
  | .null, .null => true
  | .array a _, .array b _ => a == b
  | .map a _, .map b _ => a == b
  | .function f, .function g => f.id == g.id
  | .builtin a, .builtin b => a == b
  | _, _ => false

mutual

/-- Whether two values have the same structure. -/
def Value.equal : Value → Value → Bool
  | .int m, .int n => m == n
  | .bool a, .bool b => a == b
  | .str s, .str t => s == t
  | .null, .null => true
  | .array _ vs, .array _ ws => Value.equalItems vs ws
  | .map _ es, .map _ fs => es.length == fs.length && Value.equalEntries es fs
  | .function f, .function g => f.id == g.id
  | .builtin a, .builtin b => a == b
  | .error e, .error f => e == f
  | _, _ => false

/-- Whether two lists have equally many items and equal ones in each position. -/
def Value.equalItems : List Value → List Value → Bool
  | [], [] => true
  | v :: vs, w :: ws => v.equal w && Value.equalItems vs ws
  | _, _ => false

/-- Whether under the hashed key of each entry of a table there is one with the same key and an
    equal value in another table. -/
def Value.equalEntries : List (Entry Value) → List (Entry Value) → Bool
  | [], _ => true
  | ⟨hashed, k, v⟩ :: es, fs =>
    (match Table.find? hashed fs with
      | some f => k == f.key && v.equal f.value
      | none => false) && Value.equalEntries es fs

end

end ConstScript
