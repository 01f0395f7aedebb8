import ConstScript.Value.Kind

set_option autoImplicit false

/-! # Keys and the tables they index

Integers, booleans and strings can be keys of maps. The table of a map knows a key by its *hashed
key* only, which is its kind and 64 bits: those of an integer are its own, `false` and `true` have
the numbers 0 and 1, and those of a string are what a hash function gives. If two strings have the
same hash, they are one key to a table, and what is put under the one takes the place of what is
under the other.

The hash function is left open, and so is the order in which a table lists what is in it: `Hashing`
says what can be relied on. -/

namespace ConstScript

/-! ## Keys -/

/-- A key of a map. -/
inductive Key where
  | int (n : Int64)
  | bool (b : Bool)
  | str (s : String)
  deriving DecidableEq

/-- What a table knows of a key: its kind and its hash. -/
structure HashedKey where
  kind : ValueKind
  hash : UInt64
  deriving DecidableEq

/-- What hash tables bring with them. -/
class Hashing where
  /-- The hash of a string. -/
  hash : String → UInt64
  /-- The order in which a table lists its hashed keys, after something was put under each of the
      given ones, one after another. -/
  order : List HashedKey → List HashedKey
  /-- No hashed key is listed twice. -/
  nodup_order : ∀ keys, (order keys).Nodup
  /-- All that something was put under are listed, and no others. -/
  mem_order_iff : ∀ keys key, key ∈ order keys ↔ key ∈ keys

/-- Tables that list their hashed keys in the order in which these were put there for the first
    time. -/
@[reducible] def Hashing.inOrder (hash : String → UInt64) : Hashing where
  hash := hash
  order := List.eraseDups
  nodup_order keys := nodup_eraseDups keys
  mem_order_iff _ _ := List.mem_eraseDups
where
  nodup_eraseDups (keys : List HashedKey) : keys.eraseDups.Nodup := by
    cases keys with
    | nil => exact List.nodup_nil
    | cons key keys =>
      rw [List.eraseDups_cons]
      refine List.nodup_cons.2 ⟨fun hmem => ?_, nodup_eraseDups _⟩
      simpa using (List.mem_filter.1 (List.mem_eraseDups.1 hmem)).2
  termination_by keys.length
  decreasing_by exact Nat.lt_succ_of_le (List.length_filter_le _ _)

/-- The hashed key of a key. -/
def Key.hashed [Hashing] : Key → HashedKey
  | int n => ⟨.integer, n.toUInt64⟩
  | bool b => ⟨.boolean, b.toUInt64⟩
  | str s => ⟨.string, Hashing.hash s⟩

/-! ## Tables -/

/-- What a table holds under a hashed key: the key that was used, and the value that belongs to
    it. -/
structure Entry (α : Type) where
  hashed : HashedKey
  key : Key
  value : α

namespace Table

variable {α : Type}

/-- The entry that is made for a key and a value. -/
def entry [Hashing] (key : Key) (value : α) : Entry α := ⟨key.hashed, key, value⟩

/-- The first entry under a hashed key. -/
def find? (hashed : HashedKey) (entries : List (Entry α)) : Option (Entry α) :=
  entries.find? fun e => e.hashed = hashed

/-- The entries of a table that entries are put into, one after another. What is put under a hashed
    key takes the place of what is there already. -/
def ofPuts [Hashing] (puts : List (Entry α)) : List (Entry α) :=
  (Hashing.order (puts.map Entry.hashed)).filterMap fun hashed => find? hashed puts.reverse

end Table

end ConstScript
