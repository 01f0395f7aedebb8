import ConstScript.Proofs.Value.Object
import ConstScript.Proofs.Value.Table

set_option autoImplicit false

/-! # Well-formed values

A table has one entry for each hashed key. A value is *well-formed* if this is so for all maps that
are in it, at any depth. Where tables are compared by looking up the entries of the one in the other,
this is what makes the comparison symmetric. -/

namespace ConstScript

namespace Value

/-- No map in the value, at any depth, has two entries under one hashed key. -/
def WellFormed (v : Value) : Prop :=
  ∀ id entries, Contains (.map id entries) v → (entries.map Entry.hashed).Nodup

variable {v w : Value} {id : ObjectId} {items : List Value} {entries : List (Entry Value)}

theorem WellFormed.of_contains (h : v.WellFormed) (hw : Contains w v) : w.WellFormed :=
  fun id entries hmap => h id entries (hmap.trans hw)

/-- Only maps can fail to be well-formed. -/
theorem wellFormed_of_objectId? (h : v.objectId? = none) : v.WellFormed := by
  intro id entries hmap
  rw [← hmap.eq_of_objectId? h] at h
  cases h

@[simp] theorem wellFormed_array :
    (array id items).WellFormed ↔ ∀ v ∈ items, v.WellFormed := by
  constructor
  · exact fun h v hv => h.of_contains (.item hv .self)
  · intro h id entries hmap
    cases hmap with
    | item hv hmap => exact h _ hv id entries hmap

@[simp] theorem wellFormed_map : (map id entries).WellFormed ↔
    (entries.map Entry.hashed).Nodup ∧ ∀ e ∈ entries, e.value.WellFormed := by
  constructor
  · exact fun h => ⟨h id entries .self, fun e he => h.of_contains (.entry he .self)⟩
  · rintro ⟨hnodup, hvalues⟩ id entries hmap
    cases hmap with
    | self => exact hnodup
    | entry he hmap => exact hvalues _ he id entries hmap

/-- What is put into a table can be well-formed or not, but the table itself always is. -/
theorem wellFormed_map_ofPuts [Hashing] {puts : List (Entry Value)}
    (h : ∀ e ∈ puts, e.value.WellFormed) : (map id (Table.ofPuts puts)).WellFormed :=
  wellFormed_map.2 ⟨Table.nodup_ofPuts puts, fun e he => h e (Table.mem_of_mem_ofPuts he)⟩

/-! ## Induction -/

section

variable {motive : Value → Prop}
  (array : ∀ id items, (∀ v ∈ items, motive v) → motive (.array id items))
  (map : ∀ id entries, (∀ e ∈ entries, motive e.value) → motive (.map id entries))
  (other : ∀ v : Value, v.kind ≠ .array → v.kind ≠ .map → motive v)

include array map other

set_option linter.unusedSectionVars false in
mutual

/-- Induction over the items of arrays and over what is in the tables of maps. -/
theorem nestedInduction : (v : Value) → motive v
  | .array id items => array id items (nestedInduction_items items)
  | .map id entries => map id entries (nestedInduction_entries entries)
  | .int _ | .bool _ | .str _ | .null | .function _ | .builtin _ | .error _ =>
      other _ nofun nofun

theorem nestedInduction_items : (items : List Value) → ∀ v ∈ items, motive v
  | [] => by simp
  | v :: items => List.forall_mem_cons.2 ⟨nestedInduction v, nestedInduction_items items⟩

theorem nestedInduction_entries : (entries : List (Entry Value)) → ∀ e ∈ entries, motive e.value
  | [] => by simp
  | ⟨_, _, v⟩ :: entries =>
      List.forall_mem_cons.2 ⟨nestedInduction v, nestedInduction_entries entries⟩

end

end

end Value

end ConstScript
