import ConstScript.Proofs.Value.Object

set_option autoImplicit false

/-! # Values without a function in them

A value is *function-free* if no function is in it at any depth, the built-in ones aside. Nothing
but a function literal makes a function: what operators, index brackets and built-in functions make
of function-free values is function-free. -/

namespace ConstScript

/-- No function other than a built-in one is in the value, at any depth. -/
def Value.FunctionFree (v : Value) : Prop :=
  ∀ f, ¬ Contains (.function f) v

namespace Value

variable {v w : Value}

theorem FunctionFree.of_contains (h : v.FunctionFree) (hw : Contains w v) : w.FunctionFree :=
  fun f hf => h f (hf.trans hw)

/-- A value that is no object is no function, and nothing else is in it. -/
theorem functionFree_of_objectId? (h : v.objectId? = none) : v.FunctionFree := by
  intro f hf
  rw [← hf.eq_of_objectId? h] at h
  cases h

theorem functionFree_null : null.FunctionFree :=
  functionFree_of_objectId? rfl

theorem not_functionFree_function (f : Closure) : ¬ (function f).FunctionFree :=
  fun h => h f .self

@[simp] theorem functionFree_array {id : ObjectId} {items : List Value} :
    (array id items).FunctionFree ↔ ∀ v ∈ items, v.FunctionFree := by
  constructor
  · exact fun h v hv => h.of_contains (.item hv .self)
  · intro h f hf
    cases hf with
    | item hv hf => exact h _ hv f hf

@[simp] theorem functionFree_map {id : ObjectId} {entries : List (Entry Value)} :
    (map id entries).FunctionFree ↔ ∀ p ∈ entries, p.value.FunctionFree := by
  constructor
  · exact fun h p hp => h.of_contains (.entry hp .self)
  · intro h f hf
    cases hf with
    | entry hp hf => exact h _ hp f hf

theorem FunctionFree.of_index [Hashing] {c p : Value} (hc : c.FunctionFree)
    (h : c.index p = .ok v) : v.FunctionFree := by
  rcases null_or_contains_of_index h with rfl | hv
  · exact functionFree_null
  · exact hc.of_contains hv

end Value

namespace Builtin

variable {args items : List Value} {v : Value}

theorem functionFree_of_oneArray {b : Builtin} (hargs : ∀ a ∈ args, a.FunctionFree)
    (h : oneArray b args = .ok items) : ∀ a ∈ items, a.FunctionFree := by
  obtain ⟨id, rfl⟩ := eq_of_oneArray h
  exact Value.functionFree_array.1 (hargs _ (List.mem_singleton_self _))

theorem functionFree_of_pushArguments (hargs : ∀ a ∈ args, a.FunctionFree)
    (h : pushArguments args = .ok (items, v)) :
    (∀ a ∈ items, a.FunctionFree) ∧ v.FunctionFree := by
  obtain ⟨id, rfl⟩ := eq_of_pushArguments h
  obtain ⟨hitems, hv⟩ := List.forall_mem_cons.1 hargs
  exact ⟨Value.functionFree_array.1 hitems, List.forall_mem_singleton.1 hv⟩

end Builtin

end ConstScript
