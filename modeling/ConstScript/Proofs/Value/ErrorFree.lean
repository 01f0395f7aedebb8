import ConstScript.Eval.Builtin
import ConstScript.Eval.Operator
import ConstScript.Proofs.Value.Table

set_option autoImplicit false

/-! # Values without a runtime error in them

Runtime errors are values only as results of programs. Inside the language none is: a value is
*error-free* if none is in it at any depth, and operators, index brackets and built-in functions make
only error-free values of error-free ones. -/

namespace ConstScript

/-! ## What is in a value -/

/-- The value `w` is the second one, or in it at some depth. -/
inductive Value.Contains (w : Value) : Value → Prop
  | self : Contains w w
  | item {id : ObjectId} {items : List Value} {v : Value} :
      v ∈ items → Contains w v → Contains w (.array id items)
  | entry {id : ObjectId} {entries : List (Entry Value)} {e : Entry Value} :
      e ∈ entries → Contains w e.value → Contains w (.map id entries)

theorem Value.Contains.trans {u v w : Value} (h : Contains u v) (h' : Contains v w) :
    Contains u w := by
  induction h' with
  | self => exact h
  | item hmem _ ih => exact .item hmem ih
  | entry hmem _ ih => exact .entry hmem ih

/-- No runtime error is in the value, at any depth. -/
def Value.ErrorFree (v : Value) : Prop :=
  ∀ e, ¬ Contains (.error e) v

namespace Value

@[simp] theorem errorFree_int (n : Int64) : (int n).ErrorFree :=
  fun _ h => nomatch h

@[simp] theorem errorFree_bool (b : Bool) : (bool b).ErrorFree :=
  fun _ h => nomatch h

@[simp] theorem errorFree_str (s : String) : (str s).ErrorFree :=
  fun _ h => nomatch h

@[simp] theorem errorFree_null : null.ErrorFree :=
  fun _ h => nomatch h

@[simp] theorem errorFree_function (f : Closure) : (function f).ErrorFree :=
  fun _ h => nomatch h

@[simp] theorem errorFree_builtin (b : Builtin) : (builtin b).ErrorFree :=
  fun _ h => nomatch h

@[simp] theorem not_errorFree_error (e : RuntimeError) : ¬ (error e).ErrorFree :=
  fun h => h e .self

@[simp] theorem errorFree_array {id : ObjectId} {items : List Value} :
    (array id items).ErrorFree ↔ ∀ v ∈ items, v.ErrorFree := by
  constructor
  · exact fun h v hv e he => h e (.item hv he)
  · intro h e he
    cases he with
    | item hv he => exact h _ hv e he

@[simp] theorem errorFree_map {id : ObjectId} {entries : List (Entry Value)} :
    (map id entries).ErrorFree ↔ ∀ p ∈ entries, p.value.ErrorFree := by
  constructor
  · exact fun h p hp e he => h e (.entry hp he)
  · intro h e he
    cases he with
    | entry hv he => exact h _ hv e he

end Value

/-! ## Operators and index brackets -/

section

variable {v w u : Value}

theorem UnaryOp.errorFree_of_apply {op : UnaryOp} (h : op.apply v = .ok w) : w.ErrorFree := by
  unfold UnaryOp.apply at h
  split at h
  · cases h
    exact Value.errorFree_bool _
  · cases h
    exact Value.errorFree_int _
  · cases h

namespace BinaryOp

variable {op : BinaryOp}

theorem errorFree_of_applyInt {m n : Int64} (h : op.applyInt m n = .ok u) : u.ErrorFree := by
  cases op with
  | div =>
      simp only [applyInt] at h
      split at h <;> cases h
      exact Value.errorFree_int _
  | _ =>
      cases h
      simp

theorem errorFree_of_applyStr {s t : String} (h : op.applyStr s t = .ok u) : u.ErrorFree := by
  unfold applyStr at h
  split at h <;> cases h <;> simp

theorem errorFree_of_applyIdentity (h : op.applyIdentity v w = .ok u) : u.ErrorFree := by
  unfold applyIdentity at h
  split at h <;> cases h <;> simp

theorem errorFree_of_apply (h : op.apply v w = .ok u) : u.ErrorFree := by
  unfold apply at h
  split at h
  · exact errorFree_of_applyInt h
  · exact errorFree_of_applyStr h
  · split at h
    · exact errorFree_of_applyIdentity h
    · split at h <;> cases h

end BinaryOp

/-- What is taken out of a collection was in it, or is `null`. -/
theorem Value.null_or_contains_of_index [Hashing] {c p : Value} (h : c.index p = .ok v) :
    v = .null ∨ Contains v c := by
  unfold Value.index at h
  split at h
  · next items n =>
    cases h
    cases hitem : (positionOfInteger n).bind (fun i => items[i]?) with
    | none => exact .inl rfl
    | some w =>
        obtain ⟨i, -, hw⟩ := Option.bind_eq_some_iff.1 hitem
        exact .inr (.item (List.mem_of_getElem? hw) .self)
  · next entries =>
    split at h
    · next hashed _ =>
      cases h
      cases hentry : Table.find? hashed entries with
      | none => exact .inl rfl
      | some e => exact .inr (.entry (Table.mem_of_find? hentry) .self)
    · cases h
  · cases h

theorem Value.ErrorFree.of_index [Hashing] {c p : Value} (hc : c.ErrorFree)
    (h : c.index p = .ok v) : v.ErrorFree := by
  rcases null_or_contains_of_index h with rfl | hv
  · exact errorFree_null
  · exact fun e he => hc e (he.trans hv)

/-! ## Built-in functions -/

theorem exists_ok_of_bind {α β : Type} {x : Except RuntimeError α}
    {f : α → Except RuntimeError β} {b : β} (h : x >>= f = .ok b) :
    ∃ a, x = .ok a ∧ f a = .ok b := by
  cases x with
  | ok a => exact ⟨a, rfl, h⟩
  | error e => cases h

namespace Builtin

variable {args items : List Value}

theorem errorFree_of_oneArgument (hargs : ∀ a ∈ args, a.ErrorFree)
    (h : oneArgument args = .ok v) : v.ErrorFree := by
  unfold oneArgument at h
  split at h
  · cases h
    exact hargs v List.mem_cons_self
  · cases h

theorem errorFree_of_oneArray {b : Builtin} (hargs : ∀ a ∈ args, a.ErrorFree)
    (h : oneArray b args = .ok items) : ∀ a ∈ items, a.ErrorFree := by
  obtain ⟨v, hv, h⟩ := exists_ok_of_bind h
  have hfree := errorFree_of_oneArgument hargs hv
  split at h <;> cases h
  exact Value.errorFree_array.1 hfree

theorem errorFree_of_applyLength (h : applyLength args = .ok v) : v.ErrorFree := by
  obtain ⟨a, -, h⟩ := exists_ok_of_bind h
  split at h
  · obtain ⟨n, -, h⟩ := exists_ok_of_bind h
    cases h
    exact Value.errorFree_int n
  · obtain ⟨n, -, h⟩ := exists_ok_of_bind h
    cases h
    exact Value.errorFree_int n
  · cases h

theorem errorFree_of_applyLastIndex (h : applyLastIndex args = .ok v) : v.ErrorFree := by
  obtain ⟨items, -, h⟩ := exists_ok_of_bind h
  split at h
  · cases h
    exact Value.errorFree_null
  · obtain ⟨n, -, h⟩ := exists_ok_of_bind h
    cases h
    exact Value.errorFree_int n

theorem errorFree_of_pushArguments (hargs : ∀ a ∈ args, a.ErrorFree)
    (h : pushArguments args = .ok (items, v)) : (∀ a ∈ items, a.ErrorFree) ∧ v.ErrorFree := by
  unfold pushArguments at h
  split at h
  · cases h
    simpa using hargs
  · cases h
  · cases h

end Builtin

end

end ConstScript
