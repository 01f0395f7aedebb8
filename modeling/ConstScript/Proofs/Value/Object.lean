import ConstScript.Proofs.Eval.Sequence
import ConstScript.Proofs.Value.ErrorFree

set_option autoImplicit false

/-! # Objects

Arrays, maps and functions are objects: they have an identity, and `==` compares two objects of one
kind by it. Operators make no objects, index brackets only hand out what is in a collection already,
and among the built-in functions only `tail` and `push` make new arrays. -/

namespace ConstScript

/-! ## Identities -/

/-- The identity of an object. -/
def Value.objectId? : Value → Option ObjectId
  | array id _ | map id _ => some id
  | function f => some f.id
  | _ => none

/-- Between objects of one kind, `==` compares identities. -/
theorem BinaryOp.equal_apply_objects {u v : Value} {i j : ObjectId} (hu : u.objectId? = some i)
    (hv : v.objectId? = some j) (hkind : u.kind = v.kind) :
    BinaryOp.equal.apply u v = .ok (.bool (i == j)) := by
  cases u <;> cases v <;> cases hkind <;> cases hu <;> cases hv <;> rfl

/-! ## Values that are no objects -/

/-- What is in a value that is no object is the value itself. -/
theorem Value.Contains.eq_of_objectId? {w v : Value} (h : Contains w v)
    (hv : v.objectId? = none) : w = v := by
  cases h with
  | self => rfl
  | item | entry => cases hv

section

variable {v w u : Value}

theorem UnaryOp.objectId?_of_apply {op : UnaryOp} (h : op.apply v = .ok w) :
    w.objectId? = none := by
  unfold UnaryOp.apply at h
  split at h <;> cases h <;> rfl

theorem BinaryOp.objectId?_of_apply {op : BinaryOp} (h : op.apply v w = .ok u) :
    u.objectId? = none := by
  unfold BinaryOp.apply at h
  split at h
  · cases op with
    | div =>
        simp only [applyInt] at h
        split at h <;> cases h
        rfl
    | _ =>
        cases h
        rfl
  · unfold applyStr at h
    split at h <;> cases h <;> rfl
  · split at h
    · unfold applyIdentity at h
      split at h <;> cases h <;> rfl
    · split at h <;> cases h

end

/-! ## Built-in functions -/

namespace Builtin

open Eval

/-- The built-in functions that make a new array. -/
def makesArray : Builtin → Bool
  | tail | push => true
  | length | lastIndex | print => false

theorem eq_of_oneArray {b : Builtin} {args items : List Value} (h : oneArray b args = .ok items) :
    ∃ id, args = [.array id items] := by
  obtain ⟨v, hv, hitems⟩ := exists_ok_of_bind h
  clear h
  unfold oneArgument at hv
  split at hv <;> cases hv
  split at hitems <;> cases hitems
  exact ⟨_, rfl⟩

theorem eq_of_pushArguments {args items : List Value} {v : Value}
    (h : pushArguments args = .ok (items, v)) : ∃ id, args = [.array id items, v] := by
  unfold pushArguments at h
  split at h <;> cases h
  exact ⟨_, rfl⟩

theorem objectId?_of_applyLength {args : List Value} {v : Value} (h : applyLength args = .ok v) :
    v.objectId? = none := by
  obtain ⟨a, -, h⟩ := exists_ok_of_bind h
  split at h
  · obtain ⟨n, -, h⟩ := exists_ok_of_bind h
    cases h
    rfl
  · obtain ⟨n, -, h⟩ := exists_ok_of_bind h
    cases h
    rfl
  · cases h

theorem objectId?_of_applyLastIndex {args : List Value} {v : Value}
    (h : applyLastIndex args = .ok v) : v.objectId? = none := by
  obtain ⟨items, -, h⟩ := exists_ok_of_bind h
  split at h
  · cases h
    rfl
  · obtain ⟨n, -, h⟩ := exists_ok_of_bind h
    cases h
    rfl

/-- What a new array holds was in an argument. -/
theorem apply_of_makesArray {b : Builtin} (hb : b.makesArray) {args : List Value} {v : Value}
    {st st' : Store} (h : b.apply args st = .ok v st') :
    ∃ items, v = .array st.objects items ∧ st' = st.freshObject.2 ∧
      ∀ w ∈ items, ∃ a ∈ args, w.Contains a := by
  cases b with
  | length | lastIndex | print => cases hb
  | tail =>
      obtain ⟨items, mid, hitems, hnew⟩ := exists_of_bind_eq_ok h
      obtain ⟨hargs, rfl⟩ := eq_of_ofExcept_eq_ok hitems
      obtain ⟨id, rfl⟩ := eq_of_oneArray hargs
      cases hnew
      exact ⟨_, rfl, rfl, fun w hw =>
        ⟨_, List.mem_singleton_self _, .item (List.mem_of_mem_tail hw) .self⟩⟩
  | push =>
      obtain ⟨⟨items, v⟩, mid, hitems, hnew⟩ := exists_of_bind_eq_ok h
      obtain ⟨hargs, rfl⟩ := eq_of_ofExcept_eq_ok hitems
      obtain ⟨id, rfl⟩ := eq_of_pushArguments hargs
      cases hnew
      refine ⟨_, rfl, rfl, fun w hw => ?_⟩
      rcases List.mem_append.1 hw with hw | hw
      · exact ⟨_, List.mem_cons_self, .item hw .self⟩
      · obtain rfl := List.mem_singleton.1 hw
        exact ⟨w, List.mem_cons_of_mem _ (List.mem_singleton_self w), .self⟩

end Builtin

end ConstScript
