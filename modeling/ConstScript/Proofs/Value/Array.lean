import Mathlib
import ConstScript.Proofs.Eval.Footprint

set_option autoImplicit false

/-! # Arrays as sequences

What `length`, `lastIndex`, `tail`, `push` and the index brackets make of an array is a matter of its
items only. They are read by their positions, with `null` everywhere else (`Value.itemAt`), and the
positions are integers of the language: a length is converted to one, and so has to be small enough,
and a position may be any of them, the negative ones and the largest one included. -/

namespace ConstScript

/-! ## Positions -/

/-- The item at a position, and `null` at positions that are none. -/
def Value.itemAt (items : List Value) (position : Int) : Value :=
  if 0 ≤ position then (items[position.toNat]?).getD .null else .null

namespace Value

variable {items : List Value} {position : Int}

@[simp] theorem itemAt_natCast (items : List Value) (n : Nat) :
    itemAt items n = (items[n]?).getD .null := by
  simp [itemAt]

theorem itemAt_of_neg (h : position < 0) : itemAt items position = .null := by
  simp [itemAt, h]

theorem itemAt_of_le (h : items.length ≤ position) : itemAt items position = .null := by
  lift position to Nat using by omega
  have hnone : items[position]? = none := List.getElem?_eq_none (by omega)
  simp [hnone]

/-- One more item at the end is an item at the position that is the length, and changes no other. -/
theorem itemAt_append_singleton (items : List Value) (x : Value) (position : Int) :
    itemAt (items ++ [x]) position
      = if position = items.length then x else itemAt items position := by
  by_cases hneg : position < 0
  · rw [if_neg (by omega), itemAt_of_neg hneg, itemAt_of_neg hneg]
  · lift position to Nat using by omega
    rcases Nat.lt_trichotomy position items.length with hlt | rfl | hgt
    · rw [if_neg (by omega)]
      simp [List.getElem?_append_left hlt]
    · simp
    · rw [if_neg (by omega), itemAt_of_le (by simp; omega), itemAt_of_le (by omega)]

/-- Without the first item, the others move by one position. -/
theorem itemAt_tail (items : List Value) (h : 0 ≤ position) :
    itemAt items.tail position = itemAt items (position + 1) := by
  lift position to Nat using h
  have hnext : ((position : Int) + 1) = (position + 1 : Nat) := rfl
  rw [hnext, itemAt_natCast, itemAt_natCast, List.getElem?_tail]

theorem itemAt_getLast (h : items ≠ []) :
    itemAt items (items.length - 1 : Nat) = items.getLast h := by
  have hlt : items.length - 1 < items.length := by
    have := List.length_pos_of_ne_nil h
    omega
  rw [itemAt_natCast, List.getElem?_eq_getElem hlt, Option.getD_some, List.getLast_eq_getElem]

end Value

/-! ## Index brackets -/

/-- Below the largest integer, the next one is one more. -/
theorem toInt_add_one {i : Int64} (h : i.toInt < maxInteger) :
    (i + 1).toInt = i.toInt + 1 := by
  have hlow : -2 ^ 63 ≤ i.toInt := Int64.le_toInt i
  have hmax : maxInteger = 9223372036854775807 := rfl
  have hone : (1 : Int64).toInt = 1 := rfl
  rw [Int64.toInt_add, hone, Int.bmod_eq_of_le (by omega) (by omega)]

namespace Value

variable [Hashing] {items : List Value} {i : Int64}

/-- Index brackets read an array at any integer. -/
theorem index_array_eq_itemAt (id : ObjectId) (items : List Value) (i : Int64) :
    (array id items).index (.int i) = .ok (itemAt items i.toInt) := by
  simp only [index, positionOfInteger, itemAt]
  split <;> simp

/-- There is an item at each position from zero up to the length, and `null` at all others. -/
theorem index_array_eq (id : ObjectId) (items : List Value) (i : Int64) :
    (array id items).index (.int i)
      = .ok (if h : 0 ≤ i.toInt ∧ i.toInt < items.length then items[i.toInt.toNat] else .null) := by
  rw [index_array_eq_itemAt]
  split
  · next hi => rw [itemAt, if_pos hi.1, List.getElem?_eq_getElem (by omega), Option.getD_some]
  · next hi =>
    rcases lt_or_ge i.toInt 0 with hneg | hnonneg
    · rw [itemAt_of_neg hneg]
    · rw [itemAt_of_le (by omega)]

theorem index_append_singleton (id id' : ObjectId) (items : List Value) (x : Value) {n : Int64}
    (hn : n.toInt = items.length) (i : Int64) :
    (array id (items ++ [x])).index (.int i)
      = if i = n then .ok x else (array id' items).index (.int i) := by
  rw [index_array_eq_itemAt, index_array_eq_itemAt, itemAt_append_singleton, ← hn]
  simp only [Int64.toInt_inj]
  split <;> rfl

theorem index_tail (id id' : ObjectId) (items : List Value) (hnonneg : 0 ≤ i.toInt)
    (hlt : i.toInt < maxInteger) :
    (array id items.tail).index (.int i) = (array id' items).index (.int (i + 1)) := by
  rw [index_array_eq_itemAt, index_array_eq_itemAt, toInt_add_one hlt,
    itemAt_tail items hnonneg]

end Value

/-! ## Built-in functions -/

/-- A length that is not too large is converted exactly. -/
theorem exists_integerOfLength {n : Nat} (h : n ≤ maxInteger) :
    ∃ k : Int64, k.toInt = n ∧ integerOfLength n = .ok k := by
  have hlt : n < 2 ^ 63 := Nat.lt_succ_of_le h
  exact ⟨Int64.ofNat n, Int64.toInt_ofNat_of_lt hlt, if_pos h⟩

namespace Builtin

variable {items : List Value}

theorem exists_apply_length (h : items.length ≤ maxInteger) :
    ∃ n : Int64, n.toInt = items.length ∧ ∀ (id : ObjectId) (st : Store),
      length.apply [.array id items] st = .ok (.int n) st := by
  obtain ⟨n, hn, hlength⟩ := exists_integerOfLength h
  refine ⟨n, hn, fun id st => ?_⟩
  have happly : applyLength [.array id items] = .ok (.int n) := by
    show (integerOfLength items.length >>= fun k => pure (Value.int k)) = _
    rw [hlength]
    rfl
  rw [apply, happly]
  rfl

theorem apply_lastIndex_nil (id : ObjectId) (st : Store) :
    lastIndex.apply [.array id []] st = .ok .null st :=
  rfl

theorem exists_apply_lastIndex (hne : items ≠ []) (h : items.length ≤ maxInteger) :
    ∃ n : Int64, n.toInt = (items.length - 1 : Nat) ∧ ∀ (id : ObjectId) (st : Store),
      lastIndex.apply [.array id items] st = .ok (.int n) st := by
  cases items with
  | nil => exact absurd rfl hne
  | cons v rest =>
      obtain ⟨n, hn, hlength⟩ := exists_integerOfLength (n := rest.length) (Nat.le_of_succ_le h)
      refine ⟨n, hn, fun id st => ?_⟩
      have happly : applyLastIndex [.array id (v :: rest)] = .ok (.int n) := by
        show (integerOfLength rest.length >>= fun k => pure (Value.int k)) = _
        rw [hlength]
        rfl
      rw [apply, happly]
      rfl

theorem apply_tail (id : ObjectId) (items : List Value) (st : Store) :
    tail.apply [.array id items] st = .ok (.array st.objects items.tail) st.freshObject.2 :=
  rfl

theorem apply_push (id : ObjectId) (items : List Value) (x : Value) (st : Store) :
    push.apply [.array id items, x] st = .ok (.array st.objects (items ++ [x])) st.freshObject.2 :=
  rfl

end Builtin

/-! ## The laws -/

namespace Value

/-- How the array `a` with the given items, the array `pushed` that has `x` after them, and the array
    `rest` without the first of them behave as sequences. The length of `a` is `n`. -/
structure SequenceLaws [Hashing] (items : List Value) (x a : Value) (n : Int64)
    (pushed rest : Value) : Prop where
  length : n.toInt = items.length ∧ ∀ st, Builtin.length.apply [a] st = .ok (.int n) st
  /-- There is an item at each position from zero up to the length, and `null` at all others. -/
  index : ∀ i : Int64, a.index (.int i)
    = .ok (if h : 0 ≤ i.toInt ∧ i.toInt < items.length then items[i.toInt.toNat] else .null)
  length_pushed : ∃ m : Int64, m.toInt = n.toInt + 1 ∧ ∀ st,
    Builtin.length.apply [pushed] st = .ok (.int m) st
  index_pushed : ∀ i : Int64,
    pushed.index (.int i) = if i = n then .ok x else a.index (.int i)
  lastIndex_pushed : ∀ st, Builtin.lastIndex.apply [pushed] st = .ok (.int n) st
  lastIndex : ∀ h : items ≠ [], ∃ i : Int64,
    (∀ st, Builtin.lastIndex.apply [a] st = .ok (.int i) st) ∧
    a.index (.int i) = .ok (items.getLast h)
  lastIndex_nil : items = [] → ∀ st, Builtin.lastIndex.apply [a] st = .ok .null st
  length_rest : ∃ m : Int64, m.toInt = max (n.toInt - 1) 0 ∧ ∀ st,
    Builtin.length.apply [rest] st = .ok (.int m) st
  /-- The largest integer has none after it; from all other positions the items move by one. -/
  index_rest : ∀ i : Int64, 0 ≤ i.toInt → i.toInt < maxInteger →
    rest.index (.int i) = a.index (.int (i + 1))
  /-- The first item can be removed before or after one is added at the end, if there is one. -/
  tail_pushed : items ≠ [] → ∃ items', ∀ st,
    Builtin.tail.apply [pushed] st = .ok (.array st.objects items') st.freshObject.2 ∧
    Builtin.push.apply [rest, x] st = .ok (.array st.objects items') st.freshObject.2
  tail_pushed_nil : items = [] → ∀ st,
    Builtin.tail.apply [pushed] st = .ok (.array st.objects []) st.freshObject.2

open Builtin in
/-- **Arrays are sequences.** For an array whose length is below the largest integer, `push` and
    `tail` give new arrays, and the laws of sequences hold between them and the array. No built-in
    function changes any scope, so whatever is bound to a name has the same items afterwards. -/
theorem sequenceLaws [Hashing] (id : ObjectId) {items : List Value} (h : items.length < maxInteger)
    (x : Value) (st : Store) :
    (∃ n pushed rest, Builtin.push.apply [array id items, x] st = .ok pushed st.freshObject.2 ∧
      Builtin.tail.apply [array id items] st = .ok rest st.freshObject.2 ∧
      SequenceLaws items x (array id items) n pushed rest) ∧
    ∀ (b : Builtin) (args : List Value), st.Keeps ((b.apply args).after st) := by
  obtain ⟨n, hn, hlength⟩ := exists_apply_length (Nat.le_of_lt h)
  have hpushed : (items ++ [x]).length ≤ maxInteger := by
    rw [List.length_append, List.length_singleton]
    exact h
  have hrest : items.tail.length ≤ maxInteger := by
    rw [List.length_tail]
    omega
  obtain ⟨m, hm, hlengthPushed⟩ := exists_apply_length hpushed
  obtain ⟨k, hk, hlengthRest⟩ := exists_apply_length hrest
  obtain ⟨last, hlast, hlastIndexPushed⟩ :=
    exists_apply_lastIndex (List.append_ne_nil_of_right_ne_nil items (List.cons_ne_nil x [])) hpushed
  obtain rfl : last = n := Int64.toInt_inj.1 (by simp [hlast, hn])
  have hlaws : SequenceLaws items x (array id items) last (array st.objects (items ++ [x]))
      (array st.objects items.tail) := by
    constructor
    case length => exact ⟨hn, hlength id⟩
    case index => exact index_array_eq id items
    case length_pushed => exact ⟨m, by simp [hm, hn], hlengthPushed _⟩
    case index_pushed => exact index_append_singleton _ id items x hn
    case lastIndex_pushed => exact hlastIndexPushed _
    case lastIndex =>
      intro hne
      obtain ⟨i, hi, hlastIndex⟩ := exists_apply_lastIndex hne (Nat.le_of_lt h)
      exact ⟨i, hlastIndex id, by rw [index_array_eq_itemAt, hi, itemAt_getLast hne]⟩
    case lastIndex_nil =>
      rintro rfl
      exact apply_lastIndex_nil id
    case length_rest => exact ⟨k, by simp [hk, hn]; omega, hlengthRest _⟩
    case index_rest => exact fun i => index_tail _ id items
    case tail_pushed =>
      intro hne
      refine ⟨items.tail ++ [x], fun st => ⟨?_, apply_push _ _ _ _⟩⟩
      rw [apply_tail, List.tail_append_of_ne_nil hne]
    case tail_pushed_nil =>
      rintro rfl
      exact apply_tail _ _
  exact ⟨⟨last, _, _, apply_push id items x st, apply_tail id items st, hlaws⟩,
    fun b args => Eval.inert_apply b args st⟩

/-- The array `[7, null]`, bound to a name, with a string to be added. -/
theorem sequenceLaws_pair :
    let _ : Hashing := .inOrder fun _ => 0
    let items : List Value := [int 7, null]
    let a := array 0 items
    let st : Store := ⟨#[⟨[("a", a)], none⟩], 1, ""⟩
    items.length < maxInteger ∧
    (∃ n pushed rest, Builtin.push.apply [a, str "x"] st = .ok pushed st.freshObject.2 ∧
      Builtin.tail.apply [a] st = .ok rest st.freshObject.2 ∧
      SequenceLaws items (str "x") a n pushed rest ∧
      pushed.index (int 2) = .ok (str "x") ∧ a.index (int 2) = .ok null ∧
      a.index (int (-1)) = .ok null ∧ rest.index (int 0) = .ok null ∧
      rest.index (int 1) = .ok null) ∧
    ((Builtin.push.apply [a, str "x"]).after st).getOwn? 0 "a" = some a := by
  intro _ items a st
  have hlt : items.length < maxInteger := by decide
  obtain ⟨⟨n, pushed, rest, hpush, htail, hlaws⟩, hkeeps⟩ := sequenceLaws 0 hlt (str "x") st
  obtain rfl : n = 2 := Int64.toInt_inj.1 hlaws.length.1
  refine ⟨hlt, ⟨2, pushed, rest, hpush, htail, hlaws, ?_, ?_, ?_, ?_, ?_⟩, ?_⟩
  · rw [hlaws.index_pushed, if_pos rfl]
  · exact hlaws.index 2
  · exact hlaws.index (-1)
  · exact (hlaws.index_rest 0 (by decide) (by decide)).trans (hlaws.index 1)
  · exact (hlaws.index_rest 1 (by decide) (by decide)).trans (hlaws.index 2)
  · rw [Store.getOwn?_of_getElem? (hkeeps .push [a, str "x"] 0 ⟨[("a", a)], none⟩ rfl)]
    rfl

end Value

end ConstScript
