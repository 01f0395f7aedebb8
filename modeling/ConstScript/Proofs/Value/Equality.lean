import ConstScript.Proofs.Value.HashedKey
import ConstScript.Proofs.Value.WellFormed

set_option autoImplicit false

/-! # What the notions of equality have to do with each other

For `==` there is one *mark* of each value that counts: the key or the built-in function that it is,
or its identity if it is an object. So `==` is an equivalence among the values of one kind, and on
values that can be keys it is the equality of keys. `Value.equal` looks at the contents of arrays
and maps instead, where it is reflexive as soon as tables have one entry for each hashed key, and at
nothing but the mark in values of other kinds. -/

namespace ConstScript

/-! ## Marks -/

/-- What `==` looks at in a value. -/
inductive Mark where
  | key (k : Key)
  | null
  | builtin (b : Builtin)
  | object (id : ObjectId)

/-- The mark of a value; an error has none. -/
def Value.mark? : Value → Option Mark
  | int n => some (.key (.int n))
  | bool b => some (.key (.bool b))
  | str s => some (.key (.str s))
  | null => some .null
  | array id _ | map id _ => some (.object id)
  | function f => some (.object f.id)
  | builtin b => some (.builtin b)
  | error _ => none

theorem Value.mark?_of_toKey? {v : Value} {key : Key} (h : v.toKey? = some key) :
    v.mark? = some (.key key) := by
  cases v <;> cases h <;> rfl

/-- The mark of a key tells its kind. -/
theorem Value.kind_eq_of_toKey? {v w : Value} {key : Key} (hv : v.toKey? = some key)
    (hw : w.toKey? = some key) : v.kind = w.kind := by
  cases v <;> cases hv <;> cases w <;> cases hw <;> rfl

/-- Where there is no identity, the mark is all there is. -/
theorem Value.eq_of_mark? {v w : Value} (herror : v.kind ≠ .error) (hobject : v.objectId? = none)
    (hkind : v.kind = w.kind) (hmark : v.mark? = w.mark?) : v = w := by
  cases v <;> cases w <;> cases hkind
  case error.error.refl => exact absurd rfl herror
  case array.array.refl | map.map.refl | function.function.refl => cases hobject
  case null.null.refl => rfl
  all_goals simpa [mark?] using hmark

/-! ## Values of one kind and of different kinds -/

namespace BinaryOp

variable {v w : Value}

/-- Two values of one kind are equal or not. -/
theorem equal_apply_of_kind_eq (h : v.kind = w.kind) :
    ∃ c, equal.apply v w = .ok (.bool c) ∧ notEqual.apply v w = .ok (.bool !c) := by
  cases v <;> cases w <;> cases h
  case int.int.refl m n => exact ⟨m = n, rfl, by simp [apply, applyInt]⟩
  case str.str.refl s t => exact ⟨s = t, rfl, by simp [apply, applyStr]⟩
  all_goals exact ⟨_, rfl, rfl⟩

/-- Values of different kinds cannot be compared. -/
theorem apply_of_kind_ne {op : BinaryOp} (hop : op.isEquality) (h : v.kind ≠ w.kind) :
    op.apply v w = .error (.unknownBinary v.kind op w.kind) := by
  unfold apply
  split
  · exact absurd rfl h
  · exact absurd rfl h
  · rw [if_neg h, if_pos hop]

/-- Values are equal if they have the same kind and the same mark. -/
theorem equal_apply_iff (hv : v.kind ≠ .error) :
    equal.apply v w = .ok (.bool true) ↔ v.kind = w.kind ∧ v.mark? = w.mark? := by
  by_cases hkind : v.kind = w.kind
  · rw [and_iff_right hkind]
    cases v <;> cases w <;> cases hkind
    case error.error.refl => exact absurd rfl hv
    all_goals
      simp [apply, applyInt, applyStr, applyIdentity, Value.kind, Value.identical, Value.mark?]
  · rw [apply_of_kind_ne rfl hkind]
    simp [hkind]

/-- Among the values of one kind, `==` is an equivalence. -/
theorem equivalence_equal {kind : ValueKind} (hkind : kind ≠ .error) :
    Equivalence fun v w : {v : Value // v.kind = kind} =>
      equal.apply v.1 w.1 = .ok (.bool true) := by
  have hmarks : ∀ v w : {v : Value // v.kind = kind},
      equal.apply v.1 w.1 = .ok (.bool true) ↔ v.1.mark? = w.1.mark? := fun v w =>
    (equal_apply_iff (v.2.symm ▸ hkind)).trans (and_iff_right (v.2.trans w.2.symm))
  constructor
  · exact fun v => (hmarks v v).2 rfl
  · exact fun {v w} h => (hmarks w v).2 ((hmarks v w).1 h).symm
  · exact fun {u v w} h h' => (hmarks u w).2 (((hmarks u v).1 h).trans ((hmarks v w).1 h'))

/-- Values that can be keys are equal if they are the same key, and so if they have the same hashed
    key. -/
theorem hashedKey_eq_iff [Hashing] {k l : HashedKey} (hk : v.hashedKey? = some k)
    (hl : w.hashedKey? = some l) (h : TellsApart ([v, w].filterMap Value.toKey?)) :
    k = l ↔ v.kind = w.kind ∧ equal.apply v w = .ok (.bool true) := by
  obtain ⟨key, hv, rfl⟩ := Option.map_eq_some_iff.1 hk
  obtain ⟨key', hw, rfl⟩ := Option.map_eq_some_iff.1 hl
  have hkeys : [v, w].filterMap Value.toKey? = [key, key'] := by simp [hv, hw]
  rw [hkeys] at h
  have hkind : v.kind ≠ .error := fun herror => by
    cases v <;> cases herror
    cases hv
  rw [Key.hashed_inj h (by simp) (by simp), equal_apply_iff hkind,
    Value.mark?_of_toKey? hv, Value.mark?_of_toKey? hw]
  constructor
  · rintro rfl
    exact ⟨Value.kind_eq_of_toKey? hv hw, Value.kind_eq_of_toKey? hv hw, rfl⟩
  · rintro ⟨-, -, hmark⟩
    exact Mark.key.inj (Option.some.inj hmark)

end BinaryOp

/-! ## Structure -/

namespace Value

theorem equalItems_iff {vs ws : List Value} :
    equalItems vs ws = true ↔ List.Forall₂ (fun v w => v.equal w = true) vs ws := by
  induction vs generalizing ws with
  | nil => cases ws <;> simp [equalItems]
  | cons v vs ih => cases ws <;> simp [equalItems, ih]

theorem equalEntries_iff {es fs : List (Entry Value)} :
    equalEntries es fs = true ↔ ∀ e ∈ es, ∃ f, Table.find? e.hashed fs = some f ∧
      e.key = f.key ∧ e.value.equal f.value = true := by
  induction es with
  | nil => simp [equalEntries]
  | cons e es ih =>
      rw [equalEntries, Bool.and_eq_true, ih, List.forall_mem_cons]
      cases Table.find? e.hashed fs <;> simp

/-- Arrays have the same structure if their items do. -/
theorem equal_array {id id' : ObjectId} {vs ws : List Value} :
    (array id vs).equal (array id' ws) = true ↔
      List.Forall₂ (fun v w => v.equal w = true) vs ws := by
  rw [equal, equalItems_iff]

/-- Maps have the same structure if their tables have the same length and each entry of the first has
    its counterpart in the second. -/
theorem equal_map {id id' : ObjectId} {es fs : List (Entry Value)} :
    (map id es).equal (map id' fs) = true ↔ es.length = fs.length ∧
      ∀ e ∈ es, ∃ f, Table.find? e.hashed fs = some f ∧
        e.key = f.key ∧ e.value.equal f.value = true := by
  rw [equal, Bool.and_eq_true, beq_iff_eq, equalEntries_iff]

theorem equal_refl {v : Value} (h : v.WellFormed) : v.equal v = true := by
  induction v using nestedInduction with
  | array id items ih =>
      refine equal_array.2 (List.forall₂_same.2 fun v hv => ih v hv ?_)
      exact wellFormed_array.1 h v hv
  | map id entries ih =>
      obtain ⟨hnodup, hvalues⟩ := wellFormed_map.1 h
      refine equal_map.2 ⟨rfl, fun e he => ⟨e, ?_, rfl, ih e he (hvalues e he)⟩⟩
      exact (Table.find?_eq_some_iff hnodup).2 ⟨he, rfl⟩
  | other v harray hmap =>
      cases v
      case array => exact absurd rfl harray
      case map => exact absurd rfl hmap
      all_goals simp [equal]

variable {v w : Value}

/-- Where there is no structure, `Value.equal` is the same as `==`. -/
theorem equal_iff_of_kind (harray : v.kind ≠ .array) (hmap : v.kind ≠ .map)
    (herror : v.kind ≠ .error) :
    v.equal w = true ↔ BinaryOp.equal.apply v w = .ok (.bool true) := by
  rw [BinaryOp.equal_apply_iff herror]
  cases v
  case array => exact absurd rfl harray
  case map => exact absurd rfl hmap
  case error => exact absurd rfl herror
  all_goals cases w <;> simp [equal, kind, mark?]

end Value

end ConstScript
