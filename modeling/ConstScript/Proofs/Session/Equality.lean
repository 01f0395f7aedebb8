import ConstScript.Proofs.Session.Identity
import ConstScript.Proofs.Value.Equality

set_option autoImplicit false

/-! # The notions of equality in a session

Values are compared in three ways: by `==`, by their structure, and as keys of maps. For arrays and
maps `==` goes by identity, so it says nothing about structure unless the values come from one
session: there an identity belongs to one object, and values that are equal by `==` are the same. -/

namespace ConstScript

variable [Hashing]

open Relation

namespace Session

variable {inputs : List (Nat × String)} {v w : Value}

/-- In a session, `==` only holds between a value and itself, functions included. -/
theorem eq_of_equal (hv : v.Occurs (Visits inputs)) (hw : w.Occurs (Visits inputs))
    (hkind : v.kind ≠ .error) (h : BinaryOp.equal.apply v w = .ok (.bool true)) : v = w := by
  have hsame := (BinaryOp.equal_apply_iff hkind).1 h
  by_cases hobject : v.objectId?.isSome
  · have hobject' : w.objectId?.isSome :=
      Option.isSome_iff_exists.2 (Value.exists_objectId?_of_kind hobject hsame.1.symm)
    obtain ⟨p, -, hpv, hpw⟩ := (hv.equal_iff hw closedUnderSteps_visits (fun _ => Visits.traced)
      (fun _ _ hp hq => hp.comparable hq) hobject hobject').1 h
    exact hpv.eq hpw
  · exact Value.eq_of_mark? hkind (by simpa using hobject) hsame.1 hsame.2

/-- All tables in a session are such that entries were put into, so no hashed key occurs twice. -/
theorem wellFormed_of_occurs (hv : v.Occurs (Visits inputs)) : v.WellFormed := by
  intro id entries hmap
  obtain ⟨q, w, hq, hw, hcontains⟩ := hv
  have hoccurs : (Value.map id entries).Occurs (Visits inputs) :=
    ⟨q, w, hq, hw, hmap.trans hcontains⟩
  obtain ⟨p, -, hcreates⟩ :=
    hoccurs.exists_creates closedUnderSteps_visits (fun _ => Visits.traced) rfl
  obtain ⟨puts, rfl⟩ := hcreates.exists_puts
  exact Table.nodup_ofPuts puts

/-- How the notions of equality go together in a session. -/
structure EqualitiesAgree (inputs : List (Nat × String)) : Prop where
  /-- Just the values of one kind can be compared by `==`. -/
  comparable : ∀ v w : Value,
    (∃ c, BinaryOp.equal.apply v w = .ok (.bool c)) ↔ v.kind = w.kind
  /-- What can be compared by `==` can be compared by `!=`, with the opposite result. -/
  negation : ∀ (v w : Value) (c : Bool), BinaryOp.equal.apply v w = .ok (.bool c) →
    BinaryOp.notEqual.apply v w = .ok (.bool !c)
  /-- For other values both fail in the same way, each with its own symbol. -/
  failure : ∀ v w : Value, v.kind ≠ w.kind →
    BinaryOp.equal.apply v w = .error (.unknownBinary v.kind .equal w.kind) ∧
    BinaryOp.notEqual.apply v w = .error (.unknownBinary v.kind .notEqual w.kind)
  /-- Among the values of one kind, `==` is an equivalence. -/
  equivalence : ∀ kind : ValueKind, kind ≠ .error →
    Equivalence fun v w : {v : Value // v.kind = kind} =>
      BinaryOp.equal.apply v.1 w.1 = .ok (.bool true)
  /-- Values of the session that are equal by `==` have the same structure. -/
  structural : ∀ v w : Value, v.Occurs (Visits inputs) → w.Occurs (Visits inputs) →
    v.kind ≠ .error → BinaryOp.equal.apply v w = .ok (.bool true) → v.equal w = true
  /-- For values other than arrays and maps the converse holds. -/
  contents : ∀ v w : Value, v.kind ≠ .array → v.kind ≠ .map → v.kind ≠ .error →
    v.equal w = true → BinaryOp.equal.apply v w = .ok (.bool true)
  /-- As keys of maps, values are the same if they have the same kind and `==` holds. -/
  keys : ∀ (v w : Value) (k l : HashedKey), v.hashedKey? = some k → w.hashedKey? = some l →
    TellsApart ([v, w].filterMap Value.toKey?) →
    (k = l ↔ v.kind = w.kind ∧ BinaryOp.equal.apply v w = .ok (.bool true))

/-- **The notions of equality agree** where arrays and maps do not make the difference. -/
theorem equalitiesAgree (inputs : List (Nat × String)) : EqualitiesAgree inputs where
  comparable v w := by
    refine ⟨fun hc => ?_, fun hkind => ?_⟩
    · obtain ⟨c, hc⟩ := hc
      by_contra hkind
      rw [BinaryOp.apply_of_kind_ne rfl hkind] at hc
      cases hc
    · obtain ⟨c, hc, -⟩ := BinaryOp.equal_apply_of_kind_eq hkind
      exact ⟨c, hc⟩
  negation v w c hc := by
    by_cases hkind : v.kind = w.kind
    · obtain ⟨c', hc', hnot⟩ := BinaryOp.equal_apply_of_kind_eq hkind
      rw [hc'] at hc
      cases hc
      exact hnot
    · rw [BinaryOp.apply_of_kind_ne rfl hkind] at hc
      cases hc
  failure v w hkind := ⟨BinaryOp.apply_of_kind_ne rfl hkind, BinaryOp.apply_of_kind_ne rfl hkind⟩
  equivalence _ hkind := BinaryOp.equivalence_equal hkind
  structural v w hv hw hkind h := by
    obtain rfl := eq_of_equal hv hw hkind h
    exact Value.equal_refl (wellFormed_of_occurs hv)
  contents _ _ harray hmap herror h := (Value.equal_iff_of_kind harray hmap herror).1 h
  keys _ _ _ _ hk hl hhash := BinaryOp.hashedKey_eq_iff hk hl hhash

omit [Hashing] in
/-- In the array `[a, [], a]` the name stands twice for the first object of the session. The empty
    array between them has the same structure, but `==` tells it apart. -/
theorem equalitiesAgree_alias :
    let _ : Hashing := .inOrder fun _ => 0
    let inputs := [(0, "const a = []"), (0, "[a, [], a]")]
    let v : Value := .array 0 []
    let w : Value := .array 1 []
    (Value.array 2 [v, w, v]).Occurs (Visits inputs) ∧
    BinaryOp.equal.apply v v = .ok (.bool true) ∧ v.equal v = true ∧
    BinaryOp.equal.apply v w = .ok (.bool false) ∧ v.equal w = true := by
  intro _ inputs v w
  have herrors : (Program.parse "const a = []").errors = [] := by decide +kernel
  have herrors' : (Program.parse "[a, [], a]").errors = [] := by decide +kernel
  have hstatements : (Program.parse "const a = []").program.statements
      = [.const "a" (.array [])] := by
    decide +kernel
  have hstatements' : (Program.parse "[a, [], a]").program.statements
      = [.expr (.array [.name "a", .array [], .name "a"])] := by
    decide +kernel
  have hstore : storeAfter ([] ++ [(0, "const a = []")]) = ⟨#[⟨[("a", v)], none⟩], 1, ""⟩ := by
    rw [storeAfter_of_errors herrors, entry, hstatements]
    rfl
  have hvisits : Visits inputs (entry 0 "[a, [], a]" (storeAfter ([] ++ [(0, "const a = []")]))) :=
    ⟨[(0, "const a = []")], 0, _, [], rfl, herrors', .refl⟩
  let st (objects : Nat) : Store := ⟨#[⟨[("a", v)], none⟩], objects, ""⟩
  have hname : ∀ n, (Expr.name "a").eval (Closure.call 0) start.1 (st n) = .ok v (st n) :=
    fun n => Eval.resolve_of_getOwn? rfl
  have hlast : Expr.evalAll (Closure.call 0) start.1 [.name "a"] (st 2) = .ok [v] (st 2) :=
    Eval.bind_of_ok (hname 2)
  have hitems : Expr.evalAll (Closure.call 0) start.1 [.name "a", .array [], .name "a"] (st 1)
      = .ok [v, w, v] (st 2) :=
    (Eval.bind_of_ok (hname 1)).trans (Eval.bind_of_ok (Eval.bind_of_ok hlast))
  have houtcome : (entry 0 "[a, [], a]" (storeAfter ([] ++ [(0, "const a = []")]))).outcome
      = .ok (.array 2 [v, w, v]) (st 3) := by
    rw [entry, hstatements', hstore]
    exact Eval.bind_of_ok (Eval.bind_of_ok hitems)
  have hoccurs : (Value.array 2 [v, w, v]).Occurs (Visits inputs) :=
    ⟨_, _, hvisits, .value houtcome, .self⟩
  have hv : v.Occurs (Visits inputs) :=
    ⟨_, _, hvisits, .value houtcome, .item List.mem_cons_self .self⟩
  have hsame : v.equal v = true :=
    (equalitiesAgree inputs).structural v v hv hv (by decide) rfl
  exact ⟨hoccurs, rfl, hsame, rfl, rfl⟩

end Session

end ConstScript
