import ConstScript.Proofs.Eval.Origin

set_option autoImplicit false

/-! # New objects

When an object is created it differs from everything that is there already: whatever is bound in some
scope, or was handled at a point that is over, was created before, and so has an identity that was
given out before. Among all objects that an evaluation handles, those with the same identity have the
same origin. -/

namespace ConstScript

open Eval Relation

/-- What is there when an object is created at the point: what scopes bind; what was handled at points
    that are over by then, such as those of the items, entries and arguments that go into the object
    and those of earlier parts of the phrases around it; and all that is in such values. -/
inductive Point.Finds [Hashing] (V : Point → Prop) (p : Point) : Value → Prop
  | bound {id : ScopeId} {name : String} {v : Value} :
      p.after.getOwn? id name = some v → Finds V p v
  | handled {q : Point} {v : Value} : V q → q.Before p ∨ TransGen Point.Step p q → q.Handles v →
      Finds V p v
  | part {v w : Value} : w.Contains v → Finds V p v → Finds V p w

/-- The value is handled at one of the points, or in one that is. -/
def Value.Occurs [Hashing] (V : Point → Prop) (v : Value) : Prop :=
  ∃ q w, V q ∧ q.Handles w ∧ v.Contains w

/-! ## Comparing objects -/

section

variable {u v : Value} {i j : ObjectId}

theorem Value.exists_objectId?_of_kind (hv : v.objectId?.isSome) (hkind : u.kind = v.kind) :
    ∃ i, u.objectId? = some i := by
  cases v <;> cases hv <;> cases u <;> cases hkind <;> exact ⟨_, rfl⟩

theorem BinaryOp.equal_apply_self (hv : v.objectId?.isSome) :
    BinaryOp.equal.apply v v = .ok (.bool true) := by
  obtain ⟨i, hi⟩ := Option.isSome_iff_exists.1 hv
  rw [BinaryOp.equal_apply_objects hi hi rfl, beq_self_eq_true]

/-- Objects that are equal have the same identity. -/
theorem Value.objectId?_eq_of_equal (hu : u.objectId?.isSome) (hv : v.objectId?.isSome)
    (h : BinaryOp.equal.apply u v = .ok (.bool true)) : u.objectId? = v.objectId? := by
  obtain ⟨i, hi⟩ := Option.isSome_iff_exists.1 hu
  obtain ⟨j, hj⟩ := Option.isSome_iff_exists.1 hv
  by_cases hkind : u.kind = v.kind
  · rw [BinaryOp.equal_apply_objects hi hj hkind] at h
    obtain rfl : i = j := by simpa using h
    exact hi.trans hj.symm
  · cases u <;> cases hu <;> cases v <;> cases hv <;> first | exact absurd rfl hkind | cases h

end

/-! ## The store in which an object is created -/

variable [Hashing]

section

variable {V : Point → Prop} {p q : Point} {u v : Value}

omit [Hashing] in
theorem Store.eq_of_freshObject_eq {st st' : Store} (h : st.freshObject.2 = st'.freshObject.2) :
    st = st' := by
  obtain ⟨scopes, objects, output⟩ := st
  obtain ⟨scopes', objects', output'⟩ := st'
  obtain ⟨rfl, hobjects, rfl⟩ := Store.mk.inj h
  obtain rfl := Nat.succ.inj hobjects
  rfl

/-- Everything that scopes bind when an object is created is traced. -/
theorem Point.Creates.traced (h : p.Creates v) (hV : ClosedUnderSteps V) (hp : V p)
    (hst : p.moment.store.Traced V) : ∃ mid : Store, p.after = mid.freshObject.2 ∧ mid.Traced V := by
  have houtcome := h.outcome
  -- The store left behind has the new identity, so that it is traced says too little: what scopes
  -- bind has to be traced before it is given out.
  cases h.makes with
  | @array depth scope items st =>
      obtain ⟨vs, mid, hitems, hnew⟩ := exists_of_bind_eq_ok houtcome
      obtain ⟨-, hafter⟩ := EStateM.Result.ok.inj hnew
      have hvisits := hV.visitsItems hp
      have htraced := Expr.traced_evalAll hV (Closure.traced_call hV depth) scope items hvisits hst
      exact ⟨mid, hafter.symm, (htraced.of_ok hitems).2⟩
  | @map depth scope pairs st =>
      obtain ⟨puts, mid, hpairs, hnew⟩ := exists_of_bind_eq_ok houtcome
      obtain ⟨-, hafter⟩ := EStateM.Result.ok.inj hnew
      have hvisits := hV.visitsPairs hp
      have htraced := Expr.traced_evalPairs hV (Closure.traced_call hV depth) scope pairs hvisits
        (by simp) hst
      exact ⟨mid, hafter.symm, (htraced.of_ok hpairs).2⟩
  | @function depth scope params body st =>
      obtain ⟨-, hafter⟩ := EStateM.Result.ok.inj houtcome
      exact ⟨st, hafter.symm, hst⟩
  | @builtin depth scope callee args b st st' hb hcallee =>
      obtain ⟨f, mid, hf, hrest⟩ := exists_of_bind_eq_ok houtcome
      obtain ⟨rfl, rfl⟩ := ok_unique hcallee hf
      obtain ⟨vs, mid, hargs, happly⟩ := exists_of_bind_eq_ok hrest
      obtain ⟨items, rfl, hafter, -⟩ := Builtin.apply_of_makesArray hb happly
      have hcall := Closure.traced_call hV depth
      have hmid := ((Expr.traced_eval hV hcall scope callee (hV _ _ hp (.inside .callee))
        hst).of_ok hcallee).2
      have htraced := Expr.traced_evalAll hV hcall scope args (hV.visitsArguments hp hcallee) hmid
      exact ⟨mid, hafter, (htraced.of_ok hargs).2⟩

/-- What is there when an object is created was created before. -/
theorem Point.Finds.traced (h : p.Finds V u) (hV : ClosedUnderSteps V)
    (hstores : ∀ q, V q → q.moment.store.Traced V) (hp : V p) (hv : p.Creates v) :
    ∃ mid : Store, v.objectId? = some mid.objects ∧ u.Traced V mid := by
  obtain ⟨mid, hid, hafter, hbegin, hparts⟩ := hv.spec
  refine ⟨mid, hid, ?_⟩
  induction h with
  | bound hu =>
      obtain ⟨mid', hafter', hmid'⟩ := hv.traced hV hp (hstores p hp)
      obtain rfl := Store.eq_of_freshObject_eq (hafter.symm.trans hafter')
      rw [hafter] at hu
      exact hmid' _ _ _ hu
  | @handled q u hq hover hu =>
      refine (hu.traced hV hq (hstores q hq)).mono ?_
      rcases hover with hbefore | hinside
      · exact Store.Extends.trans hbefore hbegin
      · obtain ⟨c, hstep, hreaches⟩ := TransGen.head'_iff.1 hinside
        exact (extends_of_reaches hreaches).2.trans (hparts c hstep)
  | part hcontains _ ih => exact ih.of_contains hcontains

/-- **A new object is none of those that are there.** -/
theorem Point.Finds.not_equal (h : p.Finds V u) (hV : ClosedUnderSteps V)
    (hstores : ∀ q, V q → q.moment.store.Traced V) (hp : V p) (hv : p.Creates v)
    (hkind : u.kind = v.kind) :
    BinaryOp.equal.apply u v = .ok (.bool false) ∧
      BinaryOp.equal.apply v u = .ok (.bool false) := by
  obtain ⟨mid, hid, htraced⟩ := h.traced hV hstores hp hv
  obtain ⟨i, hi⟩ := Value.exists_objectId?_of_kind hv.isSome_objectId? hkind
  have hne := Nat.ne_of_lt (htraced.lt_objects hi)
  rw [BinaryOp.equal_apply_objects hi hid hkind, BinaryOp.equal_apply_objects hid hi hkind.symm,
    beq_false_of_ne hne, beq_false_of_ne hne.symm]
  exact ⟨rfl, rfl⟩

theorem Value.Occurs.exists_creates (h : v.Occurs V) (hV : ClosedUnderSteps V)
    (hstores : ∀ q, V q → q.moment.store.Traced V) (hv : v.objectId?.isSome) :
    ∃ p, V p ∧ p.Creates v := by
  obtain ⟨q, w, hq, hw, hcontains⟩ := h
  obtain ⟨p, hp, hcreates, -⟩ := hw.traced hV hq (hstores q hq) v hcontains hv
  exact ⟨p, hp, hcreates⟩

/-- **Objects are equal if they have the same origin**, and not otherwise. -/
theorem Value.Occurs.equal_iff (hu : u.Occurs V) (hv : v.Occurs V) (hV : ClosedUnderSteps V)
    (hstores : ∀ q, V q → q.moment.store.Traced V) (hcomparable : ∀ p q, V p → V q → p.Comparable q)
    (hu' : u.objectId?.isSome) (hv' : v.objectId?.isSome) :
    BinaryOp.equal.apply u v = .ok (.bool true) ↔ ∃ p, V p ∧ p.Creates u ∧ p.Creates v := by
  constructor
  · intro h
    obtain ⟨p, hp, hpu⟩ := hu.exists_creates hV hstores hu'
    obtain ⟨q, hq, hqv⟩ := hv.exists_creates hV hstores hv'
    have hid := Value.objectId?_eq_of_equal hu' hv' h
    obtain rfl := hpu.point_eq hqv (hcomparable p q hp hq) hid
    exact ⟨p, hp, hpu, hqv⟩
  · rintro ⟨p, -, hpu, hpv⟩
    obtain rfl := hpu.eq hpv
    exact BinaryOp.equal_apply_self hu'

end

end ConstScript
