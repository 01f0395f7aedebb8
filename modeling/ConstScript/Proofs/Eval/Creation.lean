import ConstScript.Proofs.Eval.Order
import ConstScript.Proofs.Value.Object

set_option autoImplicit false

/-! # Where objects are created

An object is created at the point where its literal is evaluated, or the call of a built-in function
that makes arrays. Its identity is given out after all parts have been evaluated and before anything
else is. So an identity tells the point at which the object was created: no two points of an
evaluation create objects with the same one. -/

namespace ConstScript

variable [Hashing]

open Eval Relation

/-- What is evaluated at the point makes a new object. -/
inductive Point.Makes : Point → Prop
  | array {depth : Nat} {scope : ScopeId} {items : List Expr} {st : Store} :
      Makes ⟨depth, scope, .expr (.array items), st⟩
  | map {depth : Nat} {scope : ScopeId} {pairs : List (Expr × Expr)} {st : Store} :
      Makes ⟨depth, scope, .expr (.map pairs), st⟩
  | function {depth : Nat} {scope : ScopeId} {params : List String} {body : List Stmt}
      {st : Store} : Makes ⟨depth, scope, .expr (.fn params body), st⟩
  | builtin {depth : Nat} {scope : ScopeId} {callee : Expr} {args : List Expr} {b : Builtin}
      {st st' : Store} : b.makesArray →
      callee.eval (Closure.call depth) scope st = .ok (.builtin b) st' →
      Makes ⟨depth, scope, .expr (.call callee args), st⟩

/-- The value is created at the point. -/
structure Point.Creates (p : Point) (v : Value) : Prop where
  makes : p.Makes
  outcome : p.outcome = .ok v p.after

namespace Point

variable {p q : Point} {v w : Value}

theorem Makes.creates (h : p.Makes) {st : Store} (houtcome : p.outcome = .ok v st) :
    p.Creates v :=
  ⟨h, after_of_outcome houtcome ▸ houtcome⟩

theorem Creates.eq (hv : p.Creates v) (hw : p.Creates w) : v = w :=
  (EStateM.Result.ok.inj (hv.outcome.symm.trans hw.outcome)).1

/-- All parts have been evaluated when the identity is given out, and nothing is done after it. -/
theorem Creates.spec (h : p.Creates v) : ∃ mid : Store, v.objectId? = some mid.objects ∧
    p.after = mid.freshObject.2 ∧ p.moment.store.Extends mid ∧
    ∀ q, p.Step q → q.after.Extends mid := by
  have houtcome := h.outcome
  cases h.makes with
  | @array depth scope items st =>
      obtain ⟨vs, mid, hitems, hnew⟩ := exists_of_bind_eq_ok houtcome
      obtain ⟨rfl, hafter⟩ := EStateM.Result.ok.inj hnew
      refine ⟨mid, rfl, hafter.symm, (Expr.grows_evalAll depth scope items).of_ok hitems,
        fun q hq => ?_⟩
      cases hq with
      | inside hq =>
          obtain ⟨before, e, rest, vs', st', rfl, hbefore, rfl⟩ := hq.of_array
          rw [← after_of_ok hitems]
          exact Expr.extends_evalAll hbefore e rest
      | enters hq => cases hq
  | @map depth scope pairs st =>
      obtain ⟨puts, mid, hpairs, hnew⟩ := exists_of_bind_eq_ok houtcome
      obtain ⟨rfl, hafter⟩ := EStateM.Result.ok.inj hnew
      refine ⟨mid, rfl, hafter.symm, (Expr.grows_evalPairs depth scope [] pairs).of_ok hpairs,
        fun q hq => ?_⟩
      cases hq with
      | inside hq =>
          obtain ⟨before, k, e, rest, puts', st', rfl, hbefore, hq⟩ := hq.of_map
          rw [← after_of_ok hpairs]
          exact hq.extends_evalPairs hbefore rest
      | enters hq => cases hq
  | @function depth scope params body st =>
      obtain ⟨rfl, hafter⟩ := EStateM.Result.ok.inj houtcome
      refine ⟨st, rfl, hafter.symm, .refl _, fun q hq => ?_⟩
      cases hq with
      | inside hq => cases hq
      | enters hq => cases hq
  | @builtin depth scope callee args b st st' hb hcallee =>
      obtain ⟨f, mid, hf, hrest⟩ := exists_of_bind_eq_ok houtcome
      obtain ⟨rfl, rfl⟩ := ok_unique hcallee hf
      obtain ⟨vs, mid, hargs, happly⟩ := exists_of_bind_eq_ok hrest
      obtain ⟨items, rfl, hafter, -⟩ := Builtin.apply_of_makesArray hb happly
      have hfirst := (Expr.grows_eval depth scope callee).of_ok hcallee
      have hsecond := (Expr.grows_evalAll depth scope args).of_ok hargs
      refine ⟨mid, rfl, hafter, hfirst.trans hsecond, fun q hq => ?_⟩
      cases hq with
      | inside hq =>
          rcases hq.of_call with rfl | ⟨v, st'', before, e, rest, vs', _, hf', rfl, hbefore, rfl⟩
          · exact (Store.Extends.of_eq (after_of_ok hcallee)).trans hsecond
          · obtain ⟨-, rfl⟩ := ok_unique hcallee hf'
            rw [← after_of_ok hargs]
            exact Expr.extends_evalAll hbefore e rest
      | enters hq =>
          cases hq with
          | body g hcallee' _ _ => cases hcallee.symm.trans hcallee'

/-- A map comes about with the table that its literal has put entries into. -/
theorem Creates.exists_puts {id : ObjectId} {entries : List (Entry Value)}
    (h : p.Creates (.map id entries)) : ∃ puts, entries = Table.ofPuts puts := by
  have houtcome := h.outcome
  cases h.makes with
  | array =>
      obtain ⟨vs, mid, -, hnew⟩ := exists_of_bind_eq_ok houtcome
      cases hnew
  | map =>
      obtain ⟨puts, mid, -, hnew⟩ := exists_of_bind_eq_ok houtcome
      cases (EStateM.Result.ok.inj hnew).1
      exact ⟨puts, rfl⟩
  | function => cases houtcome
  | builtin hb hcallee =>
      obtain ⟨f, mid, hf, hrest⟩ := exists_of_bind_eq_ok houtcome
      obtain ⟨rfl, rfl⟩ := ok_unique hcallee hf
      obtain ⟨vs, mid, -, happly⟩ := exists_of_bind_eq_ok hrest
      obtain ⟨items, hmap, -⟩ := Builtin.apply_of_makesArray hb happly
      cases hmap

theorem Creates.isSome_objectId? (h : p.Creates v) : v.objectId?.isSome := by
  obtain ⟨mid, hid, -⟩ := h.spec
  exact hid ▸ rfl

/-- What was reached on the way is over when the identity is given out. -/
theorem Creates.lt_of_reaches (hp : p.Creates v) (hq : q.Creates w)
    (h : TransGen Step p q) {i j : ObjectId} (hi : v.objectId? = some i)
    (hj : w.objectId? = some j) : j < i := by
  obtain ⟨mid, hid, -, -, hparts⟩ := hp.spec
  obtain ⟨mid', hid', hafter, -, -⟩ := hq.spec
  obtain ⟨c, hstep, hreaches⟩ := TransGen.head'_iff.1 h
  have hle := ((extends_of_reaches hreaches).2.trans (hparts c hstep)).objects
  rw [hafter] at hle
  obtain rfl := Option.some.inj (hi.symm.trans hid)
  obtain rfl := Option.some.inj (hj.symm.trans hid')
  exact hle

theorem Creates.lt_of_before (hp : p.Creates v) (hq : q.Creates w) (h : p.Before q)
    {i j : ObjectId} (hi : v.objectId? = some i) (hj : w.objectId? = some j) : i < j := by
  obtain ⟨mid, hid, hafter, -, -⟩ := hp.spec
  obtain ⟨mid', hid', -, hbegin, -⟩ := hq.spec
  have hle := (Store.Extends.trans h hbegin).objects
  rw [hafter] at hle
  obtain rfl := Option.some.inj (hi.symm.trans hid)
  obtain rfl := Option.some.inj (hj.symm.trans hid')
  exact hle

/-- **An identity tells where an object was created.** -/
theorem Creates.point_eq (hp : p.Creates v) (hq : q.Creates w) (h : p.Comparable q)
    (hid : v.objectId? = w.objectId?) : p = q := by
  obtain ⟨id, hv⟩ := Option.isSome_iff_exists.1 hp.isSome_objectId?
  have hw : w.objectId? = some id := hid ▸ hv
  rcases h with h | h | h | h
  · rcases reflTransGen_iff_eq_or_transGen.1 h with rfl | h
    · rfl
    · exact absurd (hp.lt_of_reaches hq h hv hw) (Nat.lt_irrefl id)
  · rcases reflTransGen_iff_eq_or_transGen.1 h with rfl | h
    · rfl
    · exact absurd (hq.lt_of_reaches hp h hw hv) (Nat.lt_irrefl id)
  · exact absurd (hp.lt_of_before hq h hv hw) (Nat.lt_irrefl id)
  · exact absurd (hq.lt_of_before hp h hw hv) (Nat.lt_irrefl id)

end Point

end ConstScript
