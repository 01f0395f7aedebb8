import ConstScript.Proofs.Eval.DataFlow
import ConstScript.Proofs.Eval.Freshness
import ConstScript.Proofs.Session.Concatenation
import ConstScript.Syntax.Equality

set_option autoImplicit false

/-! # Identities in a session

In a session each object has one origin, which is the point where it was created. A new object is
equal to none that is there already, and an object stays the same one wherever it goes: when it is
bound, passed, returned, captured or put into an array or a map. So two objects are equal iff they
have the same origin. -/

namespace ConstScript

open Eval Relation

/-- The report leaves the store as the execution has left it. -/
theorem RunResult.ofOutcome_store (x : Eval Value) (st : Store) :
    (RunResult.ofOutcome (x st)).2 = x.after st := by
  unfold Eval.after
  cases x st with
  | ok v st' => rfl
  | error stop st' => cases stop <;> rfl

variable [Hashing]

namespace Session

/-! ## The points of a session -/

/-- The store after texts have been run one after another in a new scope, each with at most the given
    number of nested calls. -/
def storeAfter (inputs : List (Nat × String)) : Store :=
  inputs.foldl (fun st input => (run input.1 start.1 input.2 st).2) start.2

/-- The point at which the execution of a text begins. -/
def entry (depth : Nat) (source : String) (st : Store) : Point :=
  ⟨depth, start.1, .block (Program.parse source).program.statements, st⟩

/-- The execution of one of the texts comes to the point. -/
inductive Visits (inputs : List (Nat × String)) (p : Point) : Prop
  | intro (before : List (Nat × String)) (depth : Nat) (source : String)
      (rest : List (Nat × String)) : inputs = before ++ (depth, source) :: rest →
      (Program.parse source).errors = [] →
      ReflTransGen Point.Step (entry depth source (storeAfter before)) p → Visits inputs p

variable {inputs before rest : List (Nat × String)} {depth : Nat} {source : String} {p q : Point}

theorem storeAfter_append_singleton (before : List (Nat × String)) (depth : Nat)
    (source : String) :
    storeAfter (before ++ [(depth, source)]) = (run depth start.1 source (storeAfter before)).2 :=
  List.foldl_append

/-- Running a text leaves behind what its execution does; a rejected one changes nothing. -/
theorem run_store (depth : Nat) (source : String) (st : Store) :
    (run depth start.1 source st).2
      = if (Program.parse source).errors = [] then (entry depth source st).after else st := by
  by_cases herrors : (Program.parse source).errors = []
  · rw [if_pos herrors, run_eq herrors]
    exact RunResult.ofOutcome_store _ st
  · rw [if_neg herrors, run_rejected herrors]

theorem storeAfter_of_errors (h : (Program.parse source).errors = []) :
    storeAfter (before ++ [(depth, source)]) = (entry depth source (storeAfter before)).after := by
  rw [storeAfter_append_singleton, run_store, if_pos h]

theorem extends_storeAfter (before rest : List (Nat × String)) :
    (storeAfter before).Extends (storeAfter (before ++ rest)) := by
  induction rest using List.reverseRecOn with
  | nil => exact .of_eq (by rw [List.append_nil])
  | append_singleton rest input ih =>
      refine ih.trans ?_
      rw [← List.append_assoc, storeAfter_append_singleton, run_store]
      split
      · exact (entry _ _ _).extends_after
      · exact .refl _

theorem closedUnderSteps_visits : ClosedUnderSteps (Visits inputs) := by
  rintro p q ⟨before, depth, source, rest, hinputs, herrors, hreaches⟩ hstep
  exact ⟨before, depth, source, rest, hinputs, herrors, hreaches.tail hstep⟩

/-! ## Invariants -/

theorem traced_storeAfter (h : inputs = before ++ rest) :
    (storeAfter before).Traced (Visits inputs) := by
  induction before using List.reverseRecOn generalizing rest with
  | nil => exact Store.traced_empty.openScope none
  | append_singleton before input ih =>
      obtain ⟨depth, source⟩ := input
      rw [List.append_assoc] at h
      have hbefore := ih h
      rw [storeAfter_append_singleton, run_store]
      split
      · next herrors =>
        have hentry : Visits inputs (entry depth source (storeAfter before)) :=
          ⟨before, depth, source, rest, h, herrors, .refl⟩
        exact (Point.traced_outcome closedUnderSteps_visits hentry hbefore).after
      · exact hbefore

theorem Visits.traced (h : Visits inputs p) : p.moment.store.Traced (Visits inputs) := by
  obtain ⟨before, depth, source, rest, hinputs, herrors, hreaches⟩ := h
  have hentry : Visits inputs (entry depth source (storeAfter before)) :=
    ⟨before, depth, source, rest, hinputs, herrors, .refl⟩
  exact (Point.traced_of_reaches closedUnderSteps_visits hreaches hentry
    (traced_storeAfter hinputs)).2

/-- What is executed in one text is over when a later one begins. -/
theorem before_of_later {mid : List (Nat × String)} {depth' : Nat} {source' : String}
    (herrors : (Program.parse source).errors = [])
    (hp : ReflTransGen Point.Step (entry depth source (storeAfter before)) p)
    (hq : ReflTransGen Point.Step
      (entry depth' source' (storeAfter (before ++ (depth, source) :: mid))) q) : p.Before q := by
  have hover : (entry depth source (storeAfter before)).Before
      (entry depth' source' (storeAfter (before ++ (depth, source) :: mid))) := by
    have hextends := extends_storeAfter (before ++ [(depth, source)]) mid
    rwa [storeAfter_of_errors herrors, ← List.append_cons] at hextends
  exact hover.of_reaches hp hq

theorem Visits.comparable (hp : Visits inputs p) (hq : Visits inputs q) : p.Comparable q := by
  obtain ⟨before, depth, source, rest, rfl, herrors, hreaches⟩ := hp
  obtain ⟨before', depth', source', rest', hinputs, herrors', hreaches'⟩ := hq
  rcases append_cons_cases hinputs with ⟨rfl, hsame, -⟩ | ⟨mid, rfl⟩ | ⟨mid, rfl⟩
  · obtain ⟨rfl, rfl⟩ := Prod.mk.inj hsame
    exact Point.comparable_of_reaches hreaches hreaches'
  · exact .inr (.inr (.inl (before_of_later herrors hreaches hreaches')))
  · exact .inr (.inr (.inr (before_of_later herrors' hreaches' hreaches)))

/-- The scope in which something is evaluated exists. -/
theorem Visits.scope_lt (h : Visits inputs p) : p.scope < p.moment.store.scopes.size := by
  obtain ⟨before, depth, source, rest, -, -, hreaches⟩ := h
  induction hreaches with
  | refl =>
      have hstart : start.1 < start.2.scopes.size := by decide
      exact (extends_storeAfter [] before).lt_size hstart
  | tail _ hstep ih =>
      cases hstep with
      | inside hinside => exact hinside.extends_store.lt_size ih
      | enters henters =>
          cases henters with
          | body f _ _ henter =>
              obtain ⟨-, ⟨s, hs, -⟩, -⟩ := Closure.enter_spec henter
              exact (Array.getElem?_eq_some_iff.1 hs).1

/-! ## Identities -/

/-- How the objects of a session can be told apart. -/
structure KeepsIdentities (inputs : List (Nat × String)) : Prop where
  /-- A literal of an array, a map or a function, `tail` and `push` make an object that is equal to
      nothing that is there already. -/
  fresh : ∀ (p : Point) (v : Value) (st : Store), Visits inputs p → p.Makes →
    p.outcome = .ok v st → v.objectId?.isSome ∧
      ∀ u, p.Finds (Visits inputs) u → u.kind = v.kind →
        BinaryOp.equal.apply u v = .ok (.bool false) ∧ BinaryOp.equal.apply v u = .ok (.bool false)
  /-- All objects are made in this way. -/
  origin : ∀ v, v.Occurs (Visits inputs) → v.objectId?.isSome →
    ∃! p, Visits inputs p ∧ p.Creates v
  /-- Objects are equal iff they have the same origin. -/
  equal_iff : ∀ u v, u.Occurs (Visits inputs) → v.Occurs (Visits inputs) → u.objectId?.isSome →
    v.objectId?.isSome →
    (BinaryOp.equal.apply u v = .ok (.bool true) ↔ ∃ p, Visits inputs p ∧ p.Creates u ∧ p.Creates v)
  /-- An object is equal to itself, and two objects of one kind are equal or not. -/
  compares : ∀ u v : Value, u.objectId?.isSome → u.kind = v.kind →
    BinaryOp.equal.apply u u = .ok (.bool true) ∧ ∃ b, BinaryOp.equal.apply u v = .ok (.bool b)
  /-- What is executed, in one text or in several, is executed one after another. -/
  order : ∀ p q, Visits inputs p → Visits inputs q → p.Comparable q
  /-- What is bound when a point is reached is bound at all points that come later, and after them. -/
  lasts : ∀ p q, Visits inputs p → ReflTransGen Point.Step p q →
    p.moment.store.Extends q.moment.store ∧ q.moment.store.Extends q.after ∧ q.after.Extends p.after
  /-- A name that was bound by a `const` has the value that was given to it from then on. -/
  const : ∀ (depth : Nat) (scope : ScopeId) (name : String) (e : Expr) (st : Store) (w : Value)
    (st' : Store), Visits inputs ⟨depth, scope, .stmt (.const name e), st⟩ →
    Point.outcome ⟨depth, scope, .stmt (.const name e), st⟩ = .ok w st' →
    ∃ v mid, e.eval (Closure.call depth) scope st = .ok v mid ∧
      ∀ later, st'.Extends later → resolve scope name later = .ok v later
  /-- A parameter has the value of its argument as long as the call goes on, and after it. -/
  argument : ∀ (f : Closure) (args : List Value) (scope : ScopeId) (st st' later : Store),
    f.enter args st = .ok scope st' → st'.Extends later →
    ∀ (i : Nat) (name : String) (v : Value), f.params[i]? = some name → args[i]? = some v →
      resolve scope name later = .ok v later
  /-- In every call of a function, a name that the call does not bind has the value that it has in the
      scope in which the function was made. -/
  captured : ∀ (depth : Nat) (scope : ScopeId) (params : List String) (body : List Stmt)
    (st st' : Store) (f : Closure), Visits inputs ⟨depth, scope, .expr (.fn params body), st⟩ →
    Point.outcome ⟨depth, scope, .expr (.fn params body), st⟩ = .ok (.function f) st' →
    ∀ (args : List Value) (inner : ScopeId) (begin entered later : Store), st'.Extends begin →
      f.enter args begin = .ok inner entered → entered.Extends later →
      ∀ name, ¬ later.binds inner name → resolve inner name later = resolve scope name later
  /-- The value of a call is that of the body, or that of a `return` in it. -/
  returned : ∀ (caller body : Point), caller.Enters body → ∀ (v : Value) (st : Store),
    (body.outcome = .ok v st → caller.outcome = .ok v st) ∧
    ∀ (e : Expr) (mid : Store),
      ReflTransGen (Inside (Closure.call body.depth) body.scope) body.moment
        ⟨.stmt (.ret e), mid⟩ →
      e.eval (Closure.call body.depth) body.scope mid = .ok v st → caller.outcome = .ok v st
  /-- At each position of an array literal there is the value of its item. -/
  array : ∀ (depth : Nat) (scope : ScopeId) (items : List Expr) (st st' : Store) (v : Value),
    (Expr.array items).eval (Closure.call depth) scope st = .ok v st' →
    ∃ vs mid, Expr.evalAll (Closure.call depth) scope items st = .ok vs mid ∧
      ∀ (n : Int64) (w : Value), 0 ≤ n.toInt → vs[n.toInt.toNat]? = some w →
        v.index (.int n) = .ok w
  /-- `push` keeps the items and adds one, and `tail` keeps all but the first. -/
  pushed : ∀ (id : ObjectId) (items : List Value) (u v : Value) (st st' : Store) (n : Int64)
    (w : Value), 0 ≤ n.toInt →
    (Builtin.push.apply [.array id items, u] st = .ok v st' →
      (items ++ [u])[n.toInt.toNat]? = some w → v.index (.int n) = .ok w) ∧
    (Builtin.tail.apply [.array id items] st = .ok v st' →
      items.tail[n.toInt.toNat]? = some w → v.index (.int n) = .ok w)
  /-- What is read from a map literal is what was put there: under each key, the value that was put
      last under the hashed key of this key, or `null` if there is none. If the keys are told apart,
      it is the value of the last pair with this key. -/
  map : ∀ (depth : Nat) (scope : ScopeId) (pairs : List (Expr × Expr)) (st st' : Store) (v : Value),
    (Expr.map pairs).eval (Closure.call depth) scope st = .ok v st' →
    ∃ values mid, Expr.PairValues (Closure.call depth) scope pairs st values mid ∧
      ∀ key : Key,
        v.index key.toValue = .ok (((values.reverse.find? fun p => p.1.hashed = key.hashed).map
          Prod.snd).getD .null) ∧
        (TellsApart (key :: values.map Prod.fst) →
          ∀ w, values.reverse.lookup key = some w → v.index key.toValue = .ok w)

/-- **Identity is fresh at creation and kept by data flow**, in every session. -/
theorem keepsIdentities (inputs : List (Nat × String)) : KeepsIdentities inputs where
  fresh p v st hp hmakes houtcome := by
    have hcreates := hmakes.creates houtcome
    exact ⟨hcreates.isSome_objectId?, fun u hu hkind =>
      hu.not_equal closedUnderSteps_visits (fun _ => Visits.traced) hp hcreates hkind⟩
  origin v hv hobject := by
    obtain ⟨p, hp, hcreates⟩ :=
      hv.exists_creates closedUnderSteps_visits (fun _ => Visits.traced) hobject
    refine ⟨p, ⟨hp, hcreates⟩, fun q hq => ?_⟩
    exact hq.2.point_eq hcreates (hq.1.comparable hp) rfl
  equal_iff u v hu hv hu' hv' :=
    hu.equal_iff hv closedUnderSteps_visits (fun _ => Visits.traced)
      (fun _ _ hp hq => hp.comparable hq) hu' hv'
  compares u v hu hkind := by
    obtain ⟨i, hi⟩ := Option.isSome_iff_exists.1 hu
    obtain ⟨j, hj⟩ := Value.exists_objectId?_of_kind hu hkind.symm
    exact ⟨BinaryOp.equal_apply_self hu, _, BinaryOp.equal_apply_objects hi hj hkind⟩
  order p q hp hq := hp.comparable hq
  lasts p q _ hreaches :=
    ⟨(Point.extends_of_reaches hreaches).1, q.extends_after, (Point.extends_of_reaches hreaches).2⟩
  const depth scope name e st w st' hp houtcome := Stmt.resolve_const hp.scope_lt houtcome
  argument f args scope st st' later henter hlater i name v hname hv :=
    Closure.resolve_parameter henter hname hv hlater
  captured depth scope params body st st' f hp houtcome args inner begin entered later hbegin henter
      hlater name hname := by
    have hscope : scope < begin.scopes.size := by
      have hafter := (Expr.grows_eval depth scope (.fn params body)).of_ok houtcome
      exact (hafter.trans hbegin).lt_size hp.scope_lt
    cases houtcome
    exact Closure.resolve_captured hscope henter hlater hname
  returned caller body henters v st := by
    refine ⟨fun hbody => ?_, fun e mid hinside he => ?_⟩
    · exact henters.ends hbody
    · exact henters.returns (Inside.stops_all hinside (Stmt.eval_ret he))
  array depth scope items st st' v h := by
    obtain ⟨vs, mid, hitems, rfl⟩ := Expr.eq_of_eval_array h
    exact ⟨vs, mid, hitems, fun n w hn hw => Value.index_array hn hw⟩
  pushed id items u v st st' n w hn := by
    refine ⟨fun h hw => ?_, fun h hw => ?_⟩
    · cases h
      exact Value.index_array hn hw
    · cases h
      exact Value.index_array hn hw
  map depth scope pairs st st' v h := Expr.index_of_eval_map h

omit [Hashing] in
/-- The same literal is evaluated in two texts of a session, and the first one binds its value: there
    are two arrays, and the name has the first one to the end. -/
theorem keepsIdentities_emptyArrays :
    let _ : Hashing := .inOrder fun _ => 0
    let inputs := [(0, "const a = []"), (0, "[]")]
    let st : Store := ⟨#[⟨[("a", .array 0 [])], none⟩], 1, ""⟩
    let p : Point := ⟨0, start.1, .expr (.array []), start.2⟩
    let q : Point := ⟨0, start.1, .expr (.array []), st⟩
    Visits inputs p ∧ p.Creates (.array 0 []) ∧ Visits inputs q ∧ q.Creates (.array 1 []) ∧
    BinaryOp.equal.apply (.array 0 []) (.array 1 []) = .ok (.bool false) ∧
    resolve start.1 "a" q.after = .ok (.array 0 []) q.after := by
  intro _ inputs st p q
  have herrors : (Program.parse "const a = []").errors = [] := by decide +kernel
  have herrors' : (Program.parse "[]").errors = [] := by decide +kernel
  have hstatements : (Program.parse "const a = []").program.statements
      = [.const "a" (.array [])] := by
    decide +kernel
  have hstatements' : (Program.parse "[]").program.statements = [.expr (.array [])] := by
    decide +kernel
  have hst : storeAfter ([] ++ [(0, "const a = []")]) = st := by
    rw [storeAfter_of_errors herrors, entry, hstatements]
    rfl
  have hconst : Visits inputs ⟨0, start.1, .stmt (.const "a" (.array [])), start.2⟩ := by
    refine ⟨[], 0, "const a = []", [(0, "[]")], rfl, herrors, ?_⟩
    rw [entry, hstatements]
    exact .head (.inside (.statement [] rfl)) .refl
  have hp : Visits inputs p := closedUnderSteps_visits _ _ hconst (.inside .initializer)
  have hq : Visits inputs q := by
    refine ⟨[(0, "const a = []")], 0, "[]", [], rfl, herrors', ?_⟩
    rw [entry, hstatements', ← List.nil_append [(0, "const a = []")], hst]
    exact .head (.inside (.statement [] rfl)) (.head (.inside .expression) .refl)
  have hkeeps := keepsIdentities inputs
  refine ⟨hp, Point.Makes.array.creates rfl, hq, Point.Makes.array.creates rfl, ?_, ?_⟩
  · have hfinds : q.Finds (Visits inputs) (.array 0 []) := @Point.Finds.bound _ _ _ 0 "a" _ rfl
    exact ((hkeeps.fresh q (.array 1 []) _ hq .array rfl).2 _ hfinds rfl).1
  · obtain ⟨v, mid, he, hlater⟩ := hkeeps.const _ _ _ _ _ _ st hconst rfl
    cases he
    exact hlater q.after q.extends_after

end Session

end ConstScript
