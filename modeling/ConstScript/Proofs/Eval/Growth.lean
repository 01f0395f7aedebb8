import ConstScript.Proofs.Eval.Footprint
import ConstScript.Proofs.Eval.Stable
import ConstScript.Proofs.Eval.Unwinding

set_option autoImplicit false

/-! # Evaluations only extend the store

Nothing is ever taken away from a store: all bindings stay, every scope stays inside the same one,
and no identity is given out twice. So what is there at some point of an evaluation is there at all
points that come later. A part of a phrase comes after the phrase was reached, and the phrase has
been evaluated only after its parts. -/

namespace ConstScript

/-! ## Stores that extend others -/

namespace Store

/-- The second store has all scopes of the first, inside the same ones, with all their bindings, and
    all identities that were given out in the first were given out in the second. -/
structure Extends (st st' : Store) : Prop where
  bindings : ∀ (id : ScopeId) (name : String) (v : Value),
    st.getOwn? id name = some v → st'.getOwn? id name = some v
  outer : ∀ (id : ScopeId) (s : Scope), st.scopes[id]? = some s →
    ∃ s', st'.scopes[id]? = some s' ∧ s'.outer = s.outer
  objects : st.objects ≤ st'.objects

variable {st st' st'' : Store}

theorem Extends.refl (st : Store) : st.Extends st where
  bindings _ _ _ hv := hv
  outer _ s hs := ⟨s, hs, rfl⟩
  objects := Nat.le_refl _

theorem Extends.trans (h : st.Extends st') (h' : st'.Extends st'') : st.Extends st'' where
  bindings id name v hv := h'.bindings id name v (h.bindings id name v hv)
  outer id s hs := by
    obtain ⟨s', hs', houter⟩ := h.outer id s hs
    obtain ⟨s'', hs'', houter'⟩ := h'.outer id s' hs'
    exact ⟨s'', hs'', houter'.trans houter⟩
  objects := Nat.le_trans h.objects h'.objects

theorem Extends.of_eq (h : st = st') : st.Extends st' :=
  h ▸ .refl st

theorem Extends.lt_size (h : st.Extends st') {scope : ScopeId} (hscope : scope < st.scopes.size) :
    scope < st'.scopes.size := by
  obtain ⟨s', hs', -⟩ := h.outer scope _ (Array.getElem?_eq_getElem hscope)
  exact (Array.getElem?_eq_some_iff.1 hs').1

theorem Footprint.extends {scope : ScopeId} {names : List String}
    (h : Footprint scope names st st') (hobjects : st.objects ≤ st'.objects) : st.Extends st' :=
  ⟨h.bindings, h.outer, hobjects⟩

theorem Keeps.extends (h : st.Keeps st') (hobjects : st.objects ≤ st'.objects) : st.Extends st' :=
  (h.footprint 0 []).extends hobjects

theorem extends_freshObject (st : Store) : st.Extends st.freshObject.2 :=
  Keeps.extends (.refl st) (Nat.le_succ _)

end Store

/-! ## Evaluations -/

namespace Eval

variable {α β : Type} {x : Eval α} {f : α → Eval β} {st st' : Store}

theorem after_of_ok {a : α} (h : x st = .ok a st') : x.after st = st' := by
  rw [after, h]

theorem after_of_error {stop : Stop} (h : x st = .error stop st') : x.after st = st' := by
  rw [after, h]

theorem after_bind_of_ok {a : α} (h : x st = .ok a st') :
    (x >>= f).after st = (f a).after st' := by
  rw [after, bind_of_ok h, after]

/-- The evaluation only extends the store. -/
def Grows (x : Eval α) : Prop :=
  ∀ st : Store, st.Extends (x.after st)

theorem Grows.of_ok (hx : Grows x) {a : α} (h : x st = .ok a st') : st.Extends st' :=
  after_of_ok h ▸ hx st

/-- What goes on after a step takes nothing away. -/
theorem extends_after_bind (x : Eval α) (hf : ∀ a, Grows (f a)) (st : Store) :
    (x.after st).Extends ((x >>= f).after st) := by
  rcases after_bind x f st with ⟨a, hafter⟩ | hafter
  · rw [hafter]
    exact hf a _
  · exact .of_eq hafter.symm

/-- What is done in a step after a first one is done in both. -/
theorem extends_bind_of_ok {a : α} (h : x st = .ok a st') {begin : Store}
    (hf : begin.Extends ((f a).after st')) : begin.Extends ((x >>= f).after st) := by
  rwa [after_bind_of_ok h]

theorem after_resolve (scope : ScopeId) (name : String) (st : Store) :
    (resolve scope name).after st = st := by
  rw [after, resolve_run]
  cases st.lookup scope name with
  | some v => rfl
  | none => cases Builtin.ofName? name <;> rfl

theorem objects_after_define (scope : ScopeId) (name : String) (v : Value) (st : Store) :
    ((define scope name v).after st).objects = st.objects := by
  rw [after]
  by_cases hbinds : st.binds scope name
  · rw [define_of_binds hbinds]
  · rw [define_of_not_binds hbinds]
    rfl

/-- All evaluations only extend the store. -/
theorem stable_grows : Stable (fun {_} => Grows) where
  pure _ st := .refl st
  throw _ st := .refl st
  bind {_ _ x _} hx hf st := (hx st).trans (extends_after_bind x hf st)
  catchReturn {x} hx st := after_catchReturn x st ▸ hx st
  resolve scope name st := .of_eq (after_resolve scope name st).symm
  define scope name v st :=
    (within_define scope name v st).extends (Nat.le_of_eq (objects_after_define scope name v st).symm)
  freshObject st := st.extends_freshObject
  enclose outer st := (st.openScope_spec (some outer)).1.extends (Nat.le_refl _)
  printLine text st := (inert_printLine text st).extends (Nat.le_refl _)

end Eval

/-! ## Phrases -/

variable [Hashing]

section

open Eval

variable (depth : Nat) (scope : ScopeId)

theorem Expr.grows_eval (e : Expr) : Grows (e.eval (Closure.call depth) scope) :=
  Expr.stable_eval stable_grows (Closure.stable_call stable_grows depth) scope e

theorem Expr.grows_evalAll (es : List Expr) :
    Grows (Expr.evalAll (Closure.call depth) scope es) :=
  Expr.stable_evalAll stable_grows (Closure.stable_call stable_grows depth) scope es

theorem Expr.grows_evalPairs (puts : List (Entry Value)) (pairs : List (Expr × Expr)) :
    Grows (Expr.evalPairs (Closure.call depth) scope puts pairs) :=
  Expr.stable_evalPairs stable_grows (Closure.stable_call stable_grows depth) scope puts pairs

theorem Stmt.grows_eval (s : Stmt) : Grows (s.eval (Closure.call depth) scope) :=
  Stmt.stable_eval stable_grows (Closure.stable_call stable_grows depth) scope s

theorem Stmt.grows_evalAll (last : Value) (ss : List Stmt) :
    Grows (Stmt.evalAll (Closure.call depth) scope last ss) :=
  Stmt.stable_evalAll stable_grows (Closure.stable_call stable_grows depth) scope last ss

theorem Value.grows_apply (callee : Value) (args : List Value) :
    Grows (callee.apply (Closure.call depth) args) :=
  Value.stable_apply stable_grows (Closure.stable_call stable_grows depth) callee args

end

/-! ## Parts in lists -/

section

open Eval

variable {depth : Nat} {scope : ScopeId} {st st' : Store}

theorem Expr.extends_evalAll {before : List Expr} {vs : List Value}
    (h : Expr.evalAll (Closure.call depth) scope before st = .ok vs st') (e : Expr)
    (rest : List Expr) :
    ((e.eval (Closure.call depth) scope).after st').Extends
      ((Expr.evalAll (Closure.call depth) scope (before ++ e :: rest)).after st) := by
  rw [Expr.evalAll_append, after_bind_of_ok h]
  refine Store.Extends.trans ?_ (extends_after_bind _ (fun _ => stable_grows.pure _) _)
  exact extends_after_bind _ (fun _ => stable_grows.bind (Expr.grows_evalAll depth scope rest)
    fun _ => stable_grows.pure _) _

theorem Stmt.extends_evalAll {before : List Stmt} {last v : Value}
    (h : Stmt.evalAll (Closure.call depth) scope last before st = .ok v st') (s : Stmt)
    (rest : List Stmt) :
    ((s.eval (Closure.call depth) scope).after st').Extends
      ((Stmt.evalAll (Closure.call depth) scope last (before ++ s :: rest)).after st) := by
  rw [Stmt.evalAll_append, after_bind_of_ok h]
  exact extends_after_bind _ (fun v => Stmt.grows_evalAll depth scope v rest) _

theorem Expr.extends_evalPairs_key {before : List (Expr × Expr)}
    {puts all : List (Entry Value)}
    (h : Expr.evalPairs (Closure.call depth) scope puts before st = .ok all st')
    (k e : Expr) (rest : List (Expr × Expr)) :
    ((k.eval (Closure.call depth) scope).after st').Extends
      ((Expr.evalPairs (Closure.call depth) scope puts (before ++ (k, e) :: rest)).after st) := by
  rw [Expr.evalPairs_append, after_bind_of_ok h]
  exact extends_after_bind _ (fun v => stable_grows.bind (stable_grows.asKey v) fun _ =>
    stable_grows.bind (Expr.grows_eval depth scope e) fun _ =>
      Expr.grows_evalPairs depth scope _ rest) _

theorem Expr.extends_evalPairs_value {before : List (Expr × Expr)}
    {puts all : List (Entry Value)} {k : Expr} {v : Value} {mid : Store}
    (h : Expr.evalPairs (Closure.call depth) scope puts before st = .ok all mid)
    (hk : k.eval (Closure.call depth) scope mid = .ok v st') (hv : v.toKey?.isSome) (e : Expr)
    (rest : List (Expr × Expr)) :
    ((e.eval (Closure.call depth) scope).after st').Extends
      ((Expr.evalPairs (Closure.call depth) scope puts (before ++ (k, e) :: rest)).after st) := by
  rw [Expr.evalPairs_append, after_bind_of_ok h]
  show Store.Extends _ ((k.eval (Closure.call depth) scope >>= fun v => asKey v >>= fun key =>
    e.eval (Closure.call depth) scope >>= fun w =>
      Expr.evalPairs (Closure.call depth) scope (all ++ [Table.entry key w]) rest).after mid)
  rw [after_bind_of_ok hk, after_bind_of_ok (asKey_of_isSome hv st')]
  exact extends_after_bind _ (fun _ => Expr.grows_evalPairs depth scope _ rest) _

end

/-! ## Steps -/

/-- The store that the evaluation from a moment on leaves behind. -/
def Moment.after (depth : Nat) (scope : ScopeId) (m : Moment) : Store :=
  (m.task.eval (Closure.call depth) scope).after m.store

/-- The store that the evaluation from a point on leaves behind. -/
def Point.after (p : Point) : Store :=
  p.moment.after p.depth p.scope

open Eval Relation

section

variable {depth : Nat} {scope : ScopeId} {m m' : Moment}

theorem Moment.extends_after (depth : Nat) (scope : ScopeId) (m : Moment) :
    m.store.Extends (m.after depth scope) := by
  obtain ⟨task, st⟩ := m
  cases task with
  | expr e => exact Expr.grows_eval depth scope e st
  | stmt s => exact Stmt.grows_eval depth scope s st
  | block ss => exact Stmt.grows_evalAll depth scope .null ss st

/-- A part is reached after the phrase is. -/
theorem Inside.extends_store (h : Inside (Closure.call depth) scope m m') :
    m.store.Extends m'.store := by
  have hexpr {e : Expr} {v : Value} {st st' : Store}
      (hrun : e.eval (Closure.call depth) scope st = .ok v st') : st.Extends st' :=
    (Expr.grows_eval depth scope e).of_ok hrun
  cases h with
  | operand | left | condition | callee | collection | initializer | returned | expression =>
      exact .refl _
  | right hrun | position hrun | thenBlock hrun _ | elseBlock hrun _ => exact hexpr hrun
  | argument before hf hbefore =>
      exact (hexpr hf).trans ((Expr.grows_evalAll depth scope before).of_ok hbefore)
  | item before hbefore => exact (Expr.grows_evalAll depth scope before).of_ok hbefore
  | key before hbefore => exact (Expr.grows_evalPairs depth scope [] before).of_ok hbefore
  | value before hbefore hk _ =>
      exact ((Expr.grows_evalPairs depth scope [] before).of_ok hbefore).trans (hexpr hk)
  | statement before hbefore => exact (Stmt.grows_evalAll depth scope .null before).of_ok hbefore

/-- A part has been evaluated when the phrase has. -/
theorem Inside.extends_after (h : Inside (Closure.call depth) scope m m') :
    (m'.after depth scope).Extends (m.after depth scope) := by
  unfold Moment.after
  cases h with
  | operand => exact extends_after_bind _ (fun _ => stable_grows.ofExcept _) _
  | left | collection =>
      exact extends_after_bind _ (fun _ => stable_grows.bind (Expr.grows_eval depth scope _)
        fun _ => stable_grows.ofExcept _) _
  | right hrun | position hrun =>
      exact extends_bind_of_ok hrun (extends_after_bind _ (fun _ => stable_grows.ofExcept _) _)
  | @condition c t e st =>
      rw [Task.eval, Task.eval, Expr.eval_cond]
      refine extends_after_bind _ (fun v => ?_) st
      split
      · exact Stmt.grows_evalAll depth scope .null t
      · cases e with
        | none => exact stable_grows.pure _
        | some block => exact Stmt.grows_evalAll depth scope .null block
  | thenBlock hc htrue =>
      rw [Task.eval, Task.eval, Expr.eval_cond]
      refine extends_bind_of_ok hc ?_
      rw [if_pos htrue]
      exact .refl _
  | elseBlock hc hfalse =>
      rw [Task.eval, Task.eval, Expr.eval_cond]
      refine extends_bind_of_ok hc ?_
      rw [if_neg hfalse]
      exact .refl _
  | callee =>
      exact extends_after_bind _ (fun _ => stable_grows.bind (Expr.grows_evalAll depth scope _)
        fun _ => Value.grows_apply depth _ _) _
  | argument before hf hbefore =>
      exact extends_bind_of_ok hf ((Expr.extends_evalAll hbefore _ _).trans
        (extends_after_bind _ (fun _ => Value.grows_apply depth _ _) _))
  | item before hbefore =>
      exact (Expr.extends_evalAll hbefore _ _).trans
        (extends_after_bind _ (fun _ => stable_grows.newArray _) _)
  | key before hbefore =>
      exact (Expr.extends_evalPairs_key hbefore _ _ _).trans
        (extends_after_bind _ (fun _ => stable_grows.newMap _) _)
  | value before hbefore hk hkey =>
      exact (Expr.extends_evalPairs_value hbefore hk hkey _ _).trans
        (extends_after_bind _ (fun _ => stable_grows.newMap _) _)
  | initializer =>
      exact extends_after_bind _ (fun _ => stable_grows.bind (stable_grows.define _ _ _)
        fun _ => stable_grows.pure _) _
  | returned => exact extends_after_bind _ (fun _ => stable_grows.throw _) _
  | expression => exact .refl _
  | statement before hbefore => exact Stmt.extends_evalAll hbefore _ _

end

namespace Point

variable {p q : Point}

theorem after_of_outcome {v : Value} {st : Store} (h : p.outcome = .ok v st) : p.after = st :=
  after_of_ok h

theorem extends_after (p : Point) : p.moment.store.Extends p.after :=
  p.moment.extends_after p.depth p.scope

theorem Enters.extends_store (h : p.Enters q) : p.moment.store.Extends q.moment.store := by
  cases h with
  | @body depth scope _ callee args f _ _ _ _ _ hcallee hargs henter =>
      have hfirst := (Expr.grows_eval (depth + 1) scope callee).of_ok hcallee
      have hsecond := (Expr.grows_evalAll (depth + 1) scope args).of_ok hargs
      have hthird := Grows.of_ok (stable_grows.enter f _) henter
      exact hfirst.trans (hsecond.trans hthird)

/-- A call leaves behind what its body does. -/
theorem Enters.after_eq (h : p.Enters q) : p.after = q.after := by
  have houtcome := h.outcome_eq
  unfold Point.after Moment.after Eval.after
  unfold Point.outcome at houtcome
  rw [houtcome]
  exact after_catchReturn _ _

theorem Step.extends_store (h : p.Step q) : p.moment.store.Extends q.moment.store := by
  cases h with
  | inside h => exact h.extends_store
  | enters h => exact h.extends_store

theorem Step.extends_after (h : p.Step q) : q.after.Extends p.after := by
  cases h with
  | inside h => exact h.extends_after
  | enters h => exact .of_eq h.after_eq.symm

/-- What is reached from a point is reached after it, and is over before it is. -/
theorem extends_of_reaches (h : ReflTransGen Point.Step p q) :
    p.moment.store.Extends q.moment.store ∧ q.after.Extends p.after := by
  induction h with
  | refl => exact ⟨.refl _, .refl _⟩
  | tail _ hstep ih =>
      exact ⟨ih.1.trans hstep.extends_store, hstep.extends_after.trans ih.2⟩

end Point

end ConstScript
