import ConstScript.Proofs.Eval.Return
import ConstScript.Proofs.Eval.Unwinding

set_option autoImplicit false

/-! # Where a `return` comes from

The evaluation of a phrase ends in a `return` iff it comes to a `return` statement whose expression is
evaluated to a value. Such a statement can stand at any depth in the phrase: in an operand, an
argument, an item, a pair or a block. It never stands in a function that the phrase calls, since no
call ends in a `return`.

As what stops a part stops the whole, there is at most one such statement, the first one that is
reached. -/

namespace ConstScript

open Relation

/-! ## Steps -/

namespace Eval

variable {α β : Type}

/-- What stops two steps stops the first one, or the second one after the first. -/
theorem error_of_bind {x : Eval α} {f : α → Eval β} {st st' : Store} {stop : Stop}
    (h : (x >>= f) st = .error stop st') :
    x st = .error stop st' ∨ ∃ a mid, x st = .ok a mid ∧ f a mid = .error stop st' := by
  cases hrun : x st with
  | ok a mid => exact .inr ⟨a, mid, rfl, (bind_of_ok hrun).symm.trans h⟩
  | error stop' mid =>
      cases (bind_of_error hrun).symm.trans h
      exact .inl rfl

theorem neverReturns_asKey (v : Value) : NeverReturns (asKey v) := by
  unfold asKey
  split
  · exact neverReturns_pure _
  · exact neverReturns_fail _

theorem neverReturns_resolve (scope : ScopeId) (name : String) :
    NeverReturns (resolve scope name) := by
  intro st v st' h
  rw [resolve_run] at h
  cases hv : st.lookup scope name with
  | some w => simp [hv] at h
  | none => cases hb : Builtin.ofName? name <;> simp [hv, hb] at h

theorem neverReturns_freshObject_bind {f : ObjectId → α} :
    NeverReturns (freshObject >>= fun id => pure (f id)) :=
  (neverReturns_modifyGet _).bind fun _ => neverReturns_pure _

end Eval

/-! ## Phrases -/

variable [Hashing]

section

open Eval

variable {call : Closure → List Value → Eval Value} {scope : ScopeId}

/-- From the moment on, the evaluation comes to a `return` without entering a call, and the value of
    its expression is `v`. -/
def Moment.Returns (call : Closure → List Value → Eval Value) (scope : ScopeId) (m : Moment)
    (v : Value) (st : Store) : Prop :=
  ∃ e mid, ReflTransGen (Inside call scope) m ⟨.stmt (.ret e), mid⟩ ∧
    e.eval call scope mid = .ok v st

variable {m m' : Moment} {v : Value} {st st' : Store}

theorem Moment.Returns.head (h : m'.Returns call scope v st) (hstep : Inside call scope m m') :
    m.Returns call scope v st := by
  obtain ⟨e, mid, hreaches, he⟩ := h
  exact ⟨e, mid, .head hstep hreaches, he⟩

theorem Moment.Returns.eval_eq (h : m.Returns call scope v st) :
    m.task.eval call scope m.store = .error (.returned v) st := by
  obtain ⟨e, mid, hreaches, he⟩ := h
  exact Inside.stops_all hreaches (Stmt.eval_ret he)

variable (hcall : ∀ (f : Closure) (args : List Value), NeverReturns (call f args))

include hcall

omit [Hashing] in
theorem Value.neverReturns_apply (callee : Value) (args : List Value) :
    NeverReturns (callee.apply call args) := by
  unfold Value.apply
  split
  · exact hcall _ _
  · exact Builtin.neverReturns_apply _ args
  · exact neverReturns_fail _

set_option linter.unusedSectionVars false in
mutual

theorem Expr.returns_of_eval : (e : Expr) → {st : Store} →
    e.eval call scope st = .error (.returned v) st' →
    Moment.Returns call scope ⟨.expr e, st⟩ v st'
  | .name n, _, h => absurd h (neverReturns_resolve scope n _ _ _)
  | .int _, _, h | .str _, _, h | .bool _, _, h => nomatch h
  | .fn .., _, h => absurd h (neverReturns_freshObject_bind _ _ _)
  | .unary _ operand, _, h => by
      rcases error_of_bind h with h | ⟨w, mid, -, h⟩
      · exact (Expr.returns_of_eval operand h).head .operand
      · exact absurd h (neverReturns_ofExcept _ _ _ _)
  | .binary _ left right, _, h => by
      rcases error_of_bind h with h | ⟨w, mid, hleft, h⟩
      · exact (Expr.returns_of_eval left h).head .left
      rcases error_of_bind h with h | ⟨u, _, -, h⟩
      · exact (Expr.returns_of_eval right h).head (.right hleft)
      · exact absurd h (neverReturns_ofExcept _ _ _ _)
  | .cond condition thenBlock none, _, h => by
      rcases error_of_bind h with h | ⟨c, mid, hc, h⟩
      · exact (Expr.returns_of_eval condition h).head .condition
      split at h
      · next htrue => exact (Stmt.returns_of_block thenBlock h).head (.thenBlock hc htrue)
      · exact absurd h (neverReturns_pure _ _ _ _)
  | .cond condition thenBlock (some elseBlock), _, h => by
      rcases error_of_bind h with h | ⟨c, mid, hc, h⟩
      · exact (Expr.returns_of_eval condition h).head .condition
      split at h
      · next htrue => exact (Stmt.returns_of_block thenBlock h).head (.thenBlock hc htrue)
      · next hfalse => exact (Stmt.returns_of_block elseBlock h).head (.elseBlock hc hfalse)
  | .call callee args, _, h => by
      rcases error_of_bind h with h | ⟨f, mid, hf, h⟩
      · exact (Expr.returns_of_eval callee h).head .callee
      rcases error_of_bind h with h | ⟨vs, _, -, h⟩
      · obtain ⟨before, e, after, us, mid', rfl, hbefore, he⟩ := Expr.returns_of_evalAll args h
        exact he.head (.argument before hf hbefore)
      · exact absurd h (Value.neverReturns_apply hcall _ _ _ _ _)
  | .array items, _, h => by
      rcases error_of_bind h with h | ⟨vs, _, -, h⟩
      · obtain ⟨before, e, after, us, mid', rfl, hbefore, he⟩ := Expr.returns_of_evalAll items h
        exact he.head (.item before hbefore)
      · exact absurd h (neverReturns_freshObject_bind _ _ _)
  | .map pairs, _, h => by
      rcases error_of_bind h with h | ⟨puts, _, -, h⟩
      · obtain ⟨before, k, e, after, all, mid, rfl, hbefore, hpair⟩ :=
          Expr.returns_of_evalPairs [] pairs h
        rcases hpair with hk | ⟨w, mid', hk, hkey, he⟩
        · exact hk.head (.key before hbefore)
        · exact he.head (.value before hbefore hk hkey)
      · exact absurd h (neverReturns_freshObject_bind _ _ _)
  | .index collection position, _, h => by
      rcases error_of_bind h with h | ⟨w, mid, hcollection, h⟩
      · exact (Expr.returns_of_eval collection h).head .collection
      rcases error_of_bind h with h | ⟨u, _, -, h⟩
      · exact (Expr.returns_of_eval position h).head (.position hcollection)
      · exact absurd h (neverReturns_ofExcept _ _ _ _)

theorem Expr.returns_of_evalAll : (es : List Expr) → {st : Store} →
    Expr.evalAll call scope es st = .error (.returned v) st' →
    ∃ before e after us mid, es = before ++ e :: after ∧
      Expr.evalAll call scope before st = .ok us mid ∧
      Moment.Returns call scope ⟨.expr e, mid⟩ v st'
  | [], _, h => nomatch h
  | e :: es, st, h => by
      rcases error_of_bind h with h | ⟨w, mid, he, h⟩
      · exact ⟨[], e, es, [], st, rfl, rfl, Expr.returns_of_eval e h⟩
      rcases error_of_bind h with h | ⟨ws, _, -, h⟩
      · obtain ⟨before, e', after, us, mid', rfl, hbefore, he'⟩ := Expr.returns_of_evalAll es h
        refine ⟨e :: before, e', after, w :: us, mid', rfl, ?_, he'⟩
        exact (bind_of_ok he).trans (bind_of_ok hbefore)
      · exact absurd h (neverReturns_pure _ _ _ _)

theorem Expr.returns_of_evalPairs (puts : List (Entry Value)) :
    (pairs : List (Expr × Expr)) → {st : Store} →
    Expr.evalPairs call scope puts pairs st = .error (.returned v) st' →
    ∃ before k e after all mid, pairs = before ++ (k, e) :: after ∧
      Expr.evalPairs call scope puts before st = .ok all mid ∧
      (Moment.Returns call scope ⟨.expr k, mid⟩ v st' ∨
        ∃ w mid', k.eval call scope mid = .ok w mid' ∧ w.toKey?.isSome ∧
          Moment.Returns call scope ⟨.expr e, mid'⟩ v st')
  | [], _, h => nomatch h
  | (k, e) :: pairs, st, h => by
      rcases error_of_bind h with h | ⟨w, mid, hk, hpair⟩
      · exact ⟨[], k, e, pairs, puts, st, rfl, rfl, .inl (Expr.returns_of_eval k h)⟩
      rcases error_of_bind hpair with h | ⟨key, mid', hkey, hvalue⟩
      · exact absurd h (neverReturns_asKey w _ _ _)
      obtain ⟨hsome, rfl⟩ := eq_of_asKey_eq_ok hkey
      rcases error_of_bind hvalue with h | ⟨u, mid'', he, hrest⟩
      · refine ⟨[], k, e, pairs, puts, st, rfl, rfl, .inr ⟨w, mid', hk, ?_, ?_⟩⟩
        · rw [hsome, Option.isSome_some]
        · exact Expr.returns_of_eval e h
      · obtain ⟨before, k', e', after, all, last, rfl, hbefore, hpair⟩ :=
          Expr.returns_of_evalPairs _ pairs hrest
        refine ⟨(k, e) :: before, k', e', after, all, last, rfl, ?_, hpair⟩
        exact (bind_of_ok hk).trans ((bind_of_ok hkey).trans ((bind_of_ok he).trans hbefore))

theorem Stmt.returns_of_eval : (s : Stmt) → {st : Store} →
    s.eval call scope st = .error (.returned v) st' →
    Moment.Returns call scope ⟨.stmt s, st⟩ v st'
  | .const name value, _, h => by
      rcases error_of_bind h with h | ⟨w, mid, -, h⟩
      · exact (Expr.returns_of_eval value h).head .initializer
      rcases error_of_bind h with h | ⟨_, _, -, h⟩
      · exact absurd h (neverReturns_define scope name w _ _ _)
      · exact absurd h (neverReturns_pure _ _ _ _)
  | .ret value, st, h => by
      rcases error_of_bind h with h | ⟨w, mid, he, h⟩
      · exact (Expr.returns_of_eval value h).head .returned
      · cases h
        exact ⟨value, st, .refl, he⟩
  | .expr e, _, h => (Expr.returns_of_eval e h).head .expression

theorem Stmt.returns_of_evalAll (last : Value) : (ss : List Stmt) → {st : Store} →
    Stmt.evalAll call scope last ss st = .error (.returned v) st' →
    ∃ before s after w mid, ss = before ++ s :: after ∧
      Stmt.evalAll call scope last before st = .ok w mid ∧
      Moment.Returns call scope ⟨.stmt s, mid⟩ v st'
  | [], _, h => nomatch h
  | s :: ss, st, h => by
      rcases error_of_bind h with h | ⟨w, mid, hs, h⟩
      · exact ⟨[], s, ss, last, st, rfl, rfl, Stmt.returns_of_eval s h⟩
      · obtain ⟨before, s', after, u, mid', rfl, hbefore, hs'⟩ := Stmt.returns_of_evalAll w ss h
        exact ⟨s :: before, s', after, u, mid', rfl, (bind_of_ok hs).trans hbefore, hs'⟩

theorem Stmt.returns_of_block (ss : List Stmt) {st : Store}
    (h : Stmt.evalAll call scope .null ss st = .error (.returned v) st') :
    Moment.Returns call scope ⟨.block ss, st⟩ v st' := by
  obtain ⟨before, s, after, w, mid, rfl, hbefore, hs⟩ := Stmt.returns_of_evalAll .null ss h
  exact hs.head (.statement before hbefore)

end

/-- **A `return` comes from a `return` statement** that is reached. -/
theorem Moment.returns_iff :
    m.Returns call scope v st' ↔ m.task.eval call scope m.store = .error (.returned v) st' := by
  refine ⟨Moment.Returns.eval_eq, fun h => ?_⟩
  obtain ⟨task, st⟩ := m
  cases task with
  | expr e => exact Expr.returns_of_eval hcall e h
  | stmt s => exact Stmt.returns_of_eval hcall s h
  | block ss => exact Stmt.returns_of_block hcall ss h

end

end ConstScript
