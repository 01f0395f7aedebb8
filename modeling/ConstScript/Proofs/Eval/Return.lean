import ConstScript.Proofs.Eval.Sequence

set_option autoImplicit false

/-! # A `return` stays inside its call

Of all evaluations only that of a phrase can end in a `return`. Whatever value is applied to
arguments, this ends with a value, with a runtime error, or by exceeding the depth. -/

namespace ConstScript

namespace Eval

variable {α β : Type}

/-- The evaluation does not end in a `return`, from any store. -/
def NeverReturns (x : Eval α) : Prop :=
  ∀ (st : Store) (v : Value) (st' : Store), x st ≠ .error (.returned v) st'

theorem NeverReturns.bind {x : Eval α} {f : α → Eval β} (hx : NeverReturns x)
    (hf : ∀ a, NeverReturns (f a)) : NeverReturns (x >>= f) := by
  intro st v st' h
  cases hrun : x st with
  | ok a mid =>
      rw [bind_of_ok hrun] at h
      exact hf a mid v st' h
  | error stop mid =>
      rw [bind_of_error hrun] at h
      cases h
      exact hx st v st' hrun

theorem neverReturns_pure (a : α) : NeverReturns (pure a : Eval α) :=
  fun _ _ _ h => nomatch h

theorem neverReturns_fail (e : RuntimeError) : NeverReturns (fail e : Eval α) :=
  fun _ _ _ h => nomatch h

theorem neverReturns_ofExcept (r : Except RuntimeError α) : NeverReturns (ofExcept r) := by
  cases r with
  | ok a => exact neverReturns_pure a
  | error e => exact neverReturns_fail e

theorem neverReturns_modifyGet (f : Store → α × Store) :
    NeverReturns (modifyGet f : Eval α) :=
  fun _ _ _ h => nomatch h

theorem neverReturns_define (scope : ScopeId) (name : String) (v : Value) :
    NeverReturns (define scope name v) := by
  intro st w st' h
  by_cases hbinds : st.binds scope name
  · cases (define_of_binds hbinds).symm.trans h
  · cases (define_of_not_binds hbinds).symm.trans h

theorem neverReturns_defineAll (scope : ScopeId) (bindings : List (String × Value)) :
    NeverReturns (defineAll scope bindings) := by
  induction bindings with
  | nil => exact neverReturns_pure ()
  | cons b bindings ih => exact (neverReturns_define scope b.1 b.2).bind fun _ => ih

theorem neverReturns_catchReturn (x : Eval Value) : NeverReturns (catchReturn x) := by
  intro st v st' h
  unfold catchReturn at h
  split at h
  · cases h
  · next hreturned => exact hreturned v st' h

end Eval

open Eval

theorem Builtin.neverReturns_apply (b : Builtin) (args : List Value) :
    NeverReturns (b.apply args) := by
  cases b with
  | length | lastIndex => exact neverReturns_ofExcept _
  | tail | push =>
      exact (neverReturns_ofExcept _).bind fun _ =>
        (neverReturns_modifyGet _).bind fun _ => neverReturns_pure _
  | print =>
      have hlines : NeverReturns (args.forM (fun v => printLine v.text)) := by
        induction args with
        | nil => exact neverReturns_pure ()
        | cons v vs ih => exact (neverReturns_modifyGet _).bind fun _ => ih
      exact hlines.bind fun _ => neverReturns_pure _

theorem Closure.neverReturns_enter (f : Closure) (args : List Value) :
    NeverReturns (f.enter args) :=
  (neverReturns_ofExcept _).bind fun _ => (neverReturns_modifyGet _).bind fun scope =>
    (neverReturns_defineAll scope _).bind fun _ => neverReturns_pure scope

variable [Hashing]

theorem Closure.neverReturns_call (depth : Nat) (f : Closure) (args : List Value) :
    NeverReturns (Closure.call depth f args) := by
  cases depth with
  | zero => exact (f.neverReturns_enter args).bind fun _ _ _ _ h => nomatch h
  | succ depth => exact (f.neverReturns_enter args).bind fun _ => neverReturns_catchReturn _

/-- Applying a value never ends in a `return`. -/
theorem Value.neverReturns_applyTo (depth : Nat) (callee : Value) (args : List Value) :
    NeverReturns (callee.applyTo depth args) := by
  unfold Value.applyTo Value.apply
  split
  · exact Closure.neverReturns_call depth _ args
  · exact Builtin.neverReturns_apply _ args
  · exact neverReturns_fail _

end ConstScript
