import ConstScript.Eval.Program

set_option autoImplicit false

/-! # Properties that hold of all evaluations

Some properties of evaluations do not depend on the phrase that is evaluated: every single step has
them, and so have evaluations that are put together from others that do. Such a property is
`Stable`, and it holds of all phrases if it does of calls, hence of calls by induction on how deeply
they nest. -/

namespace ConstScript

/-- A property that all steps have, and that is kept by going on after a step and by catching a
    `return`. -/
structure Eval.Stable (P : {α : Type} → Eval α → Prop) : Prop where
  pure {α : Type} (a : α) : P (Pure.pure a)
  throw {α : Type} (stop : Stop) : P (MonadExcept.throw stop : Eval α)
  bind {α β : Type} {x : Eval α} {f : α → Eval β} : P x → (∀ a, P (f a)) → P (x >>= f)
  catchReturn {x : Eval Value} : P x → P (Eval.catchReturn x)
  resolve (scope : ScopeId) (name : String) : P (Eval.resolve scope name)
  define (scope : ScopeId) (name : String) (v : Value) : P (Eval.define scope name v)
  freshObject : P Eval.freshObject
  enclose (outer : ScopeId) : P (Eval.enclose outer)
  printLine (text : String) : P (Eval.printLine text)

section

variable {P : {α : Type} → Eval α → Prop} (h : Eval.Stable P)

include h

/-! ## Steps -/

namespace Eval.Stable

variable {α : Type}

theorem ofExcept (r : Except RuntimeError α) : P (Eval.ofExcept r) := by
  cases r with
  | ok a => exact h.pure a
  | error e => exact h.throw (.failed e)

theorem newArray (items : List Value) : P (Eval.newArray items) :=
  h.bind h.freshObject fun _ => h.pure _

theorem newMap [Hashing] (puts : List (Entry Value)) : P (Eval.newMap puts) :=
  h.bind h.freshObject fun _ => h.pure _

theorem newFunction (params : List String) (body : List Stmt) (scope : ScopeId) :
    P (Eval.newFunction params body scope) :=
  h.bind h.freshObject fun _ => h.pure _

theorem asKey (v : Value) : P (Eval.asKey v) := by
  unfold Eval.asKey
  split
  · exact h.pure _
  · exact h.throw _

theorem defineAll (scope : ScopeId) (bindings : List (String × Value)) :
    P (Eval.defineAll scope bindings) := by
  induction bindings with
  | nil => exact h.pure ()
  | cons b bindings ih => exact h.bind (h.define scope b.1 b.2) fun _ => ih

theorem builtin (b : Builtin) (args : List Value) : P (b.apply args) := by
  cases b with
  | length | lastIndex => exact h.ofExcept _
  | tail => exact h.bind (h.ofExcept _) fun _ => h.newArray _
  | push => exact h.bind (h.ofExcept _) fun _ => h.newArray _
  | print =>
      have hlines : P (args.forM fun v => Eval.printLine v.text) := by
        induction args with
        | nil => exact h.pure ()
        | cons v vs ih => exact h.bind (h.printLine v.text) fun _ => ih
      exact h.bind hlines fun _ => h.pure _

theorem enter (f : Closure) (args : List Value) : P (f.enter args) :=
  h.bind (h.ofExcept _) fun _ => h.bind (h.enclose f.scope) fun _ =>
    h.bind (h.defineAll _ _) fun _ => h.pure _

end Eval.Stable

/-! ## Phrases -/

variable [Hashing]

section

variable {call : Closure → List Value → Eval Value}
  (hcall : ∀ (f : Closure) (args : List Value), P (call f args)) (scope : ScopeId)

include hcall

omit [Hashing] in
theorem Value.stable_apply (callee : Value) (args : List Value) : P (callee.apply call args) := by
  unfold Value.apply
  split
  · exact hcall _ _
  · exact h.builtin _ _
  · exact h.throw _

set_option linter.unusedSectionVars false in
mutual

theorem Expr.stable_eval : (e : Expr) → P (e.eval call scope)
  | .name n => h.resolve scope n
  | .int _ | .str _ | .bool _ => h.pure _
  | .fn params body => h.newFunction params body scope
  | .unary _ operand => h.bind (Expr.stable_eval operand) fun _ => h.ofExcept _
  | .binary _ left right =>
      h.bind (Expr.stable_eval left) fun _ => h.bind (Expr.stable_eval right) fun _ => h.ofExcept _
  | .cond condition thenBlock none => by
      refine h.bind (Expr.stable_eval condition) fun c => ?_
      split
      · exact Stmt.stable_evalAll .null thenBlock
      · exact h.pure _
  | .cond condition thenBlock (some elseBlock) => by
      refine h.bind (Expr.stable_eval condition) fun c => ?_
      split
      · exact Stmt.stable_evalAll .null thenBlock
      · exact Stmt.stable_evalAll .null elseBlock
  | .call callee args =>
      h.bind (Expr.stable_eval callee) fun _ => h.bind (Expr.stable_evalAll args) fun _ =>
        Value.stable_apply h hcall _ _
  | .array items => h.bind (Expr.stable_evalAll items) fun _ => h.newArray _
  | .map pairs => h.bind (Expr.stable_evalPairs [] pairs) fun _ => h.newMap _
  | .index collection position =>
      h.bind (Expr.stable_eval collection) fun _ => h.bind (Expr.stable_eval position) fun _ =>
        h.ofExcept _

theorem Expr.stable_evalAll : (es : List Expr) → P (Expr.evalAll call scope es)
  | [] => h.pure _
  | e :: es =>
      h.bind (Expr.stable_eval e) fun _ => h.bind (Expr.stable_evalAll es) fun _ => h.pure _

theorem Expr.stable_evalPairs (puts : List (Entry Value)) : (pairs : List (Expr × Expr)) →
    P (Expr.evalPairs call scope puts pairs)
  | [] => h.pure _
  | (key, value) :: pairs =>
      h.bind (Expr.stable_eval key) fun k => h.bind (h.asKey k) fun _ =>
        h.bind (Expr.stable_eval value) fun _ => Expr.stable_evalPairs _ pairs

theorem Stmt.stable_eval : (s : Stmt) → P (s.eval call scope)
  | .const name value =>
      h.bind (Expr.stable_eval value) fun v => h.bind (h.define scope name v) fun _ => h.pure _
  | .ret value => h.bind (Expr.stable_eval value) fun _ => h.throw _
  | .expr e => Expr.stable_eval e

theorem Stmt.stable_evalAll (last : Value) : (ss : List Stmt) →
    P (Stmt.evalAll call scope last ss)
  | [] => h.pure last
  | s :: ss => h.bind (Stmt.stable_eval s) fun v => Stmt.stable_evalAll v ss

end

end

/-! ## Calls -/

theorem Closure.stable_call (depth : Nat) (f : Closure) (args : List Value) :
    P (Closure.call depth f args) := by
  induction depth generalizing f args with
  | zero => exact h.bind (h.enter f args) fun _ => h.throw _
  | succ depth ih =>
      exact h.bind (h.enter f args) fun scope =>
        h.catchReturn (Stmt.stable_evalAll h ih scope .null f.body)

end

end ConstScript
