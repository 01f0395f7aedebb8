import ConstScript.Proofs.Eval.Sequence
import ConstScript.Session

set_option autoImplicit false

/-! # How deeply calls may be nested

The depth decides only whether an evaluation comes to an end that a program knows of. With a greater
depth, what does not exceed the smaller one does the same: a phrase does if calls of functions do,
and calls do by induction on the depth. So all depths at which a text has a result agree on it. -/

namespace ConstScript

namespace Eval

variable {α β : Type}

/-- The second evaluation does what the first one does, from every store from which the first one
    does not nest calls too deeply. -/
def Deeper (x y : Eval α) : Prop :=
  ∀ st, (∃ st', x st = .error .tooDeep st') ∨ y st = x st

namespace Deeper

theorem refl (x : Eval α) : Deeper x x :=
  fun _ => .inr rfl

theorem bind {x y : Eval α} {f g : α → Eval β} (hxy : Deeper x y) (hfg : ∀ a, Deeper (f a) (g a)) :
    Deeper (x >>= f) (y >>= g) := by
  intro st
  rcases hxy st with ⟨st', hdeep⟩ | hsame
  · exact .inl ⟨st', bind_of_error hdeep⟩
  · cases hrun : x st with
    | ok a mid =>
        rw [bind_of_ok hrun, bind_of_ok (hsame.trans hrun)]
        exact hfg a mid
    | error stop mid =>
        rw [bind_of_error hrun, bind_of_error (hsame.trans hrun)]
        exact .inr rfl

/-- The first step is the same. -/
theorem after (x : Eval α) {f g : α → Eval β} (h : ∀ a, Deeper (f a) (g a)) :
    Deeper (x >>= f) (x >>= g) :=
  (refl x).bind h

theorem catchReturn {x y : Eval Value} (h : Deeper x y) :
    Deeper (catchReturn x) (catchReturn y) := by
  intro st
  unfold Eval.catchReturn
  rcases h st with ⟨st', hdeep⟩ | hsame
  · exact .inl ⟨st', by rw [hdeep]⟩
  · exact .inr (by rw [hsame])

end Deeper

end Eval

open Eval

variable [Hashing]

/-! ## Phrases -/

section

variable {call call' : Closure → List Value → Eval Value}
  (hcall : ∀ f args, Deeper (call f args) (call' f args)) (scope : ScopeId)

include hcall

omit [Hashing] in
theorem Value.deeper_apply (callee : Value) (args : List Value) :
    Deeper (callee.apply call args) (callee.apply call' args) := by
  cases callee with
  | function f => exact hcall f args
  | _ => exact .refl _

set_option linter.unusedSectionVars false in
mutual

theorem Expr.deeper_eval : (e : Expr) → Deeper (e.eval call scope) (e.eval call' scope)
  | .name _ | .int _ | .str _ | .bool _ | .fn _ _ => .refl _
  | .unary _ operand => (Expr.deeper_eval operand).bind fun _ => .refl _
  | .binary _ left right =>
      (Expr.deeper_eval left).bind fun _ => (Expr.deeper_eval right).bind fun _ => .refl _
  | .cond condition thenBlock none => by
      refine (Expr.deeper_eval condition).bind fun c => ?_
      split
      · exact Stmt.deeper_evalAll .null thenBlock
      · exact .refl _
  | .cond condition thenBlock (some elseBlock) => by
      refine (Expr.deeper_eval condition).bind fun c => ?_
      split
      · exact Stmt.deeper_evalAll .null thenBlock
      · exact Stmt.deeper_evalAll .null elseBlock
  | .call callee args =>
      (Expr.deeper_eval callee).bind fun f => (Expr.deeper_evalAll args).bind fun vs =>
        Value.deeper_apply hcall f vs
  | .array items => (Expr.deeper_evalAll items).bind fun _ => .refl _
  | .map pairs => (Expr.deeper_evalPairs [] pairs).bind fun _ => .refl _
  | .index collection position =>
      (Expr.deeper_eval collection).bind fun _ => (Expr.deeper_eval position).bind fun _ => .refl _

theorem Expr.deeper_evalAll : (es : List Expr) →
    Deeper (Expr.evalAll call scope es) (Expr.evalAll call' scope es)
  | [] => .refl _
  | e :: es => (Expr.deeper_eval e).bind fun _ => (Expr.deeper_evalAll es).bind fun _ => .refl _

theorem Expr.deeper_evalPairs (puts : List (Entry Value)) : (pairs : List (Expr × Expr)) →
    Deeper (Expr.evalPairs call scope puts pairs) (Expr.evalPairs call' scope puts pairs)
  | [] => .refl _
  | (key, value) :: pairs =>
      (Expr.deeper_eval key).bind fun k => .after (asKey k) fun _ =>
        (Expr.deeper_eval value).bind fun _ => Expr.deeper_evalPairs _ pairs

theorem Stmt.deeper_eval : (s : Stmt) → Deeper (s.eval call scope) (s.eval call' scope)
  | .const _ value | .ret value => (Expr.deeper_eval value).bind fun _ => .refl _
  | .expr e => Expr.deeper_eval e

theorem Stmt.deeper_evalAll (last : Value) : (ss : List Stmt) →
    Deeper (Stmt.evalAll call scope last ss) (Stmt.evalAll call' scope last ss)
  | [] => .refl _
  | s :: ss => (Stmt.deeper_eval s).bind fun v => Stmt.deeper_evalAll v ss

end

end

/-! ## Calls -/

variable {depth depth' : Nat}

/-- A call at a greater depth. -/
theorem Closure.deeper_call (h : depth ≤ depth') (f : Closure) (args : List Value) :
    Deeper (Closure.call depth f args) (Closure.call depth' f args) := by
  induction depth generalizing depth' f args with
  | zero =>
      cases depth' with
      | zero => exact .refl _
      | succ depth' => exact .after (f.enter args) fun _ st => .inl ⟨st, rfl⟩
  | succ depth ih =>
      cases depth' with
      | zero => exact absurd h (Nat.not_succ_le_zero depth)
      | succ depth' =>
          have hcall := fun f args => ih (Nat.le_of_succ_le_succ h) f args
          exact .after (f.enter args) fun scope =>
            (Stmt.deeper_evalAll hcall scope .null f.body).catchReturn

/-! ## Programs -/

/-- A program that has a value has the same one at every greater depth. -/
theorem Program.eval_of_le (h : depth ≤ depth') {scope : ScopeId} {p : Program} {st st' : Store}
    {v : Value} (heval : p.eval depth scope st = (some v, st')) :
    p.eval depth' scope st = (some v, st') := by
  have hdeeper := Stmt.deeper_evalAll (Closure.deeper_call h) scope .null p.statements st
  unfold Program.eval at heval ⊢
  rcases hdeeper with ⟨mid, hdeep⟩ | hsame
  · rw [hdeep] at heval
    cases heval
  · rw [hsame]
    exact heval

/-- **All depths agree**: a text that has a result has the same one at every greater depth. -/
theorem Session.run_of_le (h : depth ≤ depth') {scope : ScopeId} {source : String} {st : Store}
    (hends : (run depth scope source st).1 ≠ .tooDeep) :
    run depth' scope source st = run depth scope source st := by
  cases herrors : (Program.parse source).errors with
  | cons error errors => simp only [run, herrors]
  | nil =>
      rcases heval : (Program.parse source).program.eval depth scope st with ⟨_ | v, st'⟩
      · simp [run, herrors, heval] at hends
      · simp only [run, herrors, heval, Program.eval_of_le h heval]

end ConstScript
