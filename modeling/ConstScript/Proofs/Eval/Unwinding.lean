import Mathlib.Logic.Relation
import ConstScript.Proofs.Eval.Sequence

set_option autoImplicit false

/-! # Where an evaluation that was stopped goes

An evaluation is at some *point* when it is about to evaluate a phrase in a scope and a store. From
there it comes to other points: those of the parts that have to be evaluated for the phrase, in
their order and once everything before them has been evaluated, and that of the body of a function
which the phrase calls.

What stops at a point stops everything that the evaluation came through, and at once: the store
stays as it was. Only a call makes a difference, and only for a `return`, which ends there. -/

namespace ConstScript

variable [Hashing]

/-! ## Points of an evaluation -/

/-- What is evaluated for a value: an expression, a statement or statements in order. -/
inductive Task where
  | expr (e : Expr)
  | stmt (s : Stmt)
  | block (ss : List Stmt)

/-- The value of what is to be evaluated. -/
def Task.eval (call : Closure → List Value → Eval Value) (scope : ScopeId) : Task → Eval Value
  | expr e => e.eval call scope
  | stmt s => s.eval call scope
  | block ss => Stmt.evalAll call scope .null ss

/-- What is to be evaluated, and the store as it is then. -/
structure Moment where
  task : Task
  store : Store

/-- From the first moment, the evaluation in a scope comes to the second one without entering a
    call: to a part that has to be evaluated, once everything before it has been. -/
inductive Inside (call : Closure → List Value → Eval Value) (scope : ScopeId) :
    Moment → Moment → Prop
  | operand {op : UnaryOp} {e : Expr} {st : Store} :
      Inside call scope ⟨.expr (.unary op e), st⟩ ⟨.expr e, st⟩
  | left {op : BinaryOp} {l r : Expr} {st : Store} :
      Inside call scope ⟨.expr (.binary op l r), st⟩ ⟨.expr l, st⟩
  | right {op : BinaryOp} {l r : Expr} {v : Value} {st st' : Store} :
      l.eval call scope st = .ok v st' →
      Inside call scope ⟨.expr (.binary op l r), st⟩ ⟨.expr r, st'⟩
  | condition {c : Expr} {t : List Stmt} {e : Option (List Stmt)} {st : Store} :
      Inside call scope ⟨.expr (.cond c t e), st⟩ ⟨.expr c, st⟩
  | thenBlock {c : Expr} {t : List Stmt} {e : Option (List Stmt)} {v : Value} {st st' : Store} :
      c.eval call scope st = .ok v st' → v.isTruthy →
      Inside call scope ⟨.expr (.cond c t e), st⟩ ⟨.block t, st'⟩
  | elseBlock {c : Expr} {t e : List Stmt} {v : Value} {st st' : Store} :
      c.eval call scope st = .ok v st' → ¬ v.isTruthy →
      Inside call scope ⟨.expr (.cond c t (some e)), st⟩ ⟨.block e, st'⟩
  | callee {f : Expr} {args : List Expr} {st : Store} :
      Inside call scope ⟨.expr (.call f args), st⟩ ⟨.expr f, st⟩
  | argument {f e : Expr} (before : List Expr) {after : List Expr} {v : Value} {vs : List Value}
      {st st' st'' : Store} :
      f.eval call scope st = .ok v st' → Expr.evalAll call scope before st' = .ok vs st'' →
      Inside call scope ⟨.expr (.call f (before ++ e :: after)), st⟩ ⟨.expr e, st''⟩
  | item {e : Expr} (before : List Expr) {after : List Expr} {vs : List Value} {st st' : Store} :
      Expr.evalAll call scope before st = .ok vs st' →
      Inside call scope ⟨.expr (.array (before ++ e :: after)), st⟩ ⟨.expr e, st'⟩
  | key {k e : Expr} (before : List (Expr × Expr)) {after : List (Expr × Expr)}
      {puts : List (Entry Value)} {st st' : Store} :
      Expr.evalPairs call scope [] before st = .ok puts st' →
      Inside call scope ⟨.expr (.map (before ++ (k, e) :: after)), st⟩ ⟨.expr k, st'⟩
  | value {k e : Expr} (before : List (Expr × Expr)) {after : List (Expr × Expr)}
      {puts : List (Entry Value)} {v : Value} {st st' st'' : Store} :
      Expr.evalPairs call scope [] before st = .ok puts st' →
      k.eval call scope st' = .ok v st'' → v.toKey?.isSome →
      Inside call scope ⟨.expr (.map (before ++ (k, e) :: after)), st⟩ ⟨.expr e, st''⟩
  | collection {c p : Expr} {st : Store} :
      Inside call scope ⟨.expr (.index c p), st⟩ ⟨.expr c, st⟩
  | position {c p : Expr} {v : Value} {st st' : Store} :
      c.eval call scope st = .ok v st' →
      Inside call scope ⟨.expr (.index c p), st⟩ ⟨.expr p, st'⟩
  | initializer {name : String} {e : Expr} {st : Store} :
      Inside call scope ⟨.stmt (.const name e), st⟩ ⟨.expr e, st⟩
  | returned {e : Expr} {st : Store} : Inside call scope ⟨.stmt (.ret e), st⟩ ⟨.expr e, st⟩
  | expression {e : Expr} {st : Store} : Inside call scope ⟨.stmt (.expr e), st⟩ ⟨.expr e, st⟩
  | statement {s : Stmt} (before : List Stmt) {after : List Stmt} {v : Value} {st st' : Store} :
      Stmt.evalAll call scope .null before st = .ok v st' →
      Inside call scope ⟨.block (before ++ s :: after), st⟩ ⟨.stmt s, st'⟩

/-- A point of an evaluation: a moment, the scope, and how deeply calls may be nested from here on.
    -/
structure Point where
  depth : Nat
  scope : ScopeId
  moment : Moment

/-- What the evaluation from a point on comes to. -/
def Point.outcome (p : Point) : EStateM.Result Stop Store Value :=
  p.moment.task.eval (Closure.call p.depth) p.scope p.moment.store

/-- The first point is that of a call of a function value, and the second one that of its body, in
    the scope that the call has opened. -/
inductive Point.Enters : Point → Point → Prop
  | body {depth : Nat} {scope scope' : ScopeId} {callee : Expr} {args : List Expr} (f : Closure)
      {vs : List Value} {st st₁ st₂ st₃ : Store} :
      callee.eval (Closure.call (depth + 1)) scope st = .ok (.function f) st₁ →
      Expr.evalAll (Closure.call (depth + 1)) scope args st₁ = .ok vs st₂ →
      f.enter vs st₂ = .ok scope' st₃ →
      Enters ⟨depth + 1, scope, .expr (.call callee args), st⟩ ⟨depth, scope', .block f.body, st₃⟩

/-- From the first point, the evaluation comes to the second one: to a part, or into a call. -/
inductive Point.Step : Point → Point → Prop
  | inside {depth : Nat} {scope : ScopeId} {m m' : Moment} :
      Inside (Closure.call depth) scope m m' → Step ⟨depth, scope, m⟩ ⟨depth, scope, m'⟩
  | enters {p q : Point} : p.Enters q → Step p q

/-! ## One step -/

section

variable {call : Closure → List Value → Eval Value} {scope : ScopeId}

/-- What stops a part stops the whole, and leaves the same store. -/
theorem Inside.stops {m m' : Moment} (h : Inside call scope m m') {stop : Stop} {st : Store}
    (hstop : m'.task.eval call scope m'.store = .error stop st) :
    m.task.eval call scope m.store = .error stop st := by
  cases h with
  | operand | left | callee | collection | initializer | returned =>
      exact Eval.bind_of_error hstop
  | condition =>
      rw [Task.eval, Expr.eval_cond]
      exact Eval.bind_of_error hstop
  | right hl | position hl =>
      exact (Eval.bind_of_ok hl).trans (Eval.bind_of_error hstop)
  | thenBlock hc htrue =>
      rw [Task.eval, Expr.eval_cond, Eval.bind_of_ok hc, if_pos htrue]
      exact hstop
  | elseBlock hc hfalse =>
      rw [Task.eval, Expr.eval_cond, Eval.bind_of_ok hc, if_neg hfalse]
      exact hstop
  | argument _ hf hbefore =>
      refine (Eval.bind_of_ok hf).trans (Eval.bind_of_error ?_)
      rw [Expr.evalAll_append, Eval.bind_of_ok hbefore]
      exact Eval.bind_of_error (Eval.bind_of_error hstop)
  | item _ hbefore =>
      refine Eval.bind_of_error ?_
      rw [Expr.evalAll_append, Eval.bind_of_ok hbefore]
      exact Eval.bind_of_error (Eval.bind_of_error hstop)
  | key _ hbefore =>
      refine Eval.bind_of_error ?_
      rw [Expr.evalPairs_append, Eval.bind_of_ok hbefore]
      exact Eval.bind_of_error hstop
  | value _ hbefore hk hkey =>
      refine Eval.bind_of_error ?_
      rw [Expr.evalPairs_append, Eval.bind_of_ok hbefore]
      refine (Eval.bind_of_ok hk).trans ((Eval.bind_of_ok (Eval.asKey_of_isSome hkey _)).trans ?_)
      exact Eval.bind_of_error hstop
  | expression => exact hstop
  | statement _ hbefore =>
      show Stmt.evalAll call scope .null _ _ = _
      rw [Stmt.evalAll_append, Eval.bind_of_ok hbefore]
      exact Eval.bind_of_error hstop

end

/-- A call lets through whatever its body comes to, but for a `return`, which makes its value. -/
theorem Point.Enters.outcome_eq {p q : Point} (h : p.Enters q) :
    p.outcome = Eval.catchReturn (q.moment.task.eval (Closure.call q.depth) q.scope)
      q.moment.store := by
  cases h with
  | body _ hcallee hargs henter =>
      refine (Eval.bind_of_ok hcallee).trans ((Eval.bind_of_ok hargs).trans ?_)
      exact Eval.bind_of_ok henter

theorem Point.Enters.fails {p q : Point} (h : p.Enters q) {e : RuntimeError} {st : Store}
    (hfailed : q.outcome = .error (.failed e) st) : p.outcome = .error (.failed e) st := by
  unfold Point.outcome at hfailed
  rw [h.outcome_eq, Eval.catchReturn, hfailed]

theorem Point.Enters.ends {p q : Point} (h : p.Enters q) {v : Value} {st : Store}
    (hended : q.outcome = .ok v st) : p.outcome = .ok v st := by
  unfold Point.outcome at hended
  rw [h.outcome_eq, Eval.catchReturn, hended]

theorem Point.Enters.returns {p q : Point} (h : p.Enters q) {v : Value} {st : Store}
    (hreturned : q.outcome = .error (.returned v) st) : p.outcome = .ok v st := by
  unfold Point.outcome at hreturned
  rw [h.outcome_eq, Eval.catchReturn, hreturned]

/-! ## All steps -/

open Relation

/-- What stops a part at any depth stops the whole, as long as no call is in between. -/
theorem Inside.stops_all {call : Closure → List Value → Eval Value} {scope : ScopeId}
    {m m' : Moment} (h : ReflTransGen (Inside call scope) m m') {stop : Stop} {st : Store}
    (hstop : m'.task.eval call scope m'.store = .error stop st) :
    m.task.eval call scope m.store = .error stop st := by
  induction h using ReflTransGen.head_induction_on with
  | refl => exact hstop
  | head hstep _ ih => exact hstep.stops ih

theorem Point.reaches_of_inside {depth : Nat} {scope : ScopeId} {m m' : Moment}
    (h : ReflTransGen (Inside (Closure.call depth) scope) m m') :
    ReflTransGen Point.Step ⟨depth, scope, m⟩ ⟨depth, scope, m'⟩ := by
  induction h with
  | refl => exact .refl
  | tail _ hstep ih => exact ih.tail (.inside hstep)

/-- A runtime error goes through everything, calls included. -/
theorem Point.fails_of_reaches {p q : Point} (h : ReflTransGen Point.Step p q) {e : RuntimeError}
    {st : Store} (hfailed : q.outcome = .error (.failed e) st) :
    p.outcome = .error (.failed e) st := by
  induction h using ReflTransGen.head_induction_on with
  | refl => exact hfailed
  | head hstep _ ih =>
      cases hstep with
      | inside hinside => exact hinside.stops ih
      | enters henters => exact henters.fails ih

/-- A `return` stops where it stands, with the value of its expression. -/
theorem Stmt.eval_ret {call : Closure → List Value → Eval Value} {scope : ScopeId} {e : Expr}
    {v : Value} {st st' : Store} (h : e.eval call scope st = .ok v st') :
    (Stmt.ret e).eval call scope st = .error (.returned v) st' :=
  Eval.bind_of_ok h

/-- **Nothing catches an unwinding.** If what is evaluated at any point that the execution of a
    program comes to fails, then the program ends with this error, and with the store as it was
    then. A `return` ends the program in the same way, with its value, if there is no call between
    them; and if there is one, it ends the nearest call, and its value is that of the call. -/
theorem Program.eval_unwinds (depth : Nat) (scope : ScopeId) (p : Program) (st : Store) :
    (∀ (q : Point) (e : RuntimeError) (st' : Store),
      ReflTransGen Point.Step ⟨depth, scope, .block p.statements, st⟩ q →
      q.outcome = .error (.failed e) st' → p.eval depth scope st = (some (.error e), st')) ∧
    (∀ (e : Expr) (v : Value) (st₁ st₂ : Store),
      ReflTransGen (Inside (Closure.call depth) scope) ⟨.block p.statements, st⟩
        ⟨.stmt (.ret e), st₁⟩ →
      e.eval (Closure.call depth) scope st₁ = .ok v st₂ → p.eval depth scope st = (some v, st₂)) ∧
    (∀ (caller body : Point) (e : Expr) (v : Value) (st₁ st₂ : Store), caller.Enters body →
      ReflTransGen (Inside (Closure.call body.depth) body.scope) body.moment
        ⟨.stmt (.ret e), st₁⟩ →
      e.eval (Closure.call body.depth) body.scope st₁ = .ok v st₂ →
      caller.outcome = .ok v st₂) := by
  refine ⟨fun q e st' hreaches hfailed => ?_, fun e v st₁ st₂ hinside he => ?_,
    fun caller body e v st₁ st₂ henters hinside he => ?_⟩
  · have hwhole : Stmt.evalAll (Closure.call depth) scope .null p.statements st = _ :=
      Point.fails_of_reaches hreaches hfailed
    rw [Program.eval, hwhole]
  · have hwhole : Stmt.evalAll (Closure.call depth) scope .null p.statements st = _ :=
      Inside.stops_all hinside (Stmt.eval_ret he)
    rw [Program.eval, hwhole]
  · exact henters.returns (Inside.stops_all hinside (Stmt.eval_ret he))

omit [Hashing] in
/-- In a block of an `if` in an array in a function: a failure there ends the program around the
    call, and a `return` the call. Without the function, a `return` there ends the program. -/
theorem Program.eval_unwinds_nested :
    let _ : Hashing := .inOrder fun _ => 0
    let body (e : Expr) : List Stmt := [.expr (.array [.int 0, .cond (.bool true) [.ret e] none])]
    let call (e : Expr) : Expr := .call (.fn [] (body e)) []
    let program (e : Expr) : Program := ⟨[.expr (.binary .add (.int 1) (call e))]⟩
    let failing := Expr.unary .negate (.bool true)
    let st : Store := ⟨#[⟨[], none⟩], 0, ""⟩
    let st' : Store := ⟨#[⟨[], none⟩, ⟨[], some 0⟩], 1, ""⟩
    (ReflTransGen Point.Step ⟨1, 0, .block (program failing).statements, st⟩
        ⟨0, 1, .expr failing, st'⟩ ∧
      (program failing).eval 1 0 st = (some (.error (.unknownUnary .negate .boolean)), st')) ∧
    (Program.mk (body (.int 5))).eval 1 0 st = (some (.int 5), st) ∧
    Point.outcome ⟨1, 0, .expr (call (.int 5)), st⟩ = .ok (.int 5) st' := by
  intro _ body call program failing st st'
  have hinside : ∀ (depth : Nat) (scope : ScopeId) (e : Expr) (st : Store),
      ReflTransGen (Inside (Closure.call depth) scope) ⟨.block (body e), st⟩
        ⟨.stmt (.ret e), st⟩ := by
    intro depth scope e st
    refine .head (.statement [] rfl) (.head .expression ?_)
    refine .head (.item [.int 0] rfl) (.head (.thenBlock rfl rfl) ?_)
    exact .head (.statement [] rfl) .refl
  have henters : ∀ e, Point.Enters ⟨1, 0, .expr (call e), st⟩ ⟨0, 1, .block (body e), st'⟩ :=
    fun e => .body ⟨0, [], body e, 0⟩ rfl rfl rfl
  have hreaches : ReflTransGen Point.Step ⟨1, 0, .block (program failing).statements, st⟩
      ⟨0, 1, .expr failing, st'⟩ := by
    refine .head (.inside (.statement [] rfl)) (.head (.inside .expression) ?_)
    refine .head (.inside (.right rfl)) (.head (.enters (henters failing)) ?_)
    exact (Point.reaches_of_inside (hinside 0 1 failing st')).tail (.inside .returned)
  refine ⟨⟨hreaches, (Program.eval_unwinds 1 0 (program failing) st).1 _ _ _ hreaches rfl⟩, ?_, ?_⟩
  · exact (Program.eval_unwinds 1 0 ⟨body (.int 5)⟩ st).2.1 _ _ _ _ (hinside 1 0 (.int 5) st) rfl
  · exact (Program.eval_unwinds 1 0 ⟨[]⟩ st).2.2 _ _ _ _ _ _ (henters (.int 5))
      (hinside 0 1 (.int 5) st') rfl

end ConstScript
