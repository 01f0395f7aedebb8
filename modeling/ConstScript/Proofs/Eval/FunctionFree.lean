import ConstScript.Proofs.Eval.Agreement
import ConstScript.Proofs.Eval.Unwinding
import ConstScript.Proofs.Scope.Chain
import ConstScript.Proofs.Syntax.Height
import ConstScript.Proofs.Syntax.Vocabulary
import ConstScript.Proofs.Value.FunctionFree

set_option autoImplicit false

/-! # Evaluation without functions

Phrases are evaluated by recursion on the syntax tree; only a call of a function goes elsewhere. If
there is no function literal in a phrase, and no function in what its names are bound to, then no
such call occurs: every value is function-free, and so is whatever is bound. So the evaluation ends
by itself, in the same way whatever calls of functions would do, and it never is in more parts of the
phrase at once than these nest.

As only function-free values are bound, this goes on for all further programs of this kind. -/

namespace ConstScript

/-! ## Stores -/

namespace Store

variable {st st' : Store}

/-- No scope that is seen from the given one binds a value with a function in it. -/
def FunctionFree (st : Store) (scope : ScopeId) : Prop :=
  ∀ s ∈ st.chain scope, ∀ b ∈ s.bindings, b.2.FunctionFree

namespace FunctionFree

variable {scope : ScopeId}

theorem congr (h : st.FunctionFree scope) (hscopes : st'.scopes = st.scopes) :
    st'.FunctionFree scope := by
  rw [FunctionFree, chain_congr hscopes]
  exact h

theorem addBinding (h : st.FunctionFree scope) {v : Value} (hv : v.FunctionFree) (id : ScopeId)
    (name : String) : (st.addBinding id name v).FunctionFree scope := by
  intro t ht b hb
  obtain ⟨s, hs, rfl | rfl⟩ := mem_chain_addBinding ht
  · exact h t hs b hb
  · rcases List.mem_cons.1 hb with rfl | hb
    · exact hv
    · exact h s hs b hb

theorem lookup (h : st.FunctionFree scope) {name : String} {v : Value}
    (hv : st.lookup scope name = some v) : v.FunctionFree := by
  obtain ⟨s, hs, hget⟩ := List.exists_of_findSome?_eq_some hv
  obtain ⟨before, after, hbindings, -⟩ := List.lookup_eq_some_iff.1 hget
  have hmem : (name, v) ∈ s.bindings := by simp [hbindings]
  exact h s hs _ hmem

end FunctionFree

end Store

/-! ## Evaluations -/

namespace Eval

variable {α β : Type}

/-- An evaluation in the scope has ended by itself: with a result that has the property, by a
    `return` or by a runtime error. There is no function in a value that is returned, nor in one that
    is bound where the scope sees it. -/
inductive EndsFunctionFree (scope : ScopeId) (P : α → Prop) : EStateM.Result Stop Store α → Prop
  | value {a : α} {st : Store} : P a → st.FunctionFree scope → EndsFunctionFree scope P (.ok a st)
  | returned {v : Value} {st : Store} : v.FunctionFree → st.FunctionFree scope →
      EndsFunctionFree scope P (.error (.returned v) st)
  | failed {e : RuntimeError} {st : Store} : st.FunctionFree scope →
      EndsFunctionFree scope P (.error (.failed e) st)

/-- If the scope sees no function, the evaluation ends by itself and there is still none to be seen.
    What calls of functions do makes no difference. -/
def FunctionFree (scope : ScopeId) (P : α → Prop)
    (x : (Closure → List Value → Eval Value) → Eval α) : Prop :=
  ∀ st : Store, st.FunctionFree scope →
    ∃ r, EndsFunctionFree scope P r ∧ ∀ call, x call st = r

variable {scope : ScopeId} {P : α → Prop} {Q : β → Prop}

namespace FunctionFree

theorem ends {x : (Closure → List Value → Eval Value) → Eval α} (hx : FunctionFree scope P x)
    {st : Store} (h : st.FunctionFree scope) (call : Closure → List Value → Eval Value) :
    EndsFunctionFree scope P (x call st) := by
  obtain ⟨r, hr, hrun⟩ := hx st h
  rw [hrun call]
  exact hr

theorem of_ok {x : (Closure → List Value → Eval Value) → Eval α} (hx : FunctionFree scope P x)
    {call : Closure → List Value → Eval Value} {st st' : Store} (h : st.FunctionFree scope) {a : α}
    (hrun : x call st = .ok a st') : P a ∧ st'.FunctionFree scope := by
  have hends := hx.ends h call
  rw [hrun] at hends
  cases hends with
  | value ha hst' => exact ⟨ha, hst'⟩

theorem bind {x : (Closure → List Value → Eval Value) → Eval α}
    {f : (Closure → List Value → Eval Value) → α → Eval β} (hx : FunctionFree scope P x)
    (hf : ∀ a, P a → FunctionFree scope Q fun call => f call a) :
    FunctionFree scope Q fun call => x call >>= f call := by
  intro st h
  obtain ⟨r, hr, hrun⟩ := hx st h
  cases hr with
  | value ha hmid =>
      obtain ⟨r', hr', hrest⟩ := hf _ ha _ hmid
      exact ⟨r', hr', fun call => (bind_of_ok (hrun call)).trans (hrest call)⟩
  | returned hv hmid => exact ⟨_, .returned hv hmid, fun call => bind_of_error (hrun call)⟩
  | failed hmid => exact ⟨_, .failed hmid, fun call => bind_of_error (hrun call)⟩

/-- An evaluation in which there are no calls only has to end by itself. -/
theorem of_ends {x : Eval α}
    (h : ∀ st : Store, st.FunctionFree scope → EndsFunctionFree scope P (x st)) :
    FunctionFree scope P fun _ => x :=
  fun st hst => ⟨x st, h st hst, fun _ => rfl⟩

theorem pure {a : α} (ha : P a) : FunctionFree scope P fun _ => Pure.pure a :=
  of_ends fun _ h => .value ha h

theorem fail (e : RuntimeError) : FunctionFree scope P fun _ => (Eval.fail e : Eval α) :=
  of_ends fun _ h => .failed h

theorem ofExcept {r : Except RuntimeError α} (h : ∀ a, r = .ok a → P a) :
    FunctionFree scope P fun _ => Eval.ofExcept r := by
  cases r with
  | ok a => exact .pure (h a rfl)
  | error e => exact .fail e

end FunctionFree

/-! ### What evaluations do with the store -/

theorem functionFree_freshObject : FunctionFree scope (fun _ => True) fun _ => freshObject :=
  .of_ends fun _ h => .value trivial (h.congr rfl)

theorem functionFree_printLine (text : String) :
    FunctionFree scope (fun _ => True) fun _ => printLine text :=
  .of_ends fun _ h => .value trivial (h.congr rfl)

theorem functionFree_newArray {items : List Value} (h : ∀ v ∈ items, v.FunctionFree) :
    FunctionFree scope Value.FunctionFree fun _ => newArray items :=
  functionFree_freshObject.bind fun _ _ => .pure (Value.functionFree_array.2 h)

theorem functionFree_newMap [Hashing] {puts : List (Entry Value)}
    (h : ∀ p ∈ puts, p.value.FunctionFree) :
    FunctionFree scope Value.FunctionFree fun _ => newMap puts :=
  functionFree_freshObject.bind fun _ _ =>
    .pure (Value.functionFree_map.2 fun p hp => h p (Table.mem_of_mem_ofPuts hp))

theorem functionFree_asKey (v : Value) : FunctionFree scope (fun _ => True) fun _ => asKey v := by
  unfold asKey
  split
  · exact .pure trivial
  · exact .fail _

theorem functionFree_resolve (name : String) :
    FunctionFree scope Value.FunctionFree fun _ => resolve scope name := by
  refine .of_ends fun st h => ?_
  rw [resolve_run]
  cases hv : st.lookup scope name with
  | some v => exact .value (h.lookup hv) h
  | none =>
      cases Builtin.ofName? name with
      | some b => exact .value (Value.functionFree_of_objectId? rfl) h
      | none => exact .failed h

theorem functionFree_define (name : String) {v : Value} (hv : v.FunctionFree) :
    FunctionFree scope (fun _ => True) fun _ => define scope name v := by
  refine .of_ends fun st h => ?_
  by_cases hbinds : st.binds scope name
  · rw [define_of_binds hbinds]
    exact .failed h
  · rw [define_of_not_binds hbinds]
    exact .value trivial (h.addBinding hv scope name)

theorem functionFree_apply (b : Builtin) {args : List Value}
    (hargs : ∀ a ∈ args, a.FunctionFree) :
    FunctionFree scope Value.FunctionFree fun _ => b.apply args := by
  cases b with
  | length =>
      exact .ofExcept fun _ h =>
        Value.functionFree_of_objectId? (Builtin.objectId?_of_applyLength h)
  | lastIndex =>
      exact .ofExcept fun _ h =>
        Value.functionFree_of_objectId? (Builtin.objectId?_of_applyLastIndex h)
  | tail =>
      refine FunctionFree.bind (.ofExcept fun _ => Builtin.functionFree_of_oneArray hargs) ?_
      intro items hitems
      exact functionFree_newArray fun v hv => hitems v (List.mem_of_mem_tail hv)
  | push =>
      refine FunctionFree.bind (P := fun p => (∀ v ∈ p.1, v.FunctionFree) ∧ p.2.FunctionFree)
        (.ofExcept fun _ => Builtin.functionFree_of_pushArguments hargs) ?_
      rintro ⟨items, v⟩ ⟨hitems, hv⟩
      exact functionFree_newArray
        (List.forall_mem_append.2 ⟨hitems, List.forall_mem_singleton.2 hv⟩)
  | print =>
      have hlines : FunctionFree scope (fun _ => True) fun _ =>
          args.forM fun v => printLine v.text := by
        clear hargs
        induction args with
        | nil => exact .pure trivial
        | cons v vs ih => exact (functionFree_printLine v.text).bind fun _ _ => ih
      exact hlines.bind fun _ _ => .pure Value.functionFree_null

end Eval

/-! ## Phrases -/

variable [Hashing]

section

open Eval

variable {scope : ScopeId}

omit [Hashing] in
/-- A callee that is no function is a built-in one, or cannot be called. -/
theorem Value.functionFree_apply {callee : Value} {args : List Value}
    (hcallee : callee.FunctionFree) (hargs : ∀ a ∈ args, a.FunctionFree) :
    Eval.FunctionFree scope Value.FunctionFree fun call => callee.apply call args := by
  cases callee with
  | function f => exact absurd hcallee (not_functionFree_function f)
  | builtin b => exact Eval.functionFree_apply b hargs
  | _ => exact .fail _

mutual

theorem Expr.functionFree_eval : (e : Expr) → e.Uses .withoutFunctions →
    Eval.FunctionFree scope Value.FunctionFree fun call => e.eval call scope
  | .name n, _ => functionFree_resolve n
  | .int _, _ | .str _, _ | .bool _, _ => .pure (Value.functionFree_of_objectId? rfl)
  | .unary _ operand, huses =>
      (Expr.functionFree_eval operand huses).bind fun _ _ => .ofExcept fun _ h =>
        Value.functionFree_of_objectId? (UnaryOp.objectId?_of_apply h)
  | .binary _ left right, huses =>
      (Expr.functionFree_eval left huses.1).bind fun _ _ =>
        (Expr.functionFree_eval right huses.2).bind fun _ _ => .ofExcept fun _ h =>
          Value.functionFree_of_objectId? (BinaryOp.objectId?_of_apply h)
  | .cond condition thenBlock none, huses => by
      refine (Expr.functionFree_eval condition huses.1).bind fun c _ => ?_
      split
      · exact Stmt.functionFree_evalAll Value.functionFree_null thenBlock huses.2
      · exact .pure Value.functionFree_null
  | .cond condition thenBlock (some elseBlock), huses => by
      refine (Expr.functionFree_eval condition huses.1).bind fun c _ => ?_
      split
      · exact Stmt.functionFree_evalAll Value.functionFree_null thenBlock huses.2.1
      · exact Stmt.functionFree_evalAll Value.functionFree_null elseBlock huses.2.2
  | .fn _ _, huses => False.elim huses.1
  | .call callee args, huses =>
      (Expr.functionFree_eval callee huses.1).bind fun _ hf =>
        (Expr.functionFree_evalAll args huses.2).bind fun _ hvs => Value.functionFree_apply hf hvs
  | .array items, huses =>
      (Expr.functionFree_evalAll items huses).bind fun _ => functionFree_newArray
  | .map pairs, huses =>
      (Expr.functionFree_evalPairs (by simp) pairs huses).bind fun _ => functionFree_newMap
  | .index collection position, huses =>
      (Expr.functionFree_eval collection huses.1).bind fun _ hv =>
        (Expr.functionFree_eval position huses.2).bind fun _ _ => .ofExcept fun _ h => hv.of_index h

theorem Expr.functionFree_evalAll : (es : List Expr) → Expr.AllUse .withoutFunctions es →
    Eval.FunctionFree scope (fun vs => ∀ v ∈ vs, v.FunctionFree) fun call =>
      Expr.evalAll call scope es
  | [], _ => .pure (by simp)
  | e :: es, huses =>
      (Expr.functionFree_eval e huses.1).bind fun _ hv =>
        (Expr.functionFree_evalAll es huses.2).bind fun _ hvs =>
          .pure (List.forall_mem_cons.2 ⟨hv, hvs⟩)

theorem Expr.functionFree_evalPairs {puts : List (Entry Value)}
    (hputs : ∀ p ∈ puts, p.value.FunctionFree) : (pairs : List (Expr × Expr)) →
    Expr.PairsUse .withoutFunctions pairs →
    Eval.FunctionFree scope (fun puts => ∀ p ∈ puts, p.value.FunctionFree) fun call =>
      Expr.evalPairs call scope puts pairs
  | [], _ => .pure hputs
  | (key, value) :: pairs, huses => by
      refine (Expr.functionFree_eval key huses.1).bind fun k _ =>
        (functionFree_asKey k).bind fun k _ => ?_
      refine (Expr.functionFree_eval value huses.2.1).bind fun v hv =>
        Expr.functionFree_evalPairs ?_ pairs huses.2.2
      exact List.forall_mem_append.2 ⟨hputs, List.forall_mem_singleton.2 hv⟩

theorem Stmt.functionFree_eval : (s : Stmt) → s.Uses .withoutFunctions →
    Eval.FunctionFree scope Value.FunctionFree fun call => s.eval call scope
  | .const name value, huses =>
      (Expr.functionFree_eval value huses.2).bind fun _ hv =>
        (functionFree_define name hv).bind fun _ _ => .pure Value.functionFree_null
  | .ret value, huses =>
      (Expr.functionFree_eval value huses).bind fun _ hv => .of_ends fun _ h => .returned hv h
  | .expr e, huses => Expr.functionFree_eval e huses

theorem Stmt.functionFree_evalAll {last : Value} (hlast : last.FunctionFree) :
    (ss : List Stmt) → Stmt.AllUse .withoutFunctions ss →
    Eval.FunctionFree scope Value.FunctionFree fun call => Stmt.evalAll call scope last ss
  | [], _ => .pure hlast
  | s :: ss, huses =>
      (Stmt.functionFree_eval s huses.1).bind fun _ hv =>
        Stmt.functionFree_evalAll hv ss huses.2

end

end

/-! ## Points of an evaluation -/

open Relation

/-- What is to be evaluated is made of what the vocabulary has. -/
def Task.Uses (voc : Vocabulary) : Task → Prop
  | expr e => e.Uses voc
  | stmt s => s.Uses voc
  | block ss => Stmt.AllUse voc ss

/-- How deeply it nests. -/
def Task.height : Task → Nat
  | expr e => e.height
  | stmt s => s.height
  | block ss => Stmt.blockHeight ss

theorem Task.functionFree_eval (scope : ScopeId) : (t : Task) → t.Uses .withoutFunctions →
    Eval.FunctionFree scope Value.FunctionFree fun call => t.eval call scope
  | .expr e, huses => Expr.functionFree_eval e huses
  | .stmt s, huses => Stmt.functionFree_eval s huses
  | .block ss, huses => Stmt.functionFree_evalAll Value.functionFree_null ss huses

namespace Inside

variable {call : Closure → List Value → Eval Value} {scope : ScopeId} {m m' : Moment}

theorem uses {voc : Vocabulary} (h : Inside call scope m m') (huses : m.task.Uses voc) :
    m'.task.Uses voc := by
  cases h with
  | operand | returned | expression => exact huses
  | left | callee | collection => exact huses.1
  | right _ | position _ | initializer => exact huses.2
  | @condition _ _ e => cases e <;> exact huses.1
  | @thenBlock _ _ e =>
      cases e with
      | none => exact huses.2
      | some _ => exact huses.2.1
  | elseBlock _ _ => exact huses.2.2
  | argument _ _ _ => exact (Expr.allUse_append.1 huses.2).2.1
  | item _ _ => exact (Expr.allUse_append.1 huses).2.1
  | key _ _ => exact (Expr.pairsUse_append.1 huses).2.1
  | value _ _ _ _ => exact (Expr.pairsUse_append.1 huses).2.2.1
  | statement _ _ => exact (Stmt.allUse_append.1 huses).2.1

/-- A part is not as high as the whole. -/
theorem height_lt (h : Inside call scope m m') : m'.task.height < m.task.height := by
  cases h with
  | operand | initializer | returned | expression => exact Nat.lt_succ_self _
  | left | callee | collection => exact Nat.lt_succ_of_le (Nat.le_max_left _ _)
  | right _ | position _ => exact Nat.lt_succ_of_le (Nat.le_max_right _ _)
  | @condition _ _ e => cases e <;> exact Nat.lt_succ_of_le (Nat.le_max_left _ _)
  | @thenBlock _ _ e =>
      cases e <;> simp only [Task.height, Expr.height] <;> omega
  | elseBlock _ _ =>
      simp only [Task.height, Expr.height]
      omega
  | argument _ _ _ | item _ _ =>
      simp only [Task.height, Expr.height, Expr.maxHeight_append, Expr.maxHeight]
      omega
  | key _ _ | value _ _ _ _ =>
      simp only [Task.height, Expr.height, Expr.pairsHeight_append, Expr.pairsHeight]
      omega
  | statement _ _ =>
      simp only [Task.height, Stmt.blockHeight_append, Stmt.blockHeight]
      omega

/-- What is evaluated before a part leaves no function to be seen. -/
theorem functionFree (h : Inside call scope m m') (huses : m.task.Uses .withoutFunctions)
    (hst : m.store.FunctionFree scope) : m'.store.FunctionFree scope := by
  cases h with
  | operand | left | condition | callee | collection | initializer | returned | expression =>
      exact hst
  | right hl | position hl => exact ((Expr.functionFree_eval _ huses.1).of_ok hst hl).2
  | @thenBlock _ _ e _ _ _ hc _ =>
      cases e <;> exact ((Expr.functionFree_eval _ huses.1).of_ok hst hc).2
  | elseBlock hc _ => exact ((Expr.functionFree_eval _ huses.1).of_ok hst hc).2
  | argument before hf hbefore =>
      have hst' := ((Expr.functionFree_eval _ huses.1).of_ok hst hf).2
      have hargs := (Expr.allUse_append.1 huses.2).1
      exact ((Expr.functionFree_evalAll before hargs).of_ok hst' hbefore).2
  | item before hbefore =>
      have hitems := (Expr.allUse_append.1 huses).1
      exact ((Expr.functionFree_evalAll before hitems).of_ok hst hbefore).2
  | key before hbefore =>
      have hpairs := (Expr.pairsUse_append.1 huses).1
      exact ((Expr.functionFree_evalPairs (by simp) before hpairs).of_ok hst hbefore).2
  | value before hbefore hk _ =>
      obtain ⟨hpairs, hkey, -⟩ := Expr.pairsUse_append.1 huses
      have hst' := ((Expr.functionFree_evalPairs (by simp) before hpairs).of_ok hst hbefore).2
      exact ((Expr.functionFree_eval _ hkey).of_ok hst' hk).2
  | statement before hbefore =>
      have hstatements := (Stmt.allUse_append.1 huses).1
      exact ((Stmt.functionFree_evalAll Value.functionFree_null before hstatements).of_ok hst
        hbefore).2

end Inside

namespace Point

variable {p q : Point}

/-- There is no function literal in what is evaluated from the point on, and no function is seen. -/
structure FunctionFree (p : Point) : Prop where
  task : p.moment.task.Uses .withoutFunctions
  store : p.moment.store.FunctionFree p.scope

theorem FunctionFree.ends (h : p.FunctionFree) :
    Eval.EndsFunctionFree p.scope Value.FunctionFree p.outcome :=
  (Task.functionFree_eval p.scope p.moment.task h.task).ends h.store _

/-- No function is called. -/
theorem FunctionFree.not_enters (h : p.FunctionFree) : ¬ p.Enters q := by
  intro henters
  cases henters with
  | body f hcallee _ _ =>
      have hf := ((Expr.functionFree_eval _ h.task.1).of_ok h.store hcallee).1
      exact Value.not_functionFree_function f hf

/-- The evaluation stays in the scope and comes to parts only. -/
theorem FunctionFree.step (h : p.FunctionFree) (hstep : p.Step q) :
    q.FunctionFree ∧ q.scope = p.scope ∧ q.moment.task.height < p.moment.task.height := by
  cases hstep with
  | inside hinside =>
      exact ⟨⟨hinside.uses h.task, hinside.functionFree h.task h.store⟩, rfl, hinside.height_lt⟩
  | enters henters => exact absurd henters h.not_enters

theorem FunctionFree.of_reaches (h : p.FunctionFree) (hreaches : ReflTransGen Point.Step p q) :
    q.FunctionFree ∧ q.scope = p.scope := by
  induction hreaches with
  | refl => exact ⟨h, rfl⟩
  | tail _ hstep ih =>
      obtain ⟨hq, hscope, -⟩ := ih.1.step hstep
      exact ⟨hq, hscope.trans ih.2⟩

/-- The evaluation is never in more parts of parts than these nest. -/
theorem FunctionFree.length_le_height {path : List Point} (h : p.FunctionFree)
    (hpath : List.IsChain Point.Step (p :: path)) : path.length ≤ p.moment.task.height := by
  -- Each step goes to a part that is not as high, and from there the same holds.
  induction path generalizing p with
  | nil => exact Nat.zero_le _
  | cons q path ih =>
      rw [List.isChain_cons_cons] at hpath
      obtain ⟨hq, -, hlt⟩ := h.step hpath.1
      exact Nat.lt_of_le_of_lt (ih hq hpath.2) hlt

end Point

/-! ## Programs -/

namespace Program

/-- There is no function literal in the program. -/
def FunctionFree (p : Program) : Prop :=
  Stmt.AllUse .withoutFunctions p.statements

/-- In the scope, a program without function literals is executed, which leads from the first store
    to the second. -/
inductive RunsFunctionFree (scope : ScopeId) : Store → Store → Prop
  | run (depth : Nat) {p : Program} (st : Store) : p.FunctionFree →
      RunsFunctionFree scope st (p.eval depth scope st).2

variable {scope : ScopeId} {st st' : Store} {p : Program}

omit [Hashing] in
/-- What ends by itself makes the value of a program. -/
theorem exists_outcome {r : EStateM.Result Stop Store Value}
    (h : Eval.EndsFunctionFree scope Value.FunctionFree r) :
    ∃ v after, outcome r = (some v, after) ∧ v.FunctionFree ∧ after.FunctionFree scope := by
  cases h with
  | value hv h => exact ⟨_, _, rfl, hv, h⟩
  | returned hv h => exact ⟨_, _, rfl, hv, h⟩
  | failed h => exact ⟨_, _, rfl, Value.functionFree_of_objectId? rfl, h⟩

theorem FunctionFree.store_eval (hp : p.FunctionFree) (hst : st.FunctionFree scope) (depth : Nat) :
    (p.eval depth scope st).2.FunctionFree scope := by
  have hends := (Task.functionFree_eval scope (.block p.statements) hp).ends hst (Closure.call depth)
  obtain ⟨v, after, houtcome, -, hafter⟩ := exists_outcome hends
  have heval : p.eval depth scope st = (some v, after) :=
    (eval_eq_outcome depth scope p st).trans houtcome
  rw [heval]
  exact hafter

theorem functionFree_of_runs (hst : st.FunctionFree scope)
    (hruns : ReflTransGen (RunsFunctionFree scope) st st') : st'.FunctionFree scope := by
  induction hruns with
  | refl => exact hst
  | tail _ hrun ih =>
      cases hrun with
      | run depth _ hp => exact hp.store_eval ih depth

/-- **Without functions, evaluation ends.** From an environment in which no function is seen, any
    number of programs without function literals are executed. Then the next one of this kind ends
    by itself, with a value, a `return` or a runtime error, in the same way however deeply calls may
    be nested; and no function is in its value or is seen afterwards. This is so for all its parts,
    too, and evaluation is never in more parts of parts than these nest in the syntax tree. -/
theorem eval_functionFree (hst : st.FunctionFree scope)
    (hruns : ReflTransGen (RunsFunctionFree scope) st st') (hp : p.FunctionFree) :
    (∃ r, Eval.EndsFunctionFree scope Value.FunctionFree r ∧ ∀ depth,
      Point.outcome ⟨depth, scope, .block p.statements, st'⟩ = r) ∧
    (∃ v after, v.FunctionFree ∧ after.FunctionFree scope ∧
      ∀ depth, p.eval depth scope st' = (some v, after)) ∧
    ∀ depth : Nat,
      (∀ q : Point, ReflTransGen Point.Step ⟨depth, scope, .block p.statements, st'⟩ q →
        Eval.EndsFunctionFree scope Value.FunctionFree q.outcome) ∧
      ∀ path : List Point,
        List.IsChain Point.Step (⟨depth, scope, .block p.statements, st'⟩ :: path) →
          path.length ≤ p.height := by
  have hst' := functionFree_of_runs hst hruns
  have hstart : ∀ depth, Point.FunctionFree ⟨depth, scope, .block p.statements, st'⟩ :=
    fun _ => ⟨hp, hst'⟩
  obtain ⟨r, hr, hrun⟩ := Task.functionFree_eval scope (.block p.statements) hp st' hst'
  obtain ⟨v, after, houtcome, hv, hafter⟩ := exists_outcome hr
  refine ⟨⟨r, hr, fun depth => hrun _⟩, ⟨v, after, hv, hafter, fun depth => ?_⟩,
    fun depth => ⟨fun q hreaches => ?_, fun path hpath => ?_⟩⟩
  · have hblock : Stmt.evalAll (Closure.call depth) scope .null p.statements st' = r := hrun _
    rw [eval_eq_outcome, hblock, houtcome]
  · obtain ⟨hq, hscope⟩ := (hstart depth).of_reaches hreaches
    have hends := hq.ends
    rw [hscope] at hends
    exact hends
  · exact (hstart depth).length_le_height hpath

omit [Hashing] in
/-- In an environment that binds `size` to the built-in function `len`, after `const a = [1]`, the
    program `size(a)` ends, and its parts nest as deeply as is allowed. -/
theorem eval_functionFree_builtin :
    let _ : Hashing := .inOrder fun _ => 0
    let st : Store := ⟨#[⟨[("size", .builtin .length)], none⟩], 0, ""⟩
    let first : Program := ⟨[.const "a" (.array [.int 1])]⟩
    let next : Program := ⟨[.expr (.call (.name "size") [.name "a"])]⟩
    let st' := (first.eval 0 0 st).2
    st.FunctionFree 0 ∧ ReflTransGen (RunsFunctionFree 0) st st' ∧ next.FunctionFree ∧
    (∃ v after, v.FunctionFree ∧ after.FunctionFree 0 ∧
      ∀ depth, next.eval depth 0 st' = (some v, after)) ∧
    ∃ path, List.IsChain Point.Step (⟨0, 0, .block next.statements, st'⟩ :: path) ∧
      path.length = next.height ∧ path.length ≤ next.height := by
  intro _ st first next st'
  have hst : st.FunctionFree 0 := by
    intro s hs b hb
    rcases (Store.mem_chain_iff rfl).1 hs with rfl | ⟨outer, houter, -⟩
    · obtain rfl := List.mem_singleton.1 hb
      exact Value.functionFree_of_objectId? rfl
    · cases houter
  have hfirst : first.FunctionFree := ⟨⟨trivial, trivial, trivial⟩, trivial⟩
  have hruns : ReflTransGen (RunsFunctionFree 0) st st' := .single (.run 0 st hfirst)
  have hnext : next.FunctionFree := ⟨⟨trivial, trivial, trivial⟩, trivial⟩
  obtain ⟨-, hends, hparts⟩ := eval_functionFree hst hruns hnext
  let path : List Point := [⟨0, 0, .stmt (.expr (.call (.name "size") [.name "a"])), st'⟩,
    ⟨0, 0, .expr (.call (.name "size") [.name "a"]), st'⟩, ⟨0, 0, .expr (.name "size"), st'⟩]
  have hpath : List.IsChain Point.Step (⟨0, 0, .block next.statements, st'⟩ :: path) := by
    refine .cons_cons (.inside (.statement [] rfl)) ?_
    refine .cons_cons (.inside .expression) ?_
    exact .cons_cons (.inside .callee) (.singleton _)
  exact ⟨hst, hruns, hnext, hends, path, hpath, rfl, (hparts 0).2 path hpath⟩

end Program

end ConstScript
