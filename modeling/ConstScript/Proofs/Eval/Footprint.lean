import ConstScript.Proofs.Eval.Sequence
import ConstScript.Proofs.Scope.Footprint

set_option autoImplicit false

/-! # What an evaluation can change

Evaluating a phrase in a scope binds names in that scope only, and only those that the phrase
declares outside function literals: a call binds in the scope that it opens, and leaves every scope
that was there as it was. Both hold however the evaluation ends.

The two statements need each other, since phrases call functions and functions execute phrases. The
functions that evaluate phrases take what a call does as a parameter, so the first is proved for
every parameter that keeps all scopes, and the second by induction on how deeply calls nest. -/

namespace ConstScript

namespace Eval

variable {α β : Type} {scope : ScopeId} {names names' : List String}

/-- The store that an evaluation leaves behind, however it ends. -/
def after (x : Eval α) (st : Store) : Store :=
  match x st with
  | .ok _ st' => st'
  | .error _ st' => st'

/-- The evaluation changes no scope. -/
def Inert (x : Eval α) : Prop :=
  ∀ st : Store, st.Keeps (x.after st)

/-- The evaluation only binds some of the names, in the one scope. -/
def Within (scope : ScopeId) (names : List String) (x : Eval α) : Prop :=
  ∀ st : Store, st.Footprint scope names (x.after st)

/-! ## Sequences -/

/-- After a first step, the evaluation goes on from where that ended, or has ended. -/
theorem after_bind (x : Eval α) (f : α → Eval β) (st : Store) :
    (∃ a, (x >>= f).after st = (f a).after (x.after st)) ∨ (x >>= f).after st = x.after st := by
  have hbind : (x >>= f) st = EStateM.bind x f st := rfl
  unfold after
  rw [hbind]
  unfold EStateM.bind
  cases x st with
  | ok a st' => exact .inl ⟨a, rfl⟩
  | error e st' => exact .inr rfl

theorem Inert.within {x : Eval α} (h : Inert x) : Within scope names x :=
  fun st => (h st).footprint scope names

theorem Within.mono {x : Eval α} (h : Within scope names x) (hsub : names ⊆ names') :
    Within scope names' x :=
  fun st => (h st).mono hsub

theorem Inert.bind {x : Eval α} {f : α → Eval β} (hx : Inert x) (hf : ∀ a, Inert (f a)) :
    Inert (x >>= f) := by
  intro st
  rcases after_bind x f st with ⟨a, hafter⟩ | hafter
  · rw [hafter]
    exact (hx st).trans (hf a _)
  · rw [hafter]
    exact hx st

theorem Within.bind {x : Eval α} {f : α → Eval β} (hx : Within scope names x)
    (hf : ∀ a, Within scope names (f a)) : Within scope names (x >>= f) := by
  intro st
  rcases after_bind x f st with ⟨a, hafter⟩ | hafter
  · rw [hafter]
    exact (hx st).trans (hf a _)
  · rw [hafter]
    exact hx st

/-- Two steps bind the names of both. -/
theorem Within.andThen {x : Eval α} {f : α → Eval β} (hx : Within scope names x)
    (hf : ∀ a, Within scope names' (f a)) : Within scope (names ++ names') (x >>= f) :=
  (hx.mono (List.subset_append_left _ _)).bind fun a =>
    (hf a).mono (List.subset_append_right _ _)

/-! ## Single steps -/

theorem inert_pure (a : α) : Inert (pure a : Eval α) :=
  fun st => .refl st

theorem inert_throw (stop : Stop) : Inert (throw stop : Eval α) :=
  fun st => .refl st

theorem inert_get : Inert (get : Eval Store) :=
  fun st => .refl st

theorem inert_ofExcept (r : Except RuntimeError α) : Inert (ofExcept r) := by
  cases r with
  | ok a => exact inert_pure a
  | error e => exact inert_throw (.failed e)

theorem inert_freshObject : Inert freshObject :=
  fun st => .refl st

theorem inert_printLine (text : String) : Inert (printLine text) :=
  fun st => .refl st

theorem inert_asKey (v : Value) : Inert (asKey v) := by
  unfold asKey
  split
  · exact inert_pure _
  · exact inert_throw _

/-- Looking a name up changes nothing. -/
theorem inert_resolve (scope : ScopeId) (name : String) : Inert (resolve scope name) := by
  refine inert_get.bind fun st => ?_
  split
  · exact inert_pure _
  · split
    · exact inert_pure _
    · exact inert_throw _

theorem within_define (scope : ScopeId) (name : String) (v : Value) :
    Within scope [name] (define scope name v) := by
  intro st
  rw [after]
  by_cases hbinds : st.binds scope name
  · rw [define_of_binds hbinds]
    exact (Store.Keeps.refl st).footprint scope [name]
  · rw [define_of_not_binds hbinds]
    exact Store.addBinding_footprint v hbinds

theorem within_defineAll (scope : ScopeId) (bindings : List (String × Value)) :
    Within scope (bindings.map Prod.fst) (defineAll scope bindings) := by
  induction bindings with
  | nil => exact (inert_pure ()).within
  | cons b bindings ih =>
      refine ((within_define scope b.1 b.2).mono ?_).bind fun _ => ih.mono ?_
      · exact List.cons_subset_cons _ (List.nil_subset _)
      · exact List.subset_cons_self _ _

theorem inert_apply (b : Builtin) (args : List Value) : Inert (b.apply args) := by
  cases b with
  | length | lastIndex => exact inert_ofExcept _
  | tail | push =>
      exact (inert_ofExcept _).bind fun _ => inert_freshObject.bind fun _ => inert_pure _
  | print =>
      have hlines : Inert (args.forM (fun v => printLine v.text)) := by
        induction args with
        | nil => exact inert_pure ()
        | cons v vs ih => exact (inert_printLine v.text).bind fun _ => ih
      exact hlines.bind fun _ => inert_pure _

/-- What happens in a scope that was just opened changes no scope that was there before. -/
theorem inert_enclose_bind (outer : ScopeId) {f : ScopeId → Eval α}
    (hf : ∀ id, Within id names (f id)) : Inert (enclose outer >>= f) := by
  intro st
  obtain ⟨hkeeps, hnew⟩ := st.openScope_spec (some outer)
  have hafter : (enclose outer >>= f).after st
      = (f (st.openScope (some outer)).1).after (st.openScope (some outer)).2 := rfl
  -- `f` can only bind in the scope that was not in `st`, so no scope of `st` is affected.
  have hfootprint := (hkeeps.footprint (st.openScope (some outer)).1 names).trans (hf _ _)
  rw [hafter]
  exact hfootprint.keeps hnew

/-- Catching a `return` changes nothing in the store. -/
theorem after_catchReturn (x : Eval Value) (st : Store) :
    (Eval.catchReturn x).after st = x.after st := by
  unfold after Eval.catchReturn
  cases x st with
  | ok v st' => rfl
  | error stop st' => cases stop <;> rfl

theorem Within.catchReturn {x : Eval Value} (h : Within scope names x) :
    Within scope names (Eval.catchReturn x) :=
  fun st => after_catchReturn x st ▸ h st

end Eval

/-! ## Declared names -/

mutual

/-- The names that evaluating an expression can bind in the scope around it: those of the `const`
    statements in it, outside function literals. -/
def Expr.declared : Expr → List String
  | .name _ | .int _ | .str _ | .bool _ | .fn .. => []
  | .unary _ operand => operand.declared
  | .binary _ left right => left.declared ++ right.declared
  | .cond condition thenBlock none => condition.declared ++ Stmt.allDeclared thenBlock
  | .cond condition thenBlock (some elseBlock) =>
    condition.declared ++ (Stmt.allDeclared thenBlock ++ Stmt.allDeclared elseBlock)
  | .call callee args => callee.declared ++ Expr.allDeclared args
  | .array items => Expr.allDeclared items
  | .map pairs => Expr.pairsDeclared pairs
  | .index collection position => collection.declared ++ position.declared

/-- The names that expressions declare. -/
def Expr.allDeclared : List Expr → List String
  | [] => []
  | e :: es => e.declared ++ Expr.allDeclared es

/-- The names that the pairs of a map literal declare. -/
def Expr.pairsDeclared : List (Expr × Expr) → List String
  | [] => []
  | (key, value) :: pairs => key.declared ++ (value.declared ++ Expr.pairsDeclared pairs)

/-- The names that a statement declares. -/
def Stmt.declared : Stmt → List String
  | .const name value => value.declared ++ [name]
  | .ret value => value.declared
  | .expr e => e.declared

/-- The names that statements declare. -/
def Stmt.allDeclared : List Stmt → List String
  | [] => []
  | s :: ss => s.declared ++ Stmt.allDeclared ss

end

/-! ## Phrases -/

variable [Hashing]

section

open Eval

variable {call : Closure → List Value → Eval Value} (hcall : ∀ f args, Inert (call f args))
  (scope : ScopeId)

include hcall

omit [Hashing] in
theorem Value.inert_apply (callee : Value) (args : List Value) :
    Inert (callee.apply call args) := by
  unfold Value.apply
  split
  · exact hcall _ _
  · exact Eval.inert_apply _ _
  · exact inert_throw _

set_option linter.unusedSectionVars false in
mutual

theorem Expr.within_eval : (e : Expr) → Within scope e.declared (e.eval call scope)
  | .name n => (inert_resolve scope n).within
  | .int _ | .str _ | .bool _ => (inert_pure _).within
  | .fn .. => (inert_freshObject.bind fun _ => inert_pure _).within
  | .unary _ operand => (Expr.within_eval operand).bind fun _ => (inert_ofExcept _).within
  | .binary _ left right =>
      (Expr.within_eval left).andThen fun _ =>
        (Expr.within_eval right).bind fun _ => (inert_ofExcept _).within
  | .cond condition thenBlock none => by
      refine (Expr.within_eval condition).andThen fun c => ?_
      split
      · exact Stmt.within_evalAll .null thenBlock
      · exact (inert_pure _).within
  | .cond condition thenBlock (some elseBlock) => by
      refine (Expr.within_eval condition).andThen fun c => ?_
      split
      · exact (Stmt.within_evalAll .null thenBlock).mono (List.subset_append_left _ _)
      · exact (Stmt.within_evalAll .null elseBlock).mono (List.subset_append_right _ _)
  | .call callee args =>
      (Expr.within_eval callee).andThen fun f =>
        (Expr.within_evalAll args).bind fun vs => (Value.inert_apply hcall f vs).within
  | .array items =>
      (Expr.within_evalAll items).bind fun _ =>
        (inert_freshObject.bind fun _ => inert_pure _).within
  | .map pairs =>
      (Expr.within_evalPairs [] pairs).bind fun _ =>
        (inert_freshObject.bind fun _ => inert_pure _).within
  | .index collection position =>
      (Expr.within_eval collection).andThen fun _ =>
        (Expr.within_eval position).bind fun _ => (inert_ofExcept _).within

theorem Expr.within_evalAll : (es : List Expr) →
    Within scope (Expr.allDeclared es) (Expr.evalAll call scope es)
  | [] => (inert_pure _).within
  | e :: es =>
      (Expr.within_eval e).andThen fun _ =>
        (Expr.within_evalAll es).bind fun _ => (inert_pure _).within

theorem Expr.within_evalPairs (puts : List (Entry Value)) : (pairs : List (Expr × Expr)) →
    Within scope (Expr.pairsDeclared pairs) (Expr.evalPairs call scope puts pairs)
  | [] => (inert_pure _).within
  | (key, value) :: pairs =>
      (Expr.within_eval key).andThen fun k =>
        (inert_asKey k).within.bind fun _ =>
          (Expr.within_eval value).andThen fun _ => Expr.within_evalPairs _ pairs

theorem Stmt.within_eval : (s : Stmt) → Within scope s.declared (s.eval call scope)
  | .const name value =>
      (Expr.within_eval value).andThen fun v =>
        (within_define scope name v).bind fun _ => (inert_pure _).within
  | .ret value => (Expr.within_eval value).bind fun _ => (inert_throw _).within
  | .expr e => Expr.within_eval e

theorem Stmt.within_evalAll (last : Value) : (ss : List Stmt) →
    Within scope (Stmt.allDeclared ss) (Stmt.evalAll call scope last ss)
  | [] => (inert_pure _).within
  | s :: ss => (Stmt.within_eval s).andThen fun v => Stmt.within_evalAll v ss

end

end

/-! ## Calls -/

open Eval

omit [Hashing] in
/-- Entering a function opens a scope, so what is done in that scope changes none from before. -/
theorem Closure.inert_enter_bind {α : Type} (f : Closure) (args : List Value)
    {names : List String} {k : ScopeId → Eval α} (hk : ∀ id, Within id names (k id)) :
    Inert (f.enter args >>= k) := by
  -- The scope is opened in the middle of `enter`, so what follows it has to be brought together.
  have henter : f.enter args >>= k
      = Eval.ofExcept (checkArgumentCount args.length f.params.length) >>= fun _ =>
          Eval.enclose f.scope >>= fun id =>
            Eval.defineAll id (f.params.zip args) >>= fun _ => k id := by
    rw [Closure.enter]
    simp only [bind_assoc, pure_bind]
  rw [henter]
  exact (inert_ofExcept _).bind fun _ =>
    inert_enclose_bind f.scope fun id => (within_defineAll id _).andThen fun _ => hk id

/-- A call changes no scope, whatever its body declares and however it ends. -/
theorem Closure.inert_call (depth : Nat) (f : Closure) (args : List Value) :
    Inert (Closure.call depth f args) := by
  induction depth generalizing f args with
  | zero =>
      have hthrow : ∀ id, Within id [] (throw .tooDeep : Eval Value) :=
        fun _ => (inert_throw _).within
      exact f.inert_enter_bind args hthrow
  | succ depth ih =>
      exact f.inert_enter_bind args fun id =>
        (Stmt.within_evalAll ih id .null f.body).catchReturn

/-- **Evaluation has a local footprint.** However evaluating an expression or statements in a scope
    ends, it only adds bindings, and only to that scope, of names that are declared in them outside
    function literals. Applying a value to arguments changes no scope at all. -/
theorem Eval.footprint_local (depth : Nat) :
    (∀ (scope : ScopeId) (e : Expr) (st : Store),
      st.Footprint scope e.declared ((e.eval (Closure.call depth) scope).after st)) ∧
    (∀ (scope : ScopeId) (last : Value) (ss : List Stmt) (st : Store),
      st.Footprint scope (Stmt.allDeclared ss)
        ((Stmt.evalAll (Closure.call depth) scope last ss).after st)) ∧
    (∀ (callee : Value) (args : List Value) (st : Store),
      st.Keeps ((callee.applyTo depth args).after st)) := by
  have hcall := Closure.inert_call depth
  refine ⟨fun scope e => ?_, fun scope last ss => ?_, fun callee args => ?_⟩
  · exact Expr.within_eval hcall scope e
  · exact Stmt.within_evalAll hcall scope last ss
  · exact Value.inert_apply hcall callee args

end ConstScript
