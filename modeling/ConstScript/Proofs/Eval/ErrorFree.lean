import ConstScript.Proofs.Eval.Footprint
import ConstScript.Proofs.Eval.Unwinding
import ConstScript.Proofs.Scope.Chain
import ConstScript.Proofs.Value.ErrorFree

set_option autoImplicit false

/-! # Runtime errors do not become values

From a store that binds error-free values only, every evaluation ends in such a store, and with an
error-free value if it ends with one, be it that of a `return`. So a runtime error stops an
evaluation and is never handed on as a value. This holds for each way of putting evaluations
together, hence for phrases as long as it does for calls, and for calls by induction on how deeply
they nest.

It also holds at every point that an evaluation comes to, and so for all values that occur on the
way. -/

namespace ConstScript

/-! ## Error-free stores -/

/-- All values that scopes bind are error-free. -/
def Store.ErrorFree (st : Store) : Prop :=
  ∀ (id : ScopeId) (name : String) (v : Value), st.getOwn? id name = some v → v.ErrorFree

namespace Store

variable {st : Store}

theorem errorFree_empty : empty.ErrorFree :=
  fun id _ _ h => by simp [getOwn?, empty] at h

theorem ErrorFree.openScope (h : st.ErrorFree) (outer : Option ScopeId) :
    (st.openScope outer).2.ErrorFree := by
  intro id name v hv
  rw [getOwn?_openScope] at hv
  exact h id name v hv

/-- What is bound after a binding was added is this one or was bound before. -/
theorem eq_or_getOwn?_of_addBinding {id id' : ScopeId} {name name' : String} {v w : Value}
    (h : (st.addBinding id name v).getOwn? id' name' = some w) :
    w = v ∨ st.getOwn? id' name' = some w := by
  obtain ⟨s', hs', hget⟩ := exists_of_getOwn? h
  rw [getElem?_addBinding] at hs'
  split at hs'
  · obtain ⟨s, hs, rfl⟩ := Option.map_eq_some_iff.1 hs'
    rw [get?_addBinding] at hget
    split at hget
    · exact .inl (Option.some.inj hget).symm
    · exact .inr (by rw [getOwn?_of_getElem? hs, hget])
  · exact .inr (by rw [getOwn?_of_getElem? hs', hget])

theorem ErrorFree.addBinding (h : st.ErrorFree) {v : Value} (hv : v.ErrorFree) (id : ScopeId)
    (name : String) : (st.addBinding id name v).ErrorFree := by
  intro id' name' w hw
  rcases eq_or_getOwn?_of_addBinding hw with rfl | hw
  · exact hv
  · exact h id' name' w hw

/-- A name has the value that some scope binds it to. -/
theorem exists_of_lookup {id : ScopeId} {name : String} {v : Value}
    (h : st.lookup id name = some v) : ∃ id', st.getOwn? id' name = some v := by
  obtain ⟨s, hs, hget⟩ := List.exists_of_findSome?_eq_some h
  obtain ⟨id', hid⟩ := exists_of_mem_chain hs
  exact ⟨id', by rw [getOwn?_of_getElem? hid, hget]⟩

theorem ErrorFree.lookup (h : st.ErrorFree) {id : ScopeId} {name : String} {v : Value}
    (hv : st.lookup id name = some v) : v.ErrorFree := by
  obtain ⟨id', hown⟩ := exists_of_lookup hv
  exact h id' name v hown

end Store

/-! ## Evaluations -/

/-- The value of a `return` is error-free. -/
def Stop.ErrorFree : Stop → Prop
  | .returned v => v.ErrorFree
  | .failed _ | .tooDeep => True

namespace Eval

variable {α β : Type}

/-- An evaluation has ended in an error-free store, with a result that has the property or in an
    error-free way. -/
inductive EndsErrorFree (P : α → Prop) : EStateM.Result Stop Store α → Prop
  | ok {a : α} {st : Store} : P a → st.ErrorFree → EndsErrorFree P (.ok a st)
  | error {stop : Stop} {st : Store} : stop.ErrorFree → st.ErrorFree →
      EndsErrorFree P (.error stop st)

/-- From every error-free store the evaluation ends in one, and without an error as a value. -/
def ErrorFree (P : α → Prop) (x : Eval α) : Prop :=
  ∀ st : Store, st.ErrorFree → EndsErrorFree P (x st)

variable {P : α → Prop} {Q : β → Prop}

namespace ErrorFree

theorem of_ok {x : Eval α} (hx : ErrorFree P x) {st st' : Store} (h : st.ErrorFree) {a : α}
    (hrun : x st = .ok a st') : P a ∧ st'.ErrorFree := by
  have hends := hx st h
  rw [hrun] at hends
  cases hends with
  | ok ha hst' => exact ⟨ha, hst'⟩

theorem of_error {x : Eval α} (hx : ErrorFree P x) {st st' : Store} (h : st.ErrorFree)
    {stop : Stop} (hrun : x st = .error stop st') : stop.ErrorFree ∧ st'.ErrorFree := by
  have hends := hx st h
  rw [hrun] at hends
  cases hends with
  | error hstop hst' => exact ⟨hstop, hst'⟩

theorem after {x : Eval α} (hx : ErrorFree P x) {st : Store} (h : st.ErrorFree) :
    (x.after st).ErrorFree := by
  unfold Eval.after
  cases hrun : x st with
  | ok a st' => exact (hx.of_ok h hrun).2
  | error stop st' => exact (hx.of_error h hrun).2

theorem bind {x : Eval α} {f : α → Eval β} (hx : ErrorFree P x)
    (hf : ∀ a, P a → ErrorFree Q (f a)) : ErrorFree Q (x >>= f) := by
  intro st h
  cases hrun : x st with
  | ok a mid =>
      obtain ⟨ha, hmid⟩ := hx.of_ok h hrun
      rw [bind_of_ok hrun]
      exact hf a ha mid hmid
  | error stop mid =>
      obtain ⟨hstop, hmid⟩ := hx.of_error h hrun
      rw [bind_of_error hrun]
      exact .error hstop hmid

theorem pure {a : α} (ha : P a) : ErrorFree P (Pure.pure a) :=
  fun _ h => .ok ha h

theorem throw {stop : Stop} (hstop : stop.ErrorFree) :
    ErrorFree P (MonadExcept.throw stop : Eval α) :=
  fun _ h => .error hstop h

theorem fail (e : RuntimeError) : ErrorFree P (Eval.fail e) :=
  .throw trivial

theorem ofExcept {r : Except RuntimeError α} (h : ∀ a, r = .ok a → P a) :
    ErrorFree P (Eval.ofExcept r) := by
  cases r with
  | ok a => exact .pure (h a rfl)
  | error e => exact .fail e

/-- What is done with the store can rely on it. -/
theorem get_bind {f : Store → Eval α} (h : ∀ st : Store, st.ErrorFree → ErrorFree P (f st)) :
    ErrorFree P (get >>= f) :=
  fun st hst => h st hst st hst

theorem catchReturn {x : Eval Value} (h : ErrorFree Value.ErrorFree x) :
    ErrorFree Value.ErrorFree (Eval.catchReturn x) := by
  intro st hst
  have hrun := h st hst
  unfold Eval.catchReturn
  generalize x st = r at hrun
  cases hrun with
  | ok hv hst' => exact .ok hv hst'
  | @error stop _ hstop hst' =>
      cases stop with
      | returned v => exact .ok hstop hst'
      | failed e => exact .error hstop hst'
      | tooDeep => exact .error hstop hst'

end ErrorFree

/-! ### What evaluations do with the store -/

theorem errorFree_freshObject : ErrorFree (fun _ => True) freshObject :=
  fun _ h => .ok trivial h

theorem errorFree_enclose (outer : ScopeId) : ErrorFree (fun _ => True) (enclose outer) :=
  fun _ h => .ok trivial (h.openScope _)

theorem errorFree_printLine (text : String) : ErrorFree (fun _ => True) (printLine text) :=
  fun _ h => .ok trivial h

theorem errorFree_newArray {items : List Value} (h : ∀ v ∈ items, v.ErrorFree) :
    ErrorFree Value.ErrorFree (newArray items) :=
  errorFree_freshObject.bind fun _ _ => .pure (Value.errorFree_array.2 h)

theorem errorFree_newMap [Hashing] {puts : List (Entry Value)} (h : ∀ p ∈ puts, p.value.ErrorFree) :
    ErrorFree Value.ErrorFree (newMap puts) :=
  errorFree_freshObject.bind fun _ _ =>
    .pure (Value.errorFree_map.2 fun p hp => h p (Table.mem_of_mem_ofPuts hp))

theorem errorFree_asKey (v : Value) : ErrorFree (fun _ => True) (asKey v) := by
  unfold asKey
  split
  · exact .pure trivial
  · exact .fail _

theorem errorFree_resolve (scope : ScopeId) (name : String) :
    ErrorFree Value.ErrorFree (resolve scope name) := by
  refine .get_bind fun st h => ?_
  split
  · next v hv => exact .pure (h.lookup hv)
  · split
    · exact .pure (Value.errorFree_builtin _)
    · exact .fail _

theorem errorFree_define (scope : ScopeId) (name : String) {v : Value} (hv : v.ErrorFree) :
    ErrorFree (fun _ => True) (define scope name v) := by
  intro st h
  by_cases hbinds : st.binds scope name
  · rw [define_of_binds hbinds]
    exact .error trivial h
  · rw [define_of_not_binds hbinds]
    exact .ok trivial (h.addBinding hv scope name)

theorem errorFree_defineAll (scope : ScopeId) {bindings : List (String × Value)}
    (h : ∀ b ∈ bindings, b.2.ErrorFree) : ErrorFree (fun _ => True) (defineAll scope bindings) := by
  induction bindings with
  | nil => exact .pure trivial
  | cons b bindings ih =>
      obtain ⟨hb, hbindings⟩ := List.forall_mem_cons.1 h
      exact (errorFree_define scope b.1 hb).bind fun _ _ => ih hbindings

theorem errorFree_apply (b : Builtin) {args : List Value} (hargs : ∀ a ∈ args, a.ErrorFree) :
    ErrorFree Value.ErrorFree (b.apply args) := by
  cases b with
  | length => exact .ofExcept fun _ => Builtin.errorFree_of_applyLength
  | lastIndex => exact .ofExcept fun _ => Builtin.errorFree_of_applyLastIndex
  | tail =>
      refine ErrorFree.bind (.ofExcept fun items => Builtin.errorFree_of_oneArray hargs) ?_
      exact fun items hitems => errorFree_newArray fun v hv => hitems v (List.mem_of_mem_tail hv)
  | push =>
      refine ErrorFree.bind (P := fun p => (∀ v ∈ p.1, v.ErrorFree) ∧ p.2.ErrorFree)
        (.ofExcept fun p => Builtin.errorFree_of_pushArguments hargs) ?_
      rintro ⟨items, v⟩ ⟨hitems, hv⟩
      exact errorFree_newArray (List.forall_mem_append.2 ⟨hitems, List.forall_mem_singleton.2 hv⟩)
  | print =>
      have hlines : ErrorFree (fun _ => True) (args.forM fun v => printLine v.text) := by
        clear hargs
        induction args with
        | nil => exact .pure trivial
        | cons v vs ih => exact (errorFree_printLine v.text).bind fun _ _ => ih
      exact hlines.bind fun _ _ => .pure Value.errorFree_null

end Eval

/-! ## Phrases -/

variable [Hashing]

section

open Eval

variable {call : Closure → List Value → Eval Value}
  (hcall : ∀ (f : Closure) (args : List Value), (∀ a ∈ args, a.ErrorFree) →
    Eval.ErrorFree Value.ErrorFree (call f args))
  (scope : ScopeId)

include hcall

omit [Hashing] in
theorem Value.errorFree_apply {callee : Value} {args : List Value}
    (hargs : ∀ a ∈ args, a.ErrorFree) :
    Eval.ErrorFree Value.ErrorFree (callee.apply call args) := by
  unfold Value.apply
  split
  · exact hcall _ _ hargs
  · exact Eval.errorFree_apply _ hargs
  · exact .fail _

set_option linter.unusedSectionVars false in
mutual

theorem Expr.errorFree_eval : (e : Expr) → ErrorFree Value.ErrorFree (e.eval call scope)
  | .name n => errorFree_resolve scope n
  | .int _ | .str _ | .bool _ => .pure (by simp)
  | .fn .. => errorFree_freshObject.bind fun _ _ => .pure (Value.errorFree_function _)
  | .unary _ operand =>
      (Expr.errorFree_eval operand).bind fun _ _ => .ofExcept fun _ => UnaryOp.errorFree_of_apply
  | .binary _ left right =>
      (Expr.errorFree_eval left).bind fun _ _ => (Expr.errorFree_eval right).bind fun _ _ =>
        .ofExcept fun _ => BinaryOp.errorFree_of_apply
  | .cond condition thenBlock none => by
      refine (Expr.errorFree_eval condition).bind fun c _ => ?_
      split
      · exact Stmt.errorFree_evalAll Value.errorFree_null thenBlock
      · exact .pure Value.errorFree_null
  | .cond condition thenBlock (some elseBlock) => by
      refine (Expr.errorFree_eval condition).bind fun c _ => ?_
      split
      · exact Stmt.errorFree_evalAll Value.errorFree_null thenBlock
      · exact Stmt.errorFree_evalAll Value.errorFree_null elseBlock
  | .call callee args =>
      (Expr.errorFree_eval callee).bind fun _ _ => (Expr.errorFree_evalAll args).bind fun _ hvs =>
        Value.errorFree_apply hcall hvs
  | .array items => (Expr.errorFree_evalAll items).bind fun _ => errorFree_newArray
  | .map pairs => (Expr.errorFree_evalPairs (by simp) pairs).bind fun _ => errorFree_newMap
  | .index collection position => by
      refine (Expr.errorFree_eval collection).bind fun v hv => ?_
      exact (Expr.errorFree_eval position).bind fun w _ => .ofExcept fun u h => hv.of_index h

theorem Expr.errorFree_evalAll : (es : List Expr) →
    ErrorFree (fun vs => ∀ v ∈ vs, v.ErrorFree) (Expr.evalAll call scope es)
  | [] => .pure (by simp)
  | e :: es =>
      (Expr.errorFree_eval e).bind fun _ hv => (Expr.errorFree_evalAll es).bind fun _ hvs =>
        .pure (List.forall_mem_cons.2 ⟨hv, hvs⟩)

theorem Expr.errorFree_evalPairs {puts : List (Entry Value)}
    (hputs : ∀ p ∈ puts, p.value.ErrorFree) : (pairs : List (Expr × Expr)) →
    ErrorFree (fun puts => ∀ p ∈ puts, p.value.ErrorFree) (Expr.evalPairs call scope puts pairs)
  | [] => .pure hputs
  | (key, value) :: pairs => by
      refine (Expr.errorFree_eval key).bind fun k _ => (errorFree_asKey k).bind fun k _ => ?_
      refine (Expr.errorFree_eval value).bind fun v hv => Expr.errorFree_evalPairs ?_ pairs
      exact List.forall_mem_append.2 ⟨hputs, List.forall_mem_singleton.2 hv⟩

theorem Stmt.errorFree_eval : (s : Stmt) → ErrorFree Value.ErrorFree (s.eval call scope)
  | .const name value =>
      (Expr.errorFree_eval value).bind fun _ hv => (errorFree_define scope name hv).bind fun _ _ =>
        .pure Value.errorFree_null
  | .ret value => (Expr.errorFree_eval value).bind fun _ hv => .throw hv
  | .expr e => Expr.errorFree_eval e

theorem Stmt.errorFree_evalAll {last : Value} (hlast : last.ErrorFree) : (ss : List Stmt) →
    ErrorFree Value.ErrorFree (Stmt.evalAll call scope last ss)
  | [] => .pure hlast
  | s :: ss => (Stmt.errorFree_eval s).bind fun _ hv => Stmt.errorFree_evalAll hv ss

end

end

/-! ## Calls -/

omit [Hashing] in
theorem Closure.errorFree_enter (f : Closure) {args : List Value}
    (hargs : ∀ a ∈ args, a.ErrorFree) : Eval.ErrorFree (fun _ => True) (f.enter args) := by
  have hbindings : ∀ b ∈ f.params.zip args, b.2.ErrorFree :=
    fun b hb => hargs b.2 (List.of_mem_zip hb).2
  refine Eval.ErrorFree.bind (P := fun _ => True) (.ofExcept fun _ _ => trivial) fun _ _ => ?_
  refine (Eval.errorFree_enclose f.scope).bind fun scope _ => ?_
  exact (Eval.errorFree_defineAll scope hbindings).bind fun _ _ => .pure trivial

theorem Closure.errorFree_call (depth : Nat) (f : Closure) (args : List Value)
    (hargs : ∀ a ∈ args, a.ErrorFree) :
    Eval.ErrorFree Value.ErrorFree (Closure.call depth f args) := by
  induction depth generalizing f args with
  | zero => exact (f.errorFree_enter hargs).bind fun _ _ => .throw trivial
  | succ depth ih =>
      exact (f.errorFree_enter hargs).bind fun scope _ =>
        (Stmt.errorFree_evalAll ih scope Value.errorFree_null f.body).catchReturn

/-! ## Points -/

open Eval Relation

theorem Task.errorFree_eval (depth : Nat) (scope : ScopeId) (t : Task) :
    Eval.ErrorFree Value.ErrorFree (t.eval (Closure.call depth) scope) := by
  have hcall := Closure.errorFree_call depth
  cases t with
  | expr e => exact Expr.errorFree_eval hcall scope e
  | stmt s => exact Stmt.errorFree_eval hcall scope s
  | block ss => exact Stmt.errorFree_evalAll hcall scope Value.errorFree_null ss

/-- On its way to a part, an evaluation leaves the store error-free. -/
theorem Inside.errorFree {depth : Nat} {scope : ScopeId} {m m' : Moment}
    (h : Inside (Closure.call depth) scope m m') (hm : m.store.ErrorFree) : m'.store.ErrorFree := by
  have hcall := Closure.errorFree_call depth
  have hexpr {e : Expr} {v : Value} {st st' : Store} (hst : st.ErrorFree)
      (hrun : e.eval (Closure.call depth) scope st = .ok v st') : st'.ErrorFree :=
    ((Expr.errorFree_eval hcall scope e).of_ok hst hrun).2
  have hexprs {es : List Expr} {vs : List Value} {st st' : Store} (hst : st.ErrorFree)
      (hrun : Expr.evalAll (Closure.call depth) scope es st = .ok vs st') : st'.ErrorFree :=
    ((Expr.errorFree_evalAll hcall scope es).of_ok hst hrun).2
  have hpairs {ps : List (Expr × Expr)} {puts : List (Entry Value)} {st st' : Store}
      (hst : st.ErrorFree)
      (hrun : Expr.evalPairs (Closure.call depth) scope [] ps st = .ok puts st') :
      st'.ErrorFree :=
    ((Expr.errorFree_evalPairs hcall scope (by simp) ps).of_ok hst hrun).2
  cases h with
  | operand | left | condition | callee | collection | initializer | returned | expression =>
      exact hm
  | right hrun | position hrun | thenBlock hrun _ | elseBlock hrun _ => exact hexpr hm hrun
  | argument _ hf hbefore => exact hexprs (hexpr hm hf) hbefore
  | item _ hbefore => exact hexprs hm hbefore
  | key _ hbefore => exact hpairs hm hbefore
  | value _ hbefore hk _ => exact hexpr (hpairs hm hbefore) hk
  | statement before hbefore =>
      exact ((Task.errorFree_eval depth scope (.block before)).of_ok hm hbefore).2

theorem Point.Enters.errorFree {p q : Point} (h : p.Enters q) (hp : p.moment.store.ErrorFree) :
    q.moment.store.ErrorFree := by
  cases h with
  | @body depth scope _ _ _ f _ _ _ _ _ hcallee hargs henter =>
      have hcall := Closure.errorFree_call (depth + 1)
      obtain ⟨-, h₁⟩ := (Expr.errorFree_eval hcall scope _).of_ok hp hcallee
      obtain ⟨hvs, h₂⟩ := (Expr.errorFree_evalAll hcall scope _).of_ok h₁ hargs
      exact ((f.errorFree_enter hvs).of_ok h₂ henter).2

theorem Point.errorFree_of_reaches {p q : Point} (h : ReflTransGen Point.Step p q)
    (hp : p.moment.store.ErrorFree) : q.moment.store.ErrorFree := by
  induction h with
  | refl => exact hp
  | tail _ hstep ih =>
      cases hstep with
      | inside hinside => exact hinside.errorFree ih
      | enters henters => exact henters.errorFree ih

/-! ## What an evaluation handles -/

/-- From the point on, the evaluation handles the value: it ends with it or returns it, a scope binds
    it before or after, it is the callee or an argument of a call, or it is put into a new array or
    map. -/
inductive Point.Handles (p : Point) : Value → Prop
  | value {v : Value} {st : Store} : p.outcome = .ok v st → Handles p v
  | returned {v : Value} {st : Store} : p.outcome = .error (.returned v) st → Handles p v
  | boundBefore {id : ScopeId} {name : String} {v : Value} :
      p.moment.store.getOwn? id name = some v → Handles p v
  | boundAfter {id : ScopeId} {name : String} {v : Value} :
      (Eval.after (p.moment.task.eval (Closure.call p.depth) p.scope) p.moment.store).getOwn? id
        name = some v → Handles p v
  | passed {f : Expr} {args : List Expr} {callee v : Value} {vs : List Value} {st st' : Store} :
      p.moment.task = .expr (.call f args) →
      f.eval (Closure.call p.depth) p.scope p.moment.store = .ok callee st →
      Expr.evalAll (Closure.call p.depth) p.scope args st = .ok vs st' → v ∈ callee :: vs →
      Handles p v
  | item {items : List Expr} {v : Value} {vs : List Value} {st : Store} :
      p.moment.task = .expr (.array items) →
      Expr.evalAll (Closure.call p.depth) p.scope items p.moment.store = .ok vs st → v ∈ vs →
      Handles p v
  | entry {pairs : List (Expr × Expr)} {e : Entry Value} {puts : List (Entry Value)} {st : Store} :
      p.moment.task = .expr (.map pairs) →
      Expr.evalPairs (Closure.call p.depth) p.scope [] pairs p.moment.store = .ok puts st →
      e ∈ puts → Handles p e.value

theorem Point.Handles.errorFree {p : Point} {v : Value} (h : p.Handles v)
    (hp : p.moment.store.ErrorFree) : v.ErrorFree := by
  have hcall := Closure.errorFree_call p.depth
  have htask := Task.errorFree_eval p.depth p.scope p.moment.task
  cases h with
  | value hrun => exact (htask.of_ok hp hrun).1
  | returned hrun => exact (htask.of_error hp hrun).1
  | boundBefore hv => exact hp _ _ v hv
  | boundAfter hv => exact htask.after hp _ _ v hv
  | passed _ hf hargs hv =>
      obtain ⟨hcallee, hst⟩ := (Expr.errorFree_eval hcall p.scope _).of_ok hp hf
      obtain ⟨hvs, -⟩ := (Expr.errorFree_evalAll hcall p.scope _).of_ok hst hargs
      exact List.forall_mem_cons.2 ⟨hcallee, hvs⟩ v hv
  | item _ hitems hv => exact ((Expr.errorFree_evalAll hcall p.scope _).of_ok hp hitems).1 v hv
  | entry _ hpairs hv =>
      exact ((Expr.errorFree_evalPairs hcall p.scope (by simp) _).of_ok hp hpairs).1 _ hv

/-! ## Programs -/

/-- A program leaves an error-free store behind, and has an error as its value only if its execution
    fails. -/
theorem Program.errorFree_eval (depth : Nat) (scope : ScopeId) (p : Program) {st : Store}
    (h : st.ErrorFree) :
    (p.eval depth scope st).2.ErrorFree ∧
      ∀ e, (p.eval depth scope st).1 = some (.error e) ↔ ∃ st',
        Stmt.evalAll (Closure.call depth) scope .null p.statements st = .error (.failed e) st' := by
  have hrun := Task.errorFree_eval depth scope (.block p.statements)
  have hvalue {v : Value} (hv : v.ErrorFree) (e : RuntimeError) : some v ≠ some (.error e) := by
    intro heq
    obtain rfl := Option.some.inj heq
    exact Value.not_errorFree_error e hv
  unfold Program.eval
  cases hresult : Stmt.evalAll (Closure.call depth) scope .null p.statements st with
  | ok v st' =>
      obtain ⟨hv, hst'⟩ := hrun.of_ok h hresult
      exact ⟨hst', fun e => iff_of_false (hvalue hv e) (by simp)⟩
  | error stop st' =>
      obtain ⟨hstop, hst'⟩ := hrun.of_error h hresult
      cases stop with
      | returned v => exact ⟨hst', fun e => iff_of_false (hvalue hstop e) (by simp)⟩
      | failed e => exact ⟨hst', fun e' => by simp⟩
      | tooDeep => exact ⟨hst', fun e => by simp⟩

end ConstScript
