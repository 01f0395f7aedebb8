import ConstScript.Proofs.Eval.Returned
import ConstScript.Proofs.Scope.Footprint
import Mathlib.Data.List.Induction
import Mathlib.Data.List.Nodup

set_option autoImplicit false

/-! # Calls

A call of a function binds its parameters to the arguments in a scope that is made for it, inside the
one in which the function was created. It fails before its body is executed if there are too many or
too few arguments, or else if a parameter is repeated. What the call comes to is then a matter of the
body alone: where the call stands has nothing to do with it. -/

theorem List.lookup_eq_some_iff_mem {α β : Type} [BEq α] [LawfulBEq α] {ps : List (α × β)}
    (h : (ps.map Prod.fst).Nodup) {a : α} {b : β} : ps.lookup a = some b ↔ (a, b) ∈ ps := by
  induction ps with
  | nil => simp
  | cons p ps ih =>
      obtain ⟨a', b'⟩ := p
      rw [List.map_cons, List.nodup_cons] at h
      rw [List.lookup_cons, List.mem_cons, Prod.mk.injEq]
      by_cases ha : a = a'
      · subst ha
        have hnew : (a, b) ∉ ps := fun hb => h.1 (List.mem_map.2 ⟨(a, b), hb, rfl⟩)
        simp [hnew, eq_comm]
      · have hne : (a == a') = false := beq_eq_false_iff_ne.2 ha
        simp only [hne, ih h.2, ha, false_and, false_or]

namespace ConstScript

/-! ## A store with one more scope -/

namespace Store

variable {st : Store} {s : Scope}

/-- The store with one more scope. -/
def withScope (st : Store) (s : Scope) : Store :=
  { st with scopes := st.scopes.push s }

theorem getElem?_withScope (st : Store) (s : Scope) :
    (st.withScope s).scopes[st.scopes.size]? = some s :=
  Array.getElem?_push_size

theorem keeps_withScope (st : Store) (s : Scope) : st.Keeps (st.withScope s) := by
  intro id t ht
  have hlt : id < st.scopes.size := (Array.getElem?_eq_some_iff.1 ht).1
  rw [withScope, Array.getElem?_push_lt hlt, ← ht, Array.getElem?_eq_getElem hlt]

theorem getOwn?_withScope (st : Store) (s : Scope) (name : String) :
    (st.withScope s).getOwn? st.scopes.size name = s.get? name :=
  getOwn?_of_getElem? (st.getElem?_withScope s) name

theorem binds_withScope_iff (st : Store) (s : Scope) (name : String) :
    (st.withScope s).binds st.scopes.size name ↔ name ∈ s.names := by
  rw [binds, getOwn?_withScope, Option.isSome_iff_ne_none, ne_eq, Scope.get?,
    List.lookup_eq_none_iff, Scope.names, List.mem_map]
  simp only [bne_iff_ne, ne_eq, not_forall, not_not, exists_prop, @eq_comm _ name]

/-- Binding a name in the new scope makes it a scope with one more binding. -/
theorem addBinding_withScope (st : Store) (s : Scope) (name : String) (v : Value) :
    (st.withScope s).addBinding st.scopes.size name v
      = st.withScope { s with bindings := (name, v) :: s.bindings } := by
  have hscopes : ((st.withScope s).addBinding st.scopes.size name v).scopes
      = (st.withScope { s with bindings := (name, v) :: s.bindings }).scopes := by
    apply Array.ext_getElem?
    intro id
    rw [getElem?_addBinding]
    simp only [withScope, Array.getElem?_push]
    split
    · next heq => simp [heq]
    · next hne => simp [Ne.symm hne]
  exact congrArg (fun scopes => { st with scopes := scopes }) hscopes

end Store

/-! ## Binding names in it -/

/-- The name is the first one in the list that is the same as an earlier one. -/
def FirstRepeated (names : List String) (name : String) : Prop :=
  ∃ before after, names = before ++ name :: after ∧ before.Nodup ∧ name ∈ before

/-- Unless all names are different, some name is the first repeated one. -/
theorem exists_firstRepeated {names : List String} (h : ¬ names.Nodup) :
    ∃ name, FirstRepeated names name := by
  -- From the end: the last name only counts if all others are different.
  induction names using List.reverseRecOn with
  | nil => exact absurd List.nodup_nil h
  | append_singleton names last ih =>
      by_cases hnodup : names.Nodup
      · have hlast : last ∈ names := by
          by_contra hnew
          refine h (List.nodup_append.2 ⟨hnodup, List.nodup_singleton last, ?_⟩)
          intro name hname other hother heq
          rw [heq, List.mem_singleton.1 hother] at hname
          exact hnew hname
        exact ⟨last, names, [], rfl, hnodup, hlast⟩
      · obtain ⟨name, before, after, rfl, hbefore, hname⟩ := ih hnodup
        exact ⟨name, before, after ++ [last], by simp, hbefore, hname⟩

namespace Eval

variable {st : Store} {outer : Option ScopeId}

theorem defineAll_append (scope : ScopeId) (bindings bindings' : List (String × Value)) :
    defineAll scope (bindings ++ bindings')
      = defineAll scope bindings >>= fun _ => defineAll scope bindings' := by
  induction bindings with
  | nil => simp [defineAll]
  | cons b bindings ih => simp [defineAll, ih]

/-- Names that are all different, and not bound yet, can be bound in the new scope. -/
theorem defineAll_withScope {bindings bound : List (String × Value)}
    (h : ((bindings ++ bound).map Prod.fst).Nodup) :
    defineAll st.scopes.size bindings (st.withScope ⟨bound, outer⟩)
      = .ok () (st.withScope ⟨bindings.reverse ++ bound, outer⟩) := by
  induction bindings generalizing bound with
  | nil => rfl
  | cons b bindings ih =>
      -- The first name goes from those that are to be bound to those that are.
      obtain ⟨name, v⟩ := b
      have hperm : ((name, v) :: bindings ++ bound).Perm (bindings ++ (name, v) :: bound) :=
        List.perm_middle.symm
      have hrest : ((bindings ++ (name, v) :: bound).map Prod.fst).Nodup :=
        (hperm.map Prod.fst).nodup_iff.1 h
      have hnew : ¬ (st.withScope ⟨bound, outer⟩).binds st.scopes.size name := by
        rw [Store.binds_withScope_iff, Scope.names]
        simp only [List.cons_append, List.map_cons, List.nodup_cons, List.map_append,
          List.mem_append, not_or] at h
        exact h.1.2
      refine (bind_of_ok (define_of_not_binds hnew)).trans ?_
      rw [Store.addBinding_withScope, ih hrest]
      simp

/-- A name that is repeated cannot be bound again, and those before it stay bound. -/
theorem defineAll_repeated {before after : List (String × Value)} {name : String} (v : Value)
    (hbefore : (before.map Prod.fst).Nodup) (hname : name ∈ before.map Prod.fst) :
    defineAll st.scopes.size (before ++ (name, v) :: after) (st.withScope ⟨[], outer⟩)
      = .error (.failed (.alreadyDeclared name)) (st.withScope ⟨before.reverse, outer⟩) := by
  have hfirst : defineAll st.scopes.size before (st.withScope ⟨[], outer⟩)
      = .ok () (st.withScope ⟨before.reverse ++ [], outer⟩) :=
    defineAll_withScope (by rwa [List.append_nil])
  rw [List.append_nil] at hfirst
  have hbinds : (st.withScope ⟨before.reverse, outer⟩).binds st.scopes.size name := by
    rw [Store.binds_withScope_iff, Scope.names, List.map_reverse, List.mem_reverse]
    exact hname
  rw [defineAll_append, bind_of_ok hfirst]
  exact bind_of_error (define_of_binds hbinds)

end Eval

/-! ## Entering a function -/

open Eval Relation

namespace Closure

variable {f : Closure} {args : List Value} {st : Store}

theorem enter_of_length_ne (h : args.length ≠ f.params.length) :
    f.enter args st
      = .error (.failed (.wrongArgumentCount args.length f.params.length)) st := by
  have hcheck : checkArgumentCount args.length f.params.length
      = .error (.wrongArgumentCount args.length f.params.length) := if_neg h
  rw [enter, hcheck]
  rfl

/-- With the right number of arguments, the parameters are bound in a new scope. -/
theorem enter_of_length_eq (h : args.length = f.params.length) :
    f.enter args st
      = (defineAll st.scopes.size (f.params.zip args) >>= fun _ => pure st.scopes.size)
          (st.withScope ⟨[], some f.scope⟩) := by
  have hcheck : checkArgumentCount args.length f.params.length = .ok () := if_pos h
  rw [enter, hcheck]
  rfl

theorem enter_of_nodup (h : args.length = f.params.length) (hnodup : f.params.Nodup) :
    f.enter args st
      = .ok st.scopes.size (st.withScope ⟨(f.params.zip args).reverse, some f.scope⟩) := by
  have hnames : ((f.params.zip args ++ []).map Prod.fst).Nodup := by
    rwa [List.append_nil, List.map_fst_zip (Nat.le_of_eq h.symm)]
  rw [enter_of_length_eq h, bind_of_ok (defineAll_withScope hnames), List.append_nil]
  rfl

theorem enter_of_firstRepeated (st : Store) (h : args.length = f.params.length) {name : String}
    (hname : FirstRepeated f.params name) :
    ∃ bound, f.enter args st
      = .error (.failed (.alreadyDeclared name)) (st.withScope ⟨bound, some f.scope⟩) := by
  obtain ⟨before, after, hparams, hbefore, hmem⟩ := hname
  have hnames : (f.params.zip args).map Prod.fst = before ++ name :: after := by
    rw [List.map_fst_zip (Nat.le_of_eq h.symm), hparams]
  obtain ⟨bs, bs', hzip, rfl, hrest⟩ := List.map_eq_append_iff.1 hnames
  obtain ⟨⟨_, v⟩, bs'', rfl, rfl, -⟩ := List.map_eq_cons_iff.1 hrest
  rw [enter_of_length_eq h, hzip, bind_of_error (defineAll_repeated v hbefore hmem)]
  exact ⟨bs.reverse, rfl⟩

/-- What stops a call before its body is executed stops it however deeply calls may be nested. -/
theorem applyTo_of_enter_error [Hashing] {stop : Stop} {st' : Store}
    (h : f.enter args st = .error stop st') (depth : Nat) :
    (Value.function f).applyTo depth args st = .error stop st' := by
  cases depth with
  | zero => exact bind_of_error h
  | succ depth => exact bind_of_error h

/-- Otherwise the call comes to what its body does, up to a `return`. -/
theorem applyTo_of_enter_ok [Hashing] {scope : ScopeId} {inside : Store}
    (h : f.enter args st = .ok scope inside) (depth : Nat) :
    (Value.function f).applyTo (depth + 1) args st
      = catchReturn (Stmt.evalAll (Closure.call depth) scope .null f.body) inside :=
  bind_of_ok h

end Closure

/-! ## Calls in a program -/

variable [Hashing]

/-- The point is that of a call of the function with the arguments, and these have been evaluated when
    the store is `st`. -/
inductive Point.Calls (f : Closure) (args : List Value) (st : Store) : Point → Prop
  | intro {depth : Nat} {scope : ScopeId} {callee : Expr} {es : List Expr} {st₀ st₁ : Store} :
      callee.eval (Closure.call depth) scope st₀ = .ok (.function f) st₁ →
      Expr.evalAll (Closure.call depth) scope es st₁ = .ok args st →
      Calls f args st ⟨depth, scope, .expr (.call callee es), st₀⟩

namespace Point.Calls

variable {f : Closure} {args : List Value} {st inside : Store} {p q : Point} {scope : ScopeId}

/-- What a call in a program comes to is what applying the function comes to. -/
theorem outcome_eq (h : p.Calls f args st) :
    p.outcome = (Value.function f).applyTo p.depth args st := by
  cases h with
  | intro hcallee hargs => exact (bind_of_ok hcallee).trans (bind_of_ok hargs)

/-- The body is executed from what entering the function leads to. -/
theorem enters_iff (h : p.Calls f args st) :
    p.Enters q ↔ ∃ depth scope inside, p.depth = depth + 1 ∧ f.enter args st = .ok scope inside ∧
      q = ⟨depth, scope, .block f.body, inside⟩ := by
  cases h with
  | intro hcallee hargs =>
      constructor
      · intro henters
        cases henters with
        | body g hcallee' hargs' henter =>
            obtain ⟨hf, rfl⟩ := ok_unique hcallee hcallee'
            obtain rfl := Value.function.inj hf
            obtain ⟨rfl, rfl⟩ := ok_unique hargs hargs'
            exact ⟨_, _, _, rfl, henter, rfl⟩
      · rintro ⟨depth, scope, inside, hdepth, henter, rfl⟩
        obtain rfl : _ = depth + 1 := hdepth
        exact .body f hcallee hargs henter

end Point.Calls

/-! ## The scope of a call -/

/-- The store is `st` with one more scope, which is inside the one in which the function was created
    and binds each parameter to its argument, and nothing else. -/
structure Closure.Frame (f : Closure) (args : List Value) (st : Store) (scope : ScopeId)
    (inside : Store) : Prop where
  new : st.scopes[scope]? = none
  kept : st.Keeps inside
  size : inside.scopes.size = st.scopes.size + 1
  outer : ∃ s, inside.scopes[scope]? = some s ∧ s.outer = some f.scope
  binds : ∀ (name : String) (v : Value), inside.getOwn? scope name = some v ↔
    ∃ i : Nat, f.params[i]? = some name ∧ args[i]? = some v
  objects : inside.objects = st.objects
  output : inside.output = st.output

omit [Hashing] in
theorem Closure.frame_withScope {f : Closure} {args : List Value}
    (h : args.length = f.params.length) (hnodup : f.params.Nodup) (st : Store) :
    f.Frame args st st.scopes.size
      (st.withScope ⟨(f.params.zip args).reverse, some f.scope⟩) where
  new := Array.getElem?_eq_none (Nat.le_refl _)
  kept := st.keeps_withScope _
  size := Array.size_push _
  outer := ⟨_, st.getElem?_withScope _, rfl⟩
  binds name v := by
    have hnames : ((f.params.zip args).reverse.map Prod.fst).Nodup := by
      rw [List.map_reverse, List.nodup_reverse, List.map_fst_zip (Nat.le_of_eq h.symm)]
      exact hnodup
    rw [Store.getOwn?_withScope, Scope.get?, List.lookup_eq_some_iff_mem hnames, List.mem_reverse,
      List.mem_iff_getElem?]
    simp only [List.getElem?_zip_eq_some]
  objects := rfl
  output := rfl

/-! ## The value of a body -/

/-- The value that executing statements comes to: that of the first `return` that is reached, else
    that of the last statement, else `null`. -/
inductive Stmt.Yields (call : Closure → List Value → Eval Value) (scope : ScopeId) (st : Store)
    (v : Value) (st' : Store) : List Stmt → Prop
  | returned {ss : List Stmt} : Moment.Returns call scope ⟨.block ss, st⟩ v st' →
      Yields call scope st v st' ss
  | last (before : List Stmt) {s : Stmt} {w : Value} {mid : Store} :
      Stmt.evalAll call scope .null before st = .ok w mid → s.eval call scope mid = .ok v st' →
      Yields call scope st v st' (before ++ [s])
  | none : v = .null → st' = st → Yields call scope st v st' []

theorem Stmt.yields_iff {call : Closure → List Value → Eval Value}
    (hcall : ∀ (f : Closure) (args : List Value), NeverReturns (call f args)) {scope : ScopeId}
    {ss : List Stmt} {st st' : Store} {v : Value} :
    Stmt.Yields call scope st v st' ss ↔
      catchReturn (Stmt.evalAll call scope .null ss) st = .ok v st' := by
  have hblock : Moment.Returns call scope ⟨.block ss, st⟩ v st' ↔
      Stmt.evalAll call scope .null ss st = .error (.returned v) st' := Moment.returns_iff hcall
  constructor
  · intro h
    cases h with
    | returned h => rw [catchReturn, hblock.1 h]
    | @last before s w mid hbefore hs =>
        have hall : Stmt.evalAll call scope .null (before ++ [s]) st = .ok v st' := by
          rw [Stmt.evalAll_append, bind_of_ok hbefore]
          exact bind_of_ok hs
        rw [catchReturn, hall]
    | none hv hst =>
        rw [hv, hst]
        rfl
  · intro h
    rw [catchReturn] at h
    split at h
    · next hreturned =>
      cases h
      exact .returned (hblock.2 hreturned)
    · -- No `return` was reached, so all statements were executed up to the last one.
      cases ss using List.reverseRecOn with
      | nil =>
          cases h
          exact .none rfl rfl
      | append_singleton before s _ =>
          rw [Stmt.evalAll_append] at h
          obtain ⟨w, mid, hbefore, hlast⟩ := exists_of_bind_eq_ok h
          obtain ⟨u, _, hs, hend⟩ := exists_of_bind_eq_ok hlast
          cases hend
          exact .last before hbefore hs

omit [Hashing] in
/-- What stops the statements other than a `return` goes through. -/
theorem Eval.catchReturn_eq_error_iff {x : Eval Value} {stop : Stop} {st st' : Store}
    (hstop : ∀ v, stop ≠ .returned v) :
    catchReturn x st = .error stop st' ↔ x st = .error stop st' := by
  rw [catchReturn]
  split
  · next v mid hx =>
    have hne : Stop.returned v ≠ stop := (hstop v).symm
    simp [hx, hne]
  · exact Iff.rfl

/-! ## Every call -/

/-- Calls of the function with the arguments fail with the error, from the store and at every depth.
    They do so before the body is executed, with no scope changed, no identity given out and nothing
    printed. -/
structure Closure.Refuses (f : Closure) (args : List Value) (st : Store) (e : RuntimeError) :
    Prop where
  fails : ∃ st' : Store, st.Keeps st' ∧ st'.objects = st.objects ∧ st'.output = st.output ∧
    ∀ depth, (Value.function f).applyTo depth args st = .error (.failed e) st'
  unentered : ∀ p q : Point, p.Calls f args st → ¬ p.Enters q

/-- Calls of the function with the arguments execute its body in the scope, and come to what the body
    yields or is stopped by. -/
structure Closure.Executes (f : Closure) (args : List Value) (st : Store) (scope : ScopeId)
    (inside : Store) : Prop where
  enters : ∀ (p q : Point) (depth : Nat), p.Calls f args st → p.depth = depth + 1 →
    (p.Enters q ↔ q = ⟨depth, scope, .block f.body, inside⟩)
  value : ∀ (depth : Nat) (v : Value) (st' : Store),
    (Value.function f).applyTo (depth + 1) args st = .ok v st' ↔
      Stmt.Yields (Closure.call depth) scope inside v st' f.body
  fails : ∀ (depth : Nat) (e : RuntimeError) (st' : Store),
    (Value.function f).applyTo (depth + 1) args st = .error (.failed e) st' ↔
      Stmt.evalAll (Closure.call depth) scope .null f.body inside = .error (.failed e) st'
  tooDeep : ∀ (depth : Nat) (st' : Store),
    (Value.function f).applyTo (depth + 1) args st = .error .tooDeep st' ↔
      Stmt.evalAll (Closure.call depth) scope .null f.body inside = .error .tooDeep st'

namespace Closure

variable {f : Closure} {args : List Value} {st : Store}

theorem refuses_of_enter_error {e : RuntimeError} {st' : Store}
    (henter : f.enter args st = .error (.failed e) st') (hkeeps : st.Keeps st')
    (hobjects : st'.objects = st.objects) (houtput : st'.output = st.output) :
    f.Refuses args st e where
  fails := ⟨st', hkeeps, hobjects, houtput, applyTo_of_enter_error henter⟩
  unentered p q hcalls henters := by
    obtain ⟨_, _, _, -, hok, -⟩ := hcalls.enters_iff.1 henters
    cases henter.symm.trans hok

theorem executes_of_enter_ok {scope : ScopeId} {inside : Store}
    (henter : f.enter args st = .ok scope inside) : f.Executes args st scope inside where
  enters p q depth hcalls hdepth := by
    rw [hcalls.enters_iff, hdepth]
    constructor
    · rintro ⟨depth', scope', inside', hsucc, henter', rfl⟩
      obtain ⟨rfl, rfl⟩ := ok_unique henter henter'
      obtain rfl := Nat.succ.inj hsucc
      rfl
    · rintro rfl
      exact ⟨depth, scope, inside, rfl, henter, rfl⟩
  value depth v st' := by
    rw [Stmt.yields_iff (Closure.neverReturns_call depth), applyTo_of_enter_ok henter]
  fails depth e st' := by
    have hne : ∀ v, Stop.failed e ≠ .returned v := by simp
    rw [applyTo_of_enter_ok henter, catchReturn_eq_error_iff hne]
  tooDeep depth st' := by
    have hne : ∀ v, Stop.tooDeep ≠ .returned v := by simp
    rw [applyTo_of_enter_ok henter, catchReturn_eq_error_iff hne]

/-- **A call binds its parameters, lexically.** With another number of arguments than of parameters it
    fails with both numbers, and else with the first repeated parameter, if there is one; in both
    cases the body is not executed. Otherwise it executes the body in a new scope, which binds each
    parameter to its argument, and nothing else, inside the scope in which the function was created.
    The value is that of the first `return` which is reached, else that of the last statement, else
    `null`.

    This is so wherever the call stands. And no application of any value ends in a `return`. -/
theorem calls_lexically (f : Closure) (args : List Value) (st : Store) :
    (args.length ≠ f.params.length →
      f.Refuses args st (.wrongArgumentCount args.length f.params.length)) ∧
    (args.length = f.params.length → ¬ f.params.Nodup →
      ∃ name, FirstRepeated f.params name ∧ f.Refuses args st (.alreadyDeclared name)) ∧
    (args.length = f.params.length → f.params.Nodup →
      ∃ scope inside, f.Frame args st scope inside ∧ f.Executes args st scope inside) ∧
    (∀ p : Point, p.Calls f args st → p.outcome = (Value.function f).applyTo p.depth args st) ∧
    ∀ (depth : Nat) (callee : Value) (args' : List Value),
      NeverReturns (callee.applyTo depth args') := by
  refine ⟨fun hlength => ?_, fun hlength hrepeated => ?_, fun hlength hnodup => ?_,
    fun p hcalls => hcalls.outcome_eq, Value.neverReturns_applyTo⟩
  · exact refuses_of_enter_error (enter_of_length_ne hlength) (.refl st) rfl rfl
  · obtain ⟨name, hname⟩ := exists_firstRepeated hrepeated
    obtain ⟨bound, henter⟩ := enter_of_firstRepeated st hlength hname
    exact ⟨name, hname, refuses_of_enter_error henter (st.keeps_withScope _) rfl rfl⟩
  · exact ⟨_, _, frame_withScope hlength hnodup st,
      executes_of_enter_ok (enter_of_nodup hlength hnodup)⟩

omit [Hashing] in
/-- With one argument, `fn(x, x) { 1 }` is refused for its number of arguments, and with two for the
    name `x`. `fn(x) { [0, if (true) { return 5 }]; 2 }` called with `7` binds `x` to it and yields
    `5`. -/
theorem calls_lexically_returns :
    let _ : Hashing := .inOrder fun _ => 0
    let twice : Closure := ⟨0, ["x", "x"], [.expr (.int 1)], 0⟩
    let early : Closure := ⟨0, ["x"],
      [.expr (.array [.int 0, .cond (.bool true) [.ret (.int 5)] none]), .expr (.int 2)], 0⟩
    let st : Store := ⟨#[⟨[("x", .null)], none⟩], 1, ""⟩
    let st' : Store := ⟨#[⟨[("x", .null)], none⟩, ⟨[("x", .int 7)], some 0⟩], 1, ""⟩
    twice.Refuses [.int 7] st (.wrongArgumentCount 1 2) ∧
    (∃ name, FirstRepeated ["x", "x"] name ∧
      twice.Refuses [.int 7, .int 8] st (.alreadyDeclared name)) ∧
    ∃ scope inside, early.Frame [.int 7] st scope inside ∧
      Stmt.Yields (Closure.call 0) scope inside (.int 5) st' early.body := by
  intro _ twice early st st'
  refine ⟨(calls_lexically twice [.int 7] st).1 (by decide),
    (calls_lexically twice [.int 7, .int 8] st).2.1 rfl (by decide), ?_⟩
  obtain ⟨scope, inside, hframe, hexecutes⟩ :=
    (calls_lexically early [.int 7] st).2.2.1 rfl (by decide)
  exact ⟨scope, inside, hframe, (hexecutes.value 0 (.int 5) st').1 rfl⟩

end Closure

end ConstScript
