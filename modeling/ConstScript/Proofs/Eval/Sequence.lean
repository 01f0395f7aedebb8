import ConstScript.Eval.Program

set_option autoImplicit false

/-! # Evaluating one part after another

Evaluation goes from left to right, so what a list of expressions, pairs or statements comes to is
what its first part comes to and then the rest; and what was stopped does not go on. -/

namespace ConstScript

/-! ## Steps -/

namespace Eval

variable {α β : Type} {x : Eval α} {f : α → Eval β} {st st' : Store}

theorem bind_of_ok {a : α} (h : x st = .ok a st') : (x >>= f) st = f a st' := by
  show EStateM.bind x f st = _
  unfold EStateM.bind
  rw [h]

theorem bind_of_error {stop : Stop} (h : x st = .error stop st') :
    (x >>= f) st = .error stop st' := by
  show EStateM.bind x f st = _
  unfold EStateM.bind
  rw [h]

/-- From one store, an evaluation comes to one value. -/
theorem ok_unique {a a' : α} {st'' : Store} (h : x st = .ok a st') (h' : x st = .ok a' st'') :
    a = a' ∧ st' = st'' :=
  EStateM.Result.ok.inj (h.symm.trans h')

/-- What ended with a value did so in both steps. -/
theorem exists_of_bind_eq_ok {b : β} (h : (x >>= f) st = .ok b st') :
    ∃ a mid, x st = .ok a mid ∧ f a mid = .ok b st' := by
  cases hrun : x st with
  | ok a mid => exact ⟨a, mid, rfl, (bind_of_ok hrun).symm.trans h⟩
  | error stop mid => cases (bind_of_error hrun).symm.trans h

theorem eq_of_ofExcept_eq_ok {r : Except RuntimeError α} {a : α} (h : ofExcept r st = .ok a st') :
    r = .ok a ∧ st' = st := by
  cases r with
  | ok b =>
      cases h
      exact ⟨rfl, rfl⟩
  | error e => cases h

theorem eq_of_asKey_eq_ok {v : Value} {key : Key} (h : asKey v st = .ok key st') :
    v.toKey? = some key ∧ st' = st := by
  unfold asKey at h
  cases hkey : v.toKey? with
  | some k =>
      rw [hkey] at h
      cases h
      exact ⟨rfl, rfl⟩
  | none =>
      rw [hkey] at h
      cases h

/-- A value that can be a key is used as one. -/
theorem asKey_of_toKey? {v : Value} {key : Key} (h : v.toKey? = some key) (st : Store) :
    asKey v st = .ok key st := by
  rw [asKey, h]
  rfl

theorem asKey_of_isSome {v : Value} (h : v.toKey?.isSome) (st : Store) :
    asKey v st = .ok (v.toKey?.get h) st :=
  asKey_of_toKey? (Option.some_get h).symm st

theorem asKey_of_toKey?_eq_none {v : Value} (h : v.toKey? = none) (st : Store) :
    asKey v st = .error (.failed (.unusableKey v.kind)) st := by
  rw [asKey, h]
  rfl

/-- What a name is resolved to depends on what is found when it is looked up. -/
theorem resolve_run (scope : ScopeId) (name : String) (st : Store) :
    resolve scope name st = match st.lookup scope name with
      | some v => .ok v st
      | none => match Builtin.ofName? name with
        | some b => .ok (.builtin b) st
        | none => .error (.failed (.notFound name)) st := by
  show ((match st.lookup scope name with
    | some v => pure v
    | none => match Builtin.ofName? name with
      | some b => pure (.builtin b)
      | none => fail (.notFound name) : Eval Value)) st = _
  cases st.lookup scope name with
  | some v => rfl
  | none => cases Builtin.ofName? name <;> rfl

section

variable {scope : ScopeId} {name : String} {v : Value}

/-- A name that the scope binds already cannot be bound in it again. -/
theorem define_of_binds (h : st.binds scope name) :
    define scope name v st = .error (.failed (.alreadyDeclared name)) st := by
  have hrun : define scope name v st = _ := define_run scope name v st
  rw [hrun, Store.define, if_pos h]

theorem define_of_not_binds (h : ¬ st.binds scope name) :
    define scope name v st = .ok () (st.addBinding scope name v) := by
  have hrun : define scope name v st = _ := define_run scope name v st
  rw [hrun, Store.define, if_neg h]

end

end Eval

/-! ## Lists -/

section

variable [Hashing] (call : Closure → List Value → Eval Value) (scope : ScopeId)

theorem Expr.eval_cond (c : Expr) (t : List Stmt) (e : Option (List Stmt)) :
    (Expr.cond c t e).eval call scope = c.eval call scope >>= fun v =>
      if v.isTruthy then Stmt.evalAll call scope .null t
      else match e with
        | some block => Stmt.evalAll call scope .null block
        | none => pure .null := by
  cases e <;> rfl

theorem Expr.evalAll_append (es es' : List Expr) :
    Expr.evalAll call scope (es ++ es') =
      Expr.evalAll call scope es >>= fun vs =>
        Expr.evalAll call scope es' >>= fun vs' => pure (vs ++ vs') := by
  induction es with
  | nil => simp [Expr.evalAll]
  | cons e es ih => simp [Expr.evalAll, ih]

theorem Expr.evalPairs_append (puts : List (Entry Value)) (ps ps' : List (Expr × Expr)) :
    Expr.evalPairs call scope puts (ps ++ ps') =
      Expr.evalPairs call scope puts ps >>= fun all => Expr.evalPairs call scope all ps' := by
  induction ps generalizing puts with
  | nil => simp [Expr.evalPairs]
  | cons p ps ih => simp [Expr.evalPairs, ih]

theorem Stmt.evalAll_append (last : Value) (ss ss' : List Stmt) :
    Stmt.evalAll call scope last (ss ++ ss') =
      Stmt.evalAll call scope last ss >>= fun v => Stmt.evalAll call scope v ss' := by
  induction ss generalizing last with
  | nil => simp [Stmt.evalAll]
  | cons s ss ih => simp [Stmt.evalAll, ih]

/-- The value before the first statement is lost. -/
theorem Stmt.evalAll_last {ss : List Stmt} (h : ss ≠ []) (last last' : Value) :
    Stmt.evalAll call scope last ss = Stmt.evalAll call scope last' ss := by
  cases ss with
  | nil => exact absurd rfl h
  | cons s ss => rfl

end

end ConstScript
