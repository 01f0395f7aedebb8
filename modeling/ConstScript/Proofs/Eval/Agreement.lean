import ConstScript.Proofs.Eval.Lockstep

set_option autoImplicit false

/-! # Programs that agree

Two runs *agree* if nothing but the numbers of new objects and scopes tells them apart: they print
the same text, they come to the same runtime error or to values that match, or both exceed the
depth, and what they leave behind matches as well. Evaluations that run in lockstep are runs that
agree, wherever the stores that they start in came from. -/

namespace ConstScript

/-- The program does not come to an end, however deeply calls may be nested. -/
def Program.Diverges [Hashing] (scope : ScopeId) (p : Program) (st : Store) : Prop :=
  ∀ depth, (p.eval depth scope st).1 = none

/-- Two runs that started in the stores `st` and `st'` agree under a matching. -/
structure Agree (m : Matching .full) (st st' : Store) (run run' : Option Value × Store) :
    Prop where
  values : Option.Rel (Value.Matches m) run.1 run'.1
  stores : run.2.Matches m run'.2
  printed : ∃ text, run.2.output = st.output ++ text ∧ run'.2.output = st'.output ++ text

section

variable {m : Matching .full} {st st' : Store} {run run' : Option Value × Store}

/-- Values of runs that agree are shown in the same way. -/
theorem Agree.text_eq (h : Agree m st st' run run') :
    run.1.map Value.text = run'.1.map Value.text := by
  obtain ⟨x, after⟩ := run
  obtain ⟨y, after'⟩ := run'
  have hvalues : Option.Rel (Value.Matches m) x y := h.values
  cases hvalues with
  | some hv => exact congrArg some hv.text_eq
  | none => rfl

/-- Of two runs that agree, one exceeds the depth iff the other one does. -/
theorem Agree.eq_none_iff (h : Agree m st st' run run') : run.1 = none ↔ run'.1 = none :=
  h.values.eq_none_iff

end

/-- What a program has come to, given how its statements have ended. -/
def Program.outcome : EStateM.Result Stop Store Value → Option Value × Store
  | .ok v st => (some v, st)
  | .error (.returned v) st => (some v, st)
  | .error (.failed e) st => (some (.error e), st)
  | .error .tooDeep st => (none, st)

theorem Program.eval_eq_outcome [Hashing] (depth : Nat) (scope : ScopeId) (p : Program)
    (st : Store) :
    p.eval depth scope st
      = outcome (Stmt.evalAll (Closure.call depth) scope .null p.statements st) := by
  unfold Program.eval
  cases Stmt.evalAll (Closure.call depth) scope .null p.statements st with
  | ok v st' => rfl
  | error stop st' => cases stop <;> rfl

/-- Evaluations that are alike come to the same as programs. -/
theorem Eval.Alike.outcome {voc : Vocabulary} {m : Matching voc} {st st' : Store}
    {x y : EStateM.Result Stop Store Value} (h : Alike Value.Matches m st st' x y)
    (herrors : voc.errors) :
    ∃ m', Store.Advance m m' st st' (Program.outcome x).2 (Program.outcome y).2 ∧
      Option.Rel (Value.Matches m') (Program.outcome x).1 (Program.outcome y).1 := by
  cases h with
  | ok hadv hv => exact ⟨_, hadv, .some hv⟩
  | error hadv hstop =>
      cases hstop with
      | failed e => exact ⟨_, hadv, .some (.error e herrors)⟩
      | returned hv => exact ⟨_, hadv, .some hv⟩
      | tooDeep => exact ⟨_, hadv, .none⟩

/-- Evaluations that are alike agree as programs. -/
theorem Eval.Alike.agree {m : Matching .full} {st st' : Store}
    {x y : EStateM.Result Stop Store Value} (h : Alike Value.Matches m st st' x y) :
    ∃ m', Store.Advance m m' st st' (Program.outcome x).2 (Program.outcome y).2 ∧
      Agree m' st st' (Program.outcome x) (Program.outcome y) := by
  obtain ⟨m', hadv, hvalues⟩ := h.outcome trivial
  exact ⟨m', hadv, hvalues, hadv.stores, hadv.printed⟩

variable [Hashing]

/-- A program agrees with itself in corresponding scopes of stores that match. -/
theorem Program.agree (depth : Nat) (p : Program) {m : Matching .full} {st st' : Store}
    {i j : ScopeId} (h : st.Matches m st') (hij : m.scopes i j) :
    ∃ m', Store.Advance m m' st st' (p.eval depth i st).2 (p.eval depth j st').2 ∧
      Agree m' st st' (p.eval depth i st) (p.eval depth j st') := by
  rw [eval_eq_outcome, eval_eq_outcome]
  exact (Stmt.lockstep_evalAll (Closure.lockstep_call depth) p.statements (Stmt.allUse_full _) hij
    .null st st' h).agree

end ConstScript
