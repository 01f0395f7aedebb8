import ConstScript.Proofs.Eval.Agreement

set_option autoImplicit false

/-! # Programs as functions

Instead of running a program one can put it into a function and call that. The call opens a scope
of its own inside the one that the program would have had, and it is the call that a `return` ends,
not the program. Neither can be seen: the scope around binds nothing and is passed over, and at the
end of the call there is nothing left to do. -/

namespace ConstScript

/-- The program that calls a function with the statements as its body: `fn() { p }()`. -/
def Program.called (p : Program) : Program :=
  ⟨[.expr (.call (.fn [] p.statements) [])]⟩

/-- A `return` ends a program as it ends a call. -/
theorem Program.outcome_catchReturn (x : Eval Value) (st : Store) :
    outcome (Eval.catchReturn x st) = outcome (x st) := by
  unfold Eval.catchReturn
  cases x st with
  | ok v after => rfl
  | error stop after => cases stop <;> rfl

variable [Hashing]

/-- The function is called in a new scope, after it has been created. -/
theorem Program.eval_called (depth : Nat) (scope : ScopeId) (p : Program) (st : Store) :
    p.called.eval (depth + 1) scope st
      = p.eval depth st.scopes.size (st.freshObject.2.openScope (some scope)).2 := by
  have hfunction : (Expr.fn [] p.statements).eval (Closure.call (depth + 1)) scope st
      = .ok (.function ⟨st.objects, [], p.statements, scope⟩) st.freshObject.2 := rfl
  have hcall : (Expr.call (.fn [] p.statements) []).eval (Closure.call (depth + 1)) scope st
      = Eval.catchReturn (Stmt.evalAll (Closure.call depth) st.scopes.size .null p.statements)
          (st.freshObject.2.openScope (some scope)).2 := by
    rw [Expr.eval, Eval.bind_of_ok hfunction]
    rfl
  rw [eval_eq_outcome, eval_eq_outcome]
  calc outcome (Stmt.evalAll (Closure.call (depth + 1)) scope .null p.called.statements st)
      = outcome ((Expr.call (.fn [] p.statements) []).eval (Closure.call (depth + 1)) scope st) :=
        congrArg (fun x : Eval Value => outcome (x st)) (bind_pure _)
    _ = outcome (Eval.catchReturn
          (Stmt.evalAll (Closure.call depth) st.scopes.size .null p.statements)
          (st.freshObject.2.openScope (some scope)).2) := congrArg outcome hcall
    _ = _ := outcome_catchReturn _ _

/-- Without a depth for the call there is no value. -/
theorem Program.eval_called_zero (scope : ScopeId) (p : Program) (st : Store) :
    (p.called.eval 0 scope st).1 = none :=
  rfl

/-- The matching of two scopes and of nothing else. -/
def Matching.ofScopes (i j : ScopeId) : Matching .full where
  objects _ _ := False
  scopes x y := x = i ∧ y = j
  biUnique_objects := ⟨fun _ _ _ h => h.elim, fun _ _ _ h => h.elim⟩
  biUnique_scopes :=
    ⟨fun _ _ _ h h' => h.1.trans h'.1.symm, fun _ _ _ h h' => h.2.trans h'.2.symm⟩

omit [Hashing] in
/-- The new scope of a program matches that of the call of it, which lies in a scope that is passed
    over. -/
theorem Store.matches_called (st st' : Store) :
    (st.openScope none).2.Matches
      (.ofScopes (st.openScope none).1 (st'.openScope none).2.scopes.size)
      ((st'.openScope none).2.freshObject.2.openScope (some (st'.openScope none).1)).2 := by
  let around : Store := (st'.openScope none).2.freshObject.2
  have hlt : st'.scopes.size < around.scopes.size := by
    simp [around, openScope, Store.freshObject]
  have haround : around.scopes[st'.scopes.size]? = some ⟨[], none⟩ :=
    getElem?_openScope_self st' none
  have hpass : (around.openScope (some st'.scopes.size)).2.PassesOver
      (.ofScopes st.scopes.size around.scopes.size) st'.scopes.size ⟨[], none⟩ := {
    getElem? := (around.openScope_spec _).1 _ _ haround
    unbound := fun _ _ => rfl
    unmatched := fun _ h => Nat.ne_of_lt hlt h.2
    outer_lt := by simp }
  have hinside : ∀ o ∈ some st'.scopes.size, o < around.scopes.size := by
    simpa using hlt
  refine ⟨fun h => h.elim, ?_⟩
  rintro i j ⟨rfl, rfl⟩
  exact ⟨⟨[], none⟩, ⟨[], some st'.scopes.size⟩, getElem?_openScope_self st none,
    getElem?_openScope_self around _, ⟨fun _ _ => .none, .pass hpass (.rel .none)⟩, by simp,
    hinside⟩

/-- **A program and the call of it agree.** Whatever the statements are, and whatever there was
    before: in new environments, running them and running the call of a function with them as its
    body, one call deeper, both exceed the depth, or print the same text and end with the same
    runtime error or with values that are the same but for the identities of objects which the runs
    have created. So the one comes to an end iff the other does. -/
theorem Program.eval_called_agree (p : Program) (st st' : Store) :
    (p.Diverges (st.openScope none).1 (st.openScope none).2 ↔
      p.called.Diverges (st'.openScope none).1 (st'.openScope none).2) ∧
    ∀ depth, ∃ m, (∀ a b, m.objects a b → st.objects ≤ a ∧ st'.objects ≤ b) ∧
      Agree m st st' (p.eval depth (st.openScope none).1 (st.openScope none).2)
        (p.called.eval (depth + 1) (st'.openScope none).1 (st'.openScope none).2) := by
  have hagree : ∀ depth, ∃ m, (∀ a b, m.objects a b → st.objects ≤ a ∧ st'.objects ≤ b) ∧
      Agree m st st' (p.eval depth (st.openScope none).1 (st.openScope none).2)
        (p.called.eval (depth + 1) (st'.openScope none).1 (st'.openScope none).2) := by
    intro depth
    obtain ⟨m, hadv, h⟩ := p.agree depth (Store.matches_called st st') ⟨rfl, rfl⟩
    rw [eval_called]
    refine ⟨m, fun a b hab => ?_, ?_⟩
    · rcases hadv.fresh a b hab with hold | ⟨ha, hb⟩
      · exact hold.elim
      · exact ⟨ha, Nat.le_of_succ_le hb⟩
    · exact ⟨h.values, h.stores, h.printed⟩
  refine ⟨?_, hagree⟩
  constructor
  · intro hp depth
    cases depth with
    | zero => exact eval_called_zero _ _ _
    | succ depth =>
        obtain ⟨m, -, h⟩ := hagree depth
        exact h.eq_none_iff.1 (hp depth)
  · intro hcalled depth
    obtain ⟨m, -, h⟩ := hagree depth
    exact h.eq_none_iff.2 (hcalled (depth + 1))

end ConstScript
