import ConstScript.Proofs.Eval.ErrorFree
import ConstScript.Session
import ConstScript.Syntax.Equality

set_option autoImplicit false

/-! # What the errors of a session mean

A session starts in a scope that binds nothing, so that no run of it ever has a runtime error as a
value to work with. A run has an error as its result if it has failed, and for no other reason. -/

namespace ConstScript

variable [Hashing]

open Relation

namespace Session

/-- The stores that runs in a new scope lead to, one after another. -/
inductive Reached : Store → Prop
  | start : Reached start.2
  | run {st : Store} (depth : Nat) (source : String) : Reached st →
      Reached (run depth start.1 source st).2

/-- A run of a text leaves an error-free store behind, and its result is an error only if it was
    executed and failed. -/
theorem errorFree_run (depth : Nat) (scope : ScopeId) (source : String) {st : Store}
    (h : st.ErrorFree) :
    (run depth scope source st).2.ErrorFree ∧
      ∀ e, (run depth scope source st).1 = .finished (.error e) ↔
        (Program.parse source).errors = [] ∧ ∃ st', Stmt.evalAll (Closure.call depth) scope .null
          (Program.parse source).program.statements st = .error (.failed e) st' := by
  obtain ⟨hstore, hresult⟩ := (Program.parse source).program.errorFree_eval depth scope h
  simp only [← hresult]
  cases herrors : (Program.parse source).errors with
  | nil =>
      simp only [run, herrors]
      rcases heval : (Program.parse source).program.eval depth scope st with ⟨_ | v, st'⟩
      all_goals
        rw [heval] at hstore
        exact ⟨hstore, fun e => by simp⟩
  | cons error errors =>
      simp only [run, herrors]
      exact ⟨h, fun e => by simp⟩

theorem Reached.errorFree {st : Store} (h : Reached st) : st.ErrorFree := by
  induction h with
  | start => exact Store.errorFree_empty.openScope none
  | run depth source _ ih => exact (errorFree_run depth Session.start.1 source ih).1

/-- **Runtime errors do not become values.** Let a program be executed in any scope of an error-free
    store. All values that are handled at any point that the execution comes to are error-free, and
    so is the store that it leaves behind; and the value of the program is an error iff its
    execution has failed with it. So in a session no scope ever binds a value with an error in it,
    and a run has an error as its result iff it was executed and has failed with it. -/
theorem run_errorFree :
    (∀ (depth : Nat) (scope : ScopeId) (p : Program) (st : Store), st.ErrorFree →
      (∀ (q : Point) (v : Value),
        ReflTransGen Point.Step ⟨depth, scope, .block p.statements, st⟩ q → q.Handles v →
        v.ErrorFree) ∧
      (p.eval depth scope st).2.ErrorFree ∧
      ∀ e, (p.eval depth scope st).1 = some (.error e) ↔ ∃ st',
        Stmt.evalAll (Closure.call depth) scope .null p.statements st = .error (.failed e) st') ∧
    ∀ st, Reached st → st.ErrorFree ∧ ∀ (depth : Nat) (source : String) (e : RuntimeError),
      (run depth start.1 source st).1 = .finished (.error e) ↔
        (Program.parse source).errors = [] ∧ ∃ st', Stmt.evalAll (Closure.call depth) start.1 .null
          (Program.parse source).program.statements st = .error (.failed e) st' := by
  refine ⟨fun depth scope p st h => ⟨fun q v hreaches hv => ?_, p.errorFree_eval depth scope h⟩,
    fun st h => ⟨h.errorFree, fun depth source => ?_⟩⟩
  · exact hv.errorFree (Point.errorFree_of_reaches hreaches h)
  · exact (errorFree_run depth start.1 source h.errorFree).2

omit [Hashing] in
/-- An array is made and then negated. -/
theorem run_errorFree_negatedArray :
    let _ : Hashing := .inOrder fun _ => 0
    let p : Program := ⟨[.expr (.unary .negate (.array [.bool true]))]⟩
    let q : Point := ⟨0, start.1, .expr (.array [.bool true]), start.2⟩
    start.2.ErrorFree ∧ ReflTransGen Point.Step ⟨0, start.1, .block p.statements, start.2⟩ q ∧
    q.Handles (.array 0 [.bool true]) ∧ (Value.array 0 [.bool true]).ErrorFree ∧
    (p.eval 0 start.1 start.2).1 = some (.error (.unknownUnary .negate .array)) ∧
    (∃ st', Stmt.evalAll (Closure.call 0) start.1 .null p.statements start.2
      = .error (.failed (.unknownUnary .negate .array)) st') ∧
    ∃ st, Reached st ∧ (run 0 start.1 "-[true]" st).1
      = .finished (.error (.unknownUnary .negate .array)) := by
  intro _ p q
  have hst : start.2.ErrorFree := Store.errorFree_empty.openScope none
  have hreaches : ReflTransGen Point.Step ⟨0, start.1, .block p.statements, start.2⟩ q :=
    .head (.inside (.statement [] rfl)) (.head (.inside .expression)
      (.head (.inside .operand) .refl))
  have hhandles : q.Handles (.array 0 [.bool true]) := .value rfl
  have hfails : ∃ st', Stmt.evalAll (Closure.call 0) start.1 .null p.statements start.2
      = .error (.failed (.unknownUnary .negate .array)) st' := ⟨_, rfl⟩
  obtain ⟨hhandled, -, herror⟩ := run_errorFree.1 0 start.1 p start.2 hst
  refine ⟨hst, hreaches, hhandles, hhandled q _ hreaches hhandles, (herror _).2 hfails, hfails,
    start.2, .start, ?_⟩
  have herrors : (Program.parse "-[true]").errors = [] := by decide +kernel
  have hstatements : (Program.parse "-[true]").program.statements = p.statements := by
    decide +kernel
  refine ((run_errorFree.2 start.2 .start).2 0 "-[true]" _).2 ⟨herrors, ?_⟩
  rw [hstatements]
  exact hfails

end Session

end ConstScript
