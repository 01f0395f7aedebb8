import ConstScript.Proofs.Eval.Sequence
import ConstScript.Proofs.Eval.Stable
import ConstScript.Proofs.Scope.Chain

set_option autoImplicit false

/-! # What was printed is out of reach

No evaluation can tell what was printed before it. So it does the same, and prints the same, after
anything that was printed. -/

namespace ConstScript

/-- The store with a text in front of what was printed. -/
def Store.withEarlier (st : Store) (text : String) : Store :=
  { st with output := text ++ st.output }

namespace Store

variable (st : Store) (text : String)

theorem chain_withEarlier (id : ScopeId) : (st.withEarlier text).chain id = st.chain id := by
  have hscopes : (st.withEarlier text).scopes = st.scopes := rfl
  exact chain_congr hscopes id

theorem lookup_withEarlier (id : ScopeId) (name : String) :
    (st.withEarlier text).lookup id name = st.lookup id name := by
  rw [lookup, chain_withEarlier, lookup]

end Store

namespace Eval

variable {α β : Type}

/-- The same outcome, in a store with a text in front of what was printed. -/
def withEarlier (text : String) : EStateM.Result Stop Store α → EStateM.Result Stop Store α
  | .ok a st => .ok a (st.withEarlier text)
  | .error stop st => .error stop (st.withEarlier text)

/-- The evaluation does the same after anything that was printed. -/
def IgnoresOutput (x : Eval α) : Prop :=
  ∀ (text : String) (st : Store), x (st.withEarlier text) = withEarlier text (x st)

theorem IgnoresOutput.bind {x : Eval α} {f : α → Eval β} (hx : IgnoresOutput x)
    (hf : ∀ a, IgnoresOutput (f a)) : IgnoresOutput (x >>= f) := by
  intro text st
  have hfirst := hx text st
  cases hrun : x st with
  | ok a mid =>
      rw [hrun] at hfirst
      rw [bind_of_ok hfirst, bind_of_ok hrun]
      exact hf a text mid
  | error stop mid =>
      rw [hrun] at hfirst
      rw [bind_of_error hfirst, bind_of_error hrun]
      rfl

theorem IgnoresOutput.catchReturn {x : Eval Value} (h : IgnoresOutput x) :
    IgnoresOutput (catchReturn x) := by
  intro text st
  unfold Eval.catchReturn
  rw [h text st]
  cases x st with
  | ok v st' => rfl
  | error stop st' => cases stop <;> rfl

/-- What is done with the store depends on something else in it. -/
theorem IgnoresOutput.get_bind {f : Store → Eval α}
    (hsame : ∀ (text : String) (st : Store), f (st.withEarlier text) = f st)
    (h : ∀ st, IgnoresOutput (f st)) : IgnoresOutput (get >>= f) :=
  fun text st => (congrFun (hsame text st) _).trans (h st text st)

theorem ignoresOutput_pure (a : α) : IgnoresOutput (pure a : Eval α) :=
  fun _ _ => rfl

theorem ignoresOutput_throw (stop : Stop) : IgnoresOutput (throw stop : Eval α) :=
  fun _ _ => rfl

theorem ignoresOutput_resolve (scope : ScopeId) (name : String) :
    IgnoresOutput (resolve scope name) := by
  refine .get_bind (fun text st => by rw [Store.lookup_withEarlier]) fun st => ?_
  split
  · exact ignoresOutput_pure _
  · split
    · exact ignoresOutput_pure _
    · exact ignoresOutput_throw _

theorem ignoresOutput_define (scope : ScopeId) (name : String) (v : Value) :
    IgnoresOutput (define scope name v) := by
  refine .get_bind (fun text st => rfl) fun st => ?_
  split
  · exact ignoresOutput_throw _
  · exact fun text st => rfl

/-- What is printed comes after what was printed before. -/
theorem ignoresOutput_printLine (line : String) : IgnoresOutput (printLine line) := by
  intro text st
  show EStateM.Result.ok () { st with output := text ++ st.output ++ (line ++ "\n") } = _
  rw [String.append_assoc]
  rfl

/-- **What was printed is out of reach** of every evaluation. -/
theorem stable_ignoresOutput : Stable (fun {_} => IgnoresOutput) where
  pure := ignoresOutput_pure
  throw := ignoresOutput_throw
  bind := .bind
  catchReturn := .catchReturn
  resolve := ignoresOutput_resolve
  define := ignoresOutput_define
  freshObject _ _ := rfl
  enclose _ _ _ := rfl
  printLine := ignoresOutput_printLine

end Eval

variable [Hashing]

/-- A program does the same after anything that was printed. -/
theorem Program.eval_withEarlier (depth : Nat) (scope : ScopeId) (p : Program) (text : String)
    (st : Store) :
    p.eval depth scope (st.withEarlier text)
      = ((p.eval depth scope st).1, (p.eval depth scope st).2.withEarlier text) := by
  have hcall := Closure.stable_call Eval.stable_ignoresOutput depth
  have hrun := Stmt.stable_evalAll Eval.stable_ignoresOutput hcall scope .null p.statements text st
  unfold Program.eval
  rw [hrun]
  cases Stmt.evalAll (Closure.call depth) scope .null p.statements st with
  | ok v st' => rfl
  | error stop st' => cases stop <;> rfl

end ConstScript
