import ConstScript.Proofs.Eval.Reachable
import ConstScript.Proofs.Eval.Return

set_option autoImplicit false

/-! # Calls can be repeated

A call leaves scopes and objects behind, but none of them is visible from what was there before it.
So the same call finds the same again, right afterwards: it prints the same text and comes to the
same result, but for the identities of what the two calls have created. -/

namespace ConstScript

namespace Eval

/-- Two evaluations have ended in the same way: with matching values, with the same runtime error,
    or both by exceeding the depth. -/
def SameEnding {voc : Vocabulary} (m : Matching voc) :
    EStateM.Result Stop Store Value → EStateM.Result Stop Store Value → Prop
  | .ok v _, .ok w _ => v.Matches m w
  | .error (.failed e) _, .error (.failed e') _ => e = e'
  | .error .tooDeep _, .error .tooDeep _ => True
  | _, _ => False

/-- An evaluation in a store, and once more in the store that it leaves behind, do the same. The
    matching is that of what the first one created with what the second one did. -/
structure Repeats (x : Eval Value) (st : Store) (m : Matching .full) : Prop where
  /-- What was there before has stayed what it was. -/
  objects : ∀ a < st.objects, m.objects a a
  scopes : ∀ i < st.scopes.size, m.scopes i i
  /-- Everything else that corresponds is new on both sides. -/
  fresh : ∀ a b, m.objects a b → a = b ∧ a < st.objects ∨ st.objects ≤ a ∧ (x.after st).objects ≤ b
  /-- Both evaluations print the same text. -/
  printed : ∃ text, (x.after st).output = st.output ++ text ∧
    (x.after (x.after st)).output = (x.after st).output ++ text
  /-- Both evaluations end in the same way. -/
  ending : SameEnding m (x st) (x (x.after st))

/-- Evaluations that are alike end in the same way, if not in a `return`. -/
theorem Alike.sameEnding {voc : Vocabulary} {m : Matching voc} {x y : Eval Value} {st st' : Store}
    (h : Alike Value.Matches m st st' (x st) (y st')) (hx : NeverReturns x) :
    ∃ m', Store.Advance m m' st st' (x.after st) (y.after st') ∧
      SameEnding m' (x st) (y st') := by
  have hreturned := hx st
  unfold Eval.after
  generalize x st = p at h hreturned
  generalize y st' = q at h
  cases h with
  | ok hadv hv => exact ⟨_, hadv, hv⟩
  | error hadv hstop =>
      refine ⟨_, hadv, ?_⟩
      cases hstop with
      | failed e => exact rfl
      | returned _ => exact absurd rfl (hreturned _ _)
      | tooDeep => exact trivial

/-- An evaluation that runs in lockstep with itself and changes no scope can be repeated. -/
theorem Lockstep.repeats {x : Eval Value} {st : Store}
    (h : Lockstep Value.Matches st.toItself x x) (hst : st.Closed) (hinert : Inert x)
    (hx : NeverReturns x) : ∃ m, Repeats x st m := by
  obtain ⟨_, hfirst⟩ := (h st st hst).advance
  -- What `st` knows is the same in the store after the first evaluation.
  have hafter : st.Matches st.toItself (x.after st) :=
    hst.matches_of_keeps (hinert st) hfirst.grows.1
  obtain ⟨m, hadv, hending⟩ := (h st (x.after st) hafter).sameEnding hx
  exact ⟨m, fun a ha => hadv.le.1 a a ⟨rfl, ha⟩, fun i hi => hadv.le.2 i i ⟨rfl, hi⟩, hadv.fresh,
    hadv.printed, hending⟩

end Eval

variable [Hashing]

/-- **Calls are repeatable.** In any store that can come about, and for any value applied to any
    arguments that are known to it: applying it again, right afterwards, prints the same text and
    ends in the same way. Either both calls exceed the depth, or both fail with the same runtime
    error, or both have values, and these are equal but for the identities and scopes that the two
    calls have created, which correspond one to one. -/
theorem Value.applyTo_repeats (depth : Nat) {st : Store} (hst : st.Reachable) {callee : Value}
    {args : List Value} (hcallee : callee.Known st) (hargs : ∀ v ∈ args, v.Known st) :
    ∃ m, Eval.Repeats (callee.applyTo depth args) st m :=
  (Value.lockstep_applyTo depth hcallee (List.forall₂_same.2 hargs)).repeats hst.closed
    (Value.inert_apply (Closure.inert_call depth) callee args)
    (Value.neverReturns_applyTo depth callee args)

omit [Hashing] in
/-- A function that compares its argument with a binding of its outer scope, and puts it into a new
    array that a new function refers to. Each call opens another scope and creates other objects,
    but the argument stays the same one. -/
theorem Value.applyTo_repeats_newObjects :
    let _ : Hashing := .inOrder fun _ => 0
    let inner : List Stmt := [.expr (.name "made")]
    let body : List Stmt :=
      [.expr (.call (.name "print") [.binary .equal (.name "a") (.name "x")]),
        .const "made" (.array [.name "a"]),
        .expr (.array [.name "made", .fn [] inner])]
    let x : Value := .array 0 [.int 1]
    let f : Value := .function ⟨1, ["a"], body, 0⟩
    let top : Scope := ⟨[("f", f), ("x", x)], none⟩
    let made (k : ObjectId) : Scope := ⟨[("made", .array k [x]), ("a", x)], some 0⟩
    let value (k : ObjectId) (i : ScopeId) : Value :=
      .array (k + 2) [.array k [x], .function ⟨k + 1, [], inner, i⟩]
    let st : Store := ⟨#[top], 2, ""⟩
    let st₁ : Store := ⟨#[top, made 2], 5, "true\n"⟩
    let st₂ : Store := ⟨#[top, made 2, made 5], 8, "true\ntrue\n"⟩
    st.Reachable ∧ f.Known st ∧ x.Known st ∧
      f.applyTo 1 [x] st = .ok (value 2 1) st₁ ∧ f.applyTo 1 [x] st₁ = .ok (value 5 2) st₂ ∧
      ∃ m, Eval.Repeats (f.applyTo 1 [x]) st m := by
  intro _ inner body x f top made value st st₁ st₂
  have hopen : (Store.empty.openScope none).2.Reachable := .openScope .empty (by simp)
  have hst : st.Reachable :=
    hopen.run 0 0 ⟨[.const "x" (.array [.int 1]), .const "f" (.fn ["a"] body)]⟩ (by decide)
  have hf : f.Known st := .function ⟨rfl, by decide⟩ ⟨rfl, by decide⟩ (Expr.uses_full _)
  have hx : x.Known st := .array ⟨rfl, by decide⟩ (.cons (.int 1) .nil)
  refine ⟨hst, hf, hx, ?_, ?_, Value.applyTo_repeats 1 hst hf (by simpa using hx)⟩
  · with_unfolding_all rfl
  · with_unfolding_all rfl

end ConstScript
