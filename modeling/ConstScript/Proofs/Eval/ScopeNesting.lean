import ConstScript.Proofs.Eval.Growth
import ConstScript.Proofs.Eval.Reachable
import ConstScript.Proofs.Scope.Walk

set_option autoImplicit false

/-! # Scopes stay nested

A function can be bound in the scope that it refers to, so scopes and values do form circles. The
links from scopes to those around them never do: a scope is created inside one that is there
already, and stays inside it. This holds of every store that can come about, and also of the stores
that a run finds on its way, since these have no other links than the one that it leaves behind. So
every walk outwards ends, at all times.

A handle to a scope is its number, and a copy of it the same number: copying changes nothing. -/

namespace ConstScript

variable [Hashing]

open Eval Relation

namespace Store

/-! ## Later stores -/

/-- What can be done with a store from outside. -/
inductive Change (st : Store) : Store → Prop where
  | openScope {outer : Option ScopeId} :
      (∀ o ∈ outer, o < st.scopes.size) → Change st (st.openScope outer).2
  | freshObject : Change st st.freshObject.2
  | define {st' : Store} {id : ScopeId} {name : String} {v : Value} :
      id < st.scopes.size → v.Known st → st.define id name v = .ok st' → Change st st'
  | run (depth : Nat) (scope : ScopeId) (p : Program) :
      scope < st.scopes.size → Change st (p.eval depth scope st).2
  | apply {callee : Value} {args : List Value} (depth : Nat) :
      callee.Known st → (∀ v ∈ args, v.Known st) → Change st ((callee.applyTo depth args).after st)

/-- A program or a called function that is run in the first store finds the second one at some point
    of it, and leaves behind the third one. -/
inductive Passes (st : Store) : Store → Store → Prop where
  | run {depth : Nat} {scope : ScopeId} {p : Program} {q : Point} : scope < st.scopes.size →
      ReflTransGen Point.Step ⟨depth, scope, .block p.statements, st⟩ q →
      Passes st q.moment.store (p.eval depth scope st).2
  | apply {depth : Nat} {f : Closure} {args : List Value} {scope : ScopeId} {entered : Store}
      {q : Point} : (Value.function f).Known st → (∀ v ∈ args, v.Known st) →
      f.enter args st = .ok scope entered →
      ReflTransGen Point.Step ⟨depth, scope, .block f.body, entered⟩ q →
      Passes st q.moment.store (((Value.function f).applyTo (depth + 1) args).after st)

/-- The second store is there on the way from the first one to the third one. -/
inductive Between (st : Store) : Store → Store → Prop where
  | changes {mid st' : Store} :
      ReflTransGen Change st mid → ReflTransGen Change mid st' → Between st mid st'
  | passes {before mid after st' : Store} : ReflTransGen Change st before →
      before.Passes mid after → ReflTransGen Change after st' → Between st mid st'

variable {st mid st' : Store}

theorem Change.reachable (h : st.Change st') (hst : st.Reachable) : st'.Reachable := by
  cases h with
  | openScope houter => exact .openScope hst houter
  | freshObject => exact .freshObject hst
  | define hid hv hdefine => exact .define hst hid hv hdefine
  | run depth scope p hscope => exact .run depth scope p hst hscope
  | apply depth hcallee hargs => exact .apply depth hst hcallee hargs

theorem Reachable.later (hst : st.Reachable) (h : ReflTransGen Change st st') :
    st'.Reachable := by
  induction h with
  | refl => exact hst
  | tail _ hchange ih => exact hchange.reachable ih

end Store

/-! ## Nothing is taken away -/

/-- A program leaves behind what its statements do. -/
theorem Program.eval_snd (depth : Nat) (scope : ScopeId) (p : Program) (st : Store) :
    (p.eval depth scope st).2
      = (Stmt.evalAll (Closure.call depth) scope .null p.statements).after st := by
  rw [eval_eq_outcome, Eval.after]
  cases Stmt.evalAll (Closure.call depth) scope .null p.statements st with
  | ok v st' => rfl
  | error stop st' => cases stop <;> rfl

namespace Store

variable {st mid st' : Store}

theorem Change.extends (h : st.Change st') : st.Extends st' := by
  cases h with
  | @openScope outer _ => exact (st.openScope_spec outer).1.extends (Nat.le_refl _)
  | freshObject => exact st.extends_freshObject
  | @define _ id name v _ _ hdefine =>
      unfold Store.define at hdefine
      split at hdefine
      · cases hdefine
      · next hbinds =>
        cases hdefine
        exact (addBinding_footprint v hbinds).extends (Nat.le_refl _)
  | run depth scope p _ =>
      rw [Program.eval_snd]
      exact Stmt.grows_evalAll depth scope .null p.statements st
  | @apply callee args depth _ _ => exact Value.grows_apply depth callee args st

theorem extends_of_changes (h : ReflTransGen Change st st') : st.Extends st' := by
  induction h with
  | refl => exact .refl st
  | tail _ hchange ih => exact ih.trans hchange.extends

theorem Passes.change (h : st.Passes mid st') : st.Change st' := by
  cases h with
  | run hscope _ => exact .run _ _ _ hscope
  | apply hf hargs _ _ => exact .apply _ hf hargs

theorem Passes.extends (h : st.Passes mid st') : st.Extends mid ∧ mid.Extends st' := by
  cases h with
  | run _ hq =>
      obtain ⟨hbegin, hend⟩ := Point.extends_of_reaches hq
      rw [Program.eval_snd]
      exact ⟨hbegin, (Point.extends_after _).trans hend⟩
  | @apply depth f args scope entered q _ _ henter hq =>
      obtain ⟨hbegin, hend⟩ := Point.extends_of_reaches hq
      have hentered : st.Extends entered := (stable_grows.enter f args).of_ok henter
      -- The call leaves behind what its body does.
      have hcall : ((Value.function f).applyTo (depth + 1) args).after st
          = (Stmt.evalAll (Closure.call depth) scope .null f.body).after entered :=
        (after_bind_of_ok henter).trans (after_catchReturn _ _)
      rw [hcall]
      exact ⟨hentered.trans hbegin, q.extends_after.trans hend⟩

theorem Between.extends (h : st.Between mid st') : st.Extends mid ∧ mid.Extends st' := by
  cases h with
  | changes hbefore hafter => exact ⟨extends_of_changes hbefore, extends_of_changes hafter⟩
  | passes hbefore hpasses hafter =>
      obtain ⟨hbegin, hend⟩ := hpasses.extends
      exact ⟨(extends_of_changes hbefore).trans hbegin, hend.trans (extends_of_changes hafter)⟩

/-- There are changes from the first store to the third one. -/
theorem Between.toChanges (h : st.Between mid st') : ReflTransGen Change st st' := by
  cases h with
  | changes hbefore hafter => exact hbefore.trans hafter
  | passes hbefore hpasses hafter => exact (hbefore.tail hpasses.change).trans hafter

/-! ## Nested scopes -/

omit [Hashing] in
/-- If the scopes of a store are nested, they were before. -/
theorem IsNested.of_extends (h : st'.IsNested) (hextends : st.Extends st') : st.IsNested := by
  intro id s hs o ho
  obtain ⟨s', hs', houter⟩ := hextends.outer id s hs
  exact h id s' hs' o (houter ▸ ho)

omit [Hashing] in
theorem Closed.isNested (h : st.Closed) : st.IsNested := by
  intro id s hs
  have hself : st.toItself.scopes id id := ⟨rfl, (Array.getElem?_eq_some_iff.1 hs).1⟩
  obtain ⟨s', -, hs', -, -, hlt, -⟩ := h.scopes hself
  obtain rfl := Option.some.inj (hs.symm.trans hs')
  exact hlt

theorem Reachable.isNested (h : st.Reachable) : st.IsNested :=
  h.closed.isNested

theorem Between.isNested (h : st.Between mid st') (hst : st.Reachable) : mid.IsNested :=
  (hst.later h.toChanges).isNested.of_extends h.extends.2

/-- **Scopes never form a circle.** Whatever is done with an environment that can come about, by
    creating and binding, by running programs and by calling functions, and at whatever point of it:
    every scope lies in one that was created before it, or in none, which it has always done and
    will always do. So the search for a name and the description of a scope end, for every scope and
    every name. They visit the scopes of one chain, none of them twice. -/
theorem Reachable.walks_end (hst : st.Reachable) (h : st.Between mid st') :
    mid.IsNested ∧
      (∀ (id : ScopeId) (s : Scope), st.scopes[id]? = some s →
        ∃ t, mid.scopes[id]? = some t ∧ t.outer = s.outer) ∧
      (∀ (id : ScopeId) (s : Scope), mid.scopes[id]? = some s →
        ∃ t, st'.scopes[id]? = some t ∧ t.outer = s.outer) ∧
      ∀ id < mid.scopes.size, mid.WalksEnd id := by
  have hnested : mid.IsNested := h.isNested hst
  obtain ⟨hbegin, hend⟩ := h.extends
  exact ⟨hnested, hbegin.outer, hend.outer, fun id hid => hnested.walksEnd hid⟩

omit [Hashing] in
/-- A function that is bound in the scope it refers to, and what it returns: a function that refers
    to the scope of the call. -/
theorem Reachable.walks_end_circle :
    let _ : Hashing := .inOrder fun _ => 0
    let inner : List Stmt := [.expr (.name "f")]
    let outer : List Stmt := [.expr (.fn [] inner)]
    let p : Program := ⟨[.const "f" (.fn [] outer), .const "g" (.call (.name "f") [])]⟩
    let f : Value := .function ⟨0, [], outer, 0⟩
    let g : Value := .function ⟨1, [], inner, 1⟩
    let st : Store := ⟨#[⟨[], none⟩], 0, ""⟩
    let st' : Store := ⟨#[⟨[("g", g), ("f", f)], none⟩, ⟨[], some 0⟩], 2, ""⟩
    st.Reachable ∧ (p.eval 1 0 st).2 = st' ∧ st.Between st' st' ∧
      Searches st' "f" 1 [1, 0] (some f) ∧ st'.WalksEnd 1 := by
  intro _ inner outer p f g st st'
  have hst : st.Reachable := .openScope .empty (by simp)
  have hrun : (p.eval 1 0 st).2 = st' := by with_unfolding_all rfl
  have hbetween : st.Between st' st' := .changes (.single (hrun ▸ .run 1 0 p Nat.one_pos)) .refl
  have hsearch : Searches st' "f" 1 [1, 0] (some f) :=
    .outwards (o := 0) rfl rfl rfl (.found rfl rfl)
  exact ⟨hst, hrun, hbetween, hsearch, (hst.walks_end hbetween).2.2.2 1 (by decide)⟩

end Store

end ConstScript
