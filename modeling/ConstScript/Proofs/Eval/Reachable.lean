import ConstScript.Proofs.Eval.Agreement
import ConstScript.Proofs.Eval.Footprint

set_option autoImplicit false

/-! # Stores that can come about

A store is *reachable* if it comes from the empty one by what can be done with scopes from outside,
which is to create and to bind in them, and by running programs and applying values. Values that are
passed in this way have to be *known* to the store: they may not contain identities or scopes that
were never given out.

In a reachable store all values are known. This is what makes it *closed*: it matches itself, so
that everything proved about stores that match holds of it. -/

namespace ConstScript

/-! ## Closed stores -/

/-- The matching of everything in a store to itself. -/
def Store.toItself (st : Store) : Matching .full where
  objects a b := a = b ∧ a < st.objects
  scopes i j := i = j ∧ i < st.scopes.size
  biUnique_objects := ⟨fun _ _ _ h h' => h.1.trans h'.1.symm, fun _ _ _ h h' => h.1.symm.trans h'.1⟩
  biUnique_scopes := ⟨fun _ _ _ h h' => h.1.trans h'.1.symm, fun _ _ _ h h' => h.1.symm.trans h'.1⟩

/-- The identities and scopes of a value have all been given out. -/
def Value.Known (st : Store) (v : Value) : Prop :=
  v.Matches st.toItself v

/-- All scopes bind known values and lie in scopes that were created before them. -/
def Store.Closed (st : Store) : Prop :=
  st.Matches st.toItself st

namespace Store

variable {st st' after after' : Store} {m' : Matching .full}

/-- Where a store that matches itself has come to, everything that is there matches something, and
    so itself. -/
theorem Advance.closed (h : Advance st.toItself m' st st after after) : after.Closed := by
  have hobjects : ∀ a b, m'.objects a b → after.toItself.objects a a :=
    fun a b hab => ⟨rfl, (h.stores.objects_lt hab).1⟩
  have hscopes : ∀ i j, m'.scopes i j → after.toItself.scopes i i :=
    fun i j hij => ⟨rfl, (h.stores.scope_lt hij).1⟩
  refine ⟨fun hab => ⟨hab.2, hab.1 ▸ hab.2⟩, ?_⟩
  intro i j hij
  obtain ⟨rfl, hi⟩ := hij
  obtain ⟨j, hij⟩ := h.covers (fun k hk => ⟨k, rfl, hk⟩) i hi
  obtain ⟨s, t, hs, -, hst, hlt, -⟩ := h.stores.scopes hij
  refine ⟨s, s, hs, hs, ⟨fun name hname => ?_, .rel (hst.outer.left hscopes)⟩, hlt, hlt⟩
  exact (hst.bindings name hname).left fun v w hv => hv.self hobjects hscopes

/-- A closed store matches every store that keeps its scopes. -/
theorem Closed.matches_of_keeps (h : st.Closed) (hkeeps : st.Keeps after)
    (hobjects : st.objects ≤ after.objects) : st.Matches st.toItself after where
  objects_lt hab := ⟨hab.2, hab.1 ▸ Nat.lt_of_lt_of_le hab.2 hobjects⟩
  scopes {i j} hij := by
    obtain ⟨s, t, hs, ht, hst, hlt, hlt'⟩ := h.scopes hij
    have hpass : ∀ j t, st.PassesOver st.toItself j t → after.PassesOver st.toItself j t :=
      fun j t hj => { hj with getElem? := hkeeps j t hj.getElem? }
    exact ⟨s, t, hs, hkeeps j t ht, hst.mono (le_refl _) hpass, hlt, hlt'⟩

end Store

theorem Eval.Alike.advance {α β : Type} {voc : Vocabulary} {m : Matching voc}
    {r : Matching voc → α → β → Prop} {x : Eval α} {y : Eval β} {st st' : Store}
    (h : Alike r m st st' (x st) (y st')) :
    ∃ m', Store.Advance m m' st st' (x.after st) (y.after st') := by
  unfold Eval.after
  generalize x st = p at h
  generalize y st' = q at h
  cases h with
  | ok hadv _ => exact ⟨_, hadv⟩
  | error hadv _ => exact ⟨_, hadv⟩

/-! ## Reachable stores -/

variable [Hashing]

/-- The stores that come from the empty one. -/
inductive Store.Reachable : Store → Prop where
  | empty : Reachable .empty
  | openScope {st : Store} {outer : Option ScopeId} :
      Reachable st → (∀ o ∈ outer, o < st.scopes.size) → Reachable (st.openScope outer).2
  | freshObject {st : Store} : Reachable st → Reachable st.freshObject.2
  | define {st st' : Store} {id : ScopeId} {name : String} {v : Value} :
      Reachable st → id < st.scopes.size → v.Known st → st.define id name v = .ok st' →
      Reachable st'
  | run {st : Store} (depth : Nat) (scope : ScopeId) (p : Program) :
      Reachable st → scope < st.scopes.size → Reachable (p.eval depth scope st).2
  | apply {st : Store} {callee : Value} {args : List Value} (depth : Nat) :
      Reachable st → callee.Known st → (∀ v ∈ args, v.Known st) →
      Reachable ((callee.applyTo depth args).after st)

/-- Everything in a reachable store is known to it. -/
theorem Store.Reachable.closed {st : Store} (h : st.Reachable) : st.Closed := by
  induction h with
  | empty => exact ⟨fun hab => absurd hab.2 (Nat.not_lt_zero _),
      fun hij => absurd hij.2 (Nat.not_lt_zero _)⟩
  | @openScope st outer _ houter ih =>
      have hself : Option.Rel st.toItself.scopes outer outer := by
        cases outer with
        | none => exact .none
        | some o => exact .some ⟨rfl, houter o rfl⟩
      obtain ⟨m', hadv, -⟩ := Store.Matches.openScope ih hself
      exact hadv.closed
  | freshObject _ ih =>
      obtain ⟨m', hadv, -⟩ := Store.Matches.freshObject ih
      exact hadv.closed
  | define _ hid hv hdefine ih =>
      unfold Store.define at hdefine
      split at hdefine
      · cases hdefine
      · cases hdefine
        exact (Store.Matches.addBinding ih ⟨rfl, hid⟩ _ hv).closed
  | @run st depth scope p _ hscope ih =>
      have hself : st.toItself.scopes scope scope := ⟨rfl, hscope⟩
      obtain ⟨m', hadv, -⟩ := p.agree depth ih hself
      exact hadv.closed
  | @apply st callee args depth _ hcallee hargs ih =>
      have hrun := Value.lockstep_applyTo depth hcallee (List.forall₂_same.2 hargs)
      obtain ⟨m', hadv⟩ := (hrun st st ih).advance
      exact hadv.closed

end ConstScript
