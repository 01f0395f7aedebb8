import ConstScript.Proofs.Eval.ScopeNesting
import Mathlib.Data.List.Nodup

set_option autoImplicit false

/-! # Definitions in several scopes

A definition adds one binding to one scope, and fails if the scope binds the name already. So what
is bound after some definitions can be told from the definitions without their order, and so can
whether they all succeed. With the bindings, the values of all names are determined, and with the
names the descriptions of all scopes. -/

namespace ConstScript

open Eval

namespace Store

variable {st st' : Store} {id : ScopeId} {name : String}

/-! ## Every name is bound once -/

theorem BindsOnce.openScope (h : st.BindsOnce) (outer : Option ScopeId) :
    (st.openScope outer).2.BindsOnce := by
  intro id s hs
  rw [Store.openScope, Array.getElem?_push] at hs
  split at hs
  · obtain rfl := Option.some.inj hs
    exact List.nodup_nil
  · exact h id s hs

theorem BindsOnce.addBinding (h : st.BindsOnce) (hfree : ¬ st.binds id name) (v : Value) :
    (st.addBinding id name v).BindsOnce := by
  intro id' s' hs'
  rw [getElem?_addBinding] at hs'
  split at hs'
  · next hid =>
    subst hid
    obtain ⟨s, hs, rfl⟩ := Option.map_eq_some_iff.1 hs'
    -- The scope did not bind the name, so the new binding has none of the old names.
    have hnew : name ∉ s.names := by
      rw [← Scope.get?_eq_none_iff]
      rwa [binds, getOwn?_of_getElem? hs, Option.isSome_iff_ne_none, Ne, not_not] at hfree
    exact List.nodup_cons.2 ⟨hnew, h id s hs⟩
  · exact h id' s' hs'

end Store

/-- No evaluation binds a name twice in a scope. -/
theorem Eval.stable_bindsOnce :
    Stable (fun {_} x => ∀ st : Store, st.BindsOnce → (x.after st).BindsOnce) where
  pure _ _ h := h
  throw _ _ h := h
  bind {_ _ x f} hx hf st h := by
    rcases after_bind x f st with ⟨a, hafter⟩ | hafter
    · rw [hafter]
      exact hf a _ (hx st h)
    · rw [hafter]
      exact hx st h
  catchReturn {x} hx st h := after_catchReturn x st ▸ hx st h
  resolve scope name st h := (after_resolve scope name st).symm ▸ h
  define scope name v st h := by
    rw [after]
    by_cases hbinds : st.binds scope name
    · rwa [define_of_binds hbinds]
    · rw [define_of_not_binds hbinds]
      exact h.addBinding hbinds v
  freshObject _ h := h
  enclose outer st h := h.openScope (some outer)
  printLine _ _ h := h

namespace Store

variable {st st' : Store} {id : ScopeId} {name : String} {v : Value}

/-- All that a definition can do. -/
theorem define_eq_ok_iff :
    st.define id name v = .ok st' ↔ ¬ st.binds id name ∧ st' = st.addBinding id name v := by
  unfold define
  split
  · next hbinds => simp [hbinds]
  · next hbinds => simp [hbinds, eq_comm]

theorem Reachable.bindsOnce [Hashing] (h : st.Reachable) : st.BindsOnce := by
  have hcall := Closure.stable_call stable_bindsOnce
  induction h with
  | empty => exact fun id s hs => by simp [Store.empty] at hs
  | openScope _ _ ih => exact ih.openScope _
  | freshObject _ ih => exact ih
  | define _ _ _ hdefine ih =>
      obtain ⟨hfree, rfl⟩ := define_eq_ok_iff.1 hdefine
      exact ih.addBinding hfree _
  | @run st depth scope p _ _ ih =>
      rw [Program.eval_snd]
      exact Stmt.stable_evalAll stable_bindsOnce (hcall depth) scope .null p.statements st ih
  | @apply st callee args depth _ _ _ ih =>
      exact Value.stable_apply stable_bindsOnce (hcall depth) callee args st ih

end Store

/-! ## Definitions one after another -/

/-- A scope, a name, and the value that the name is to have there. -/
structure Binding where
  scope : ScopeId
  name : String
  value : Value

/-- What is bound, without the value. -/
def Binding.place (b : Binding) : ScopeId × String := (b.scope, b.name)

/-- Makes definitions, in order, unless one fails. -/
def Store.defineEach (st : Store) : List Binding → Except RuntimeError Store
  | [] => .ok st
  | b :: bs => do (← st.define b.scope b.name b.value).defineEach bs

namespace Store

variable {st st₁ st₂ : Store} {b : Binding} {bs bs' : List Binding}

theorem defineEach_cons_eq_ok_iff : st.defineEach (b :: bs) = .ok st₁ ↔
    ¬ st.binds b.scope b.name ∧
      (st.addBinding b.scope b.name b.value).defineEach bs = .ok st₁ := by
  rw [defineEach, define]
  split
  · next hbinds => simp [hbinds, bind, Except.bind]
  · next hbinds => simp [hbinds, bind, Except.bind]

theorem sameLinks_addBinding (st : Store) (id : ScopeId) (name : String) (v : Value) :
    (st.addBinding id name v).SameLinks st := by
  intro id'
  rw [getElem?_addBinding]
  split
  · rw [Option.map_map]
    rfl
  · rfl

/-- Definitions change no links. -/
theorem sameLinks_defineEach (h : st.defineEach bs = .ok st₁) : st₁.SameLinks st := by
  induction bs generalizing st with
  | nil =>
      obtain rfl := Except.ok.inj h
      exact fun _ => rfl
  | cons b bs ih =>
      obtain ⟨-, hrest⟩ := defineEach_cons_eq_ok_iff.1 h
      exact fun id => (ih hrest id).trans (st.sameLinks_addBinding _ _ _ id)

theorem bindsOnce_defineEach (h : st.defineEach bs = .ok st₁) (honce : st.BindsOnce) :
    st₁.BindsOnce := by
  induction bs generalizing st with
  | nil =>
      obtain rfl := Except.ok.inj h
      exact honce
  | cons b bs ih =>
      obtain ⟨hfree, hrest⟩ := defineEach_cons_eq_ok_iff.1 h
      exact ih hrest (honce.addBinding hfree _)

@[simp] theorem size_addBinding (st : Store) (id : ScopeId) (name : String) (v : Value) :
    (st.addBinding id name v).scopes.size = st.scopes.size := by
  simp [addBinding]

theorem binds_addBinding {id : ScopeId} (hid : id < st.scopes.size) (name : String) (v : Value)
    (id' : ScopeId) (name' : String) :
    (st.addBinding id name v).binds id' name' ↔ (id', name') = (id, name) ∨ st.binds id' name' := by
  rw [binds, getOwn?_addBinding hid]
  by_cases heq : id = id' ∧ name' = name
  · obtain ⟨rfl, rfl⟩ := heq
    simp
  · have hne : (id', name') ≠ (id, name) :=
      fun h => heq ⟨(Prod.mk.inj h).1.symm, (Prod.mk.inj h).2⟩
    rw [if_neg heq, ← binds, or_iff_right hne]

/-- Definitions succeed iff they are of different names or in different scopes, and none of these is
    bound there yet. -/
theorem exists_defineEach_iff (hscopes : ∀ b ∈ bs, b.scope < st.scopes.size) :
    (∃ st₁, st.defineEach bs = .ok st₁) ↔
      (bs.map Binding.place).Nodup ∧ ∀ p ∈ bs.map Binding.place, ¬ st.binds p.1 p.2 := by
  induction bs generalizing st with
  | nil => simp [defineEach]
  | cons b bs ih =>
      obtain ⟨hb, hbs⟩ := List.forall_mem_cons.1 hscopes
      have hsize : ∀ c ∈ bs, c.scope < (st.addBinding b.scope b.name b.value).scopes.size := by
        simpa using hbs
      have hrest := ih hsize
      simp only [defineEach_cons_eq_ok_iff, exists_and_left, hrest, binds_addBinding hb,
        List.map_cons, List.nodup_cons, List.forall_mem_cons]
      constructor
      · rintro ⟨hfree, hnodup, hnew⟩
        exact ⟨⟨fun hmem => hnew _ hmem (.inl rfl), hnodup⟩, hfree,
          fun p hp hbinds => hnew p hp (.inr hbinds)⟩
      · rintro ⟨⟨hnot, hnodup⟩, hfree, hnew⟩
        refine ⟨hfree, hnodup, fun p hp hbinds => ?_⟩
        rcases hbinds with heq | hbinds
        · have hplace : p = b.place := heq
          exact hnot (hplace ▸ hp)
        · exact hnew p hp hbinds

/-- What is bound after definitions was bound before or is defined by one of them. -/
theorem getOwn?_defineEach (hscopes : ∀ b ∈ bs, b.scope < st.scopes.size)
    (h : st.defineEach bs = .ok st₁) (id : ScopeId) (name : String) (v : Value) :
    st₁.getOwn? id name = some v ↔ st.getOwn? id name = some v ∨ ⟨id, name, v⟩ ∈ bs := by
  induction bs generalizing st with
  | nil =>
      obtain rfl := Except.ok.inj h
      simp
  | cons b bs ih =>
      obtain ⟨hb, hbs⟩ := List.forall_mem_cons.1 hscopes
      obtain ⟨hfree, hrest⟩ := defineEach_cons_eq_ok_iff.1 h
      rw [ih (by simpa using hbs) hrest, getOwn?_addBinding hb, List.mem_cons, ← or_assoc]
      refine or_congr_left ?_
      split
      · next heq =>
        -- The scope did not bind the name before.
        obtain ⟨rfl, rfl⟩ := heq
        have hnone : st.getOwn? b.scope b.name = none := by simpa [binds] using hfree
        rw [hnone, Option.some.injEq]
        constructor
        · rintro rfl
          exact .inr rfl
        · rintro (hsome | heq)
          · cases hsome
          · exact heq ▸ rfl
      · next hne =>
        refine (or_iff_left ?_).symm
        rintro rfl
        exact hne ⟨rfl, rfl⟩

/-! ## In another order -/

/-- What is bound after definitions, without the values. -/
theorem binds_defineEach (hscopes : ∀ b ∈ bs, b.scope < st.scopes.size)
    (h : st.defineEach bs = .ok st₁) (id : ScopeId) (name : String) :
    st₁.binds id name ↔ st.binds id name ∨ (id, name) ∈ bs.map Binding.place := by
  simp only [binds, Option.isSome_iff_exists, getOwn?_defineEach hscopes h, exists_or]
  refine or_congr_right ⟨?_, ?_⟩
  · rintro ⟨v, hmem⟩
    exact List.mem_map.2 ⟨_, hmem, rfl⟩
  · intro hmem
    obtain ⟨b, hb, hplace⟩ := List.mem_map.1 hmem
    obtain ⟨rfl, rfl⟩ := Prod.mk.inj hplace
    exact ⟨b.value, hb⟩

/-- **Definitions of different names commute, and only the names show.** In any environment that can
    come about, let definitions succeed that are made in some of its scopes. The description of each
    scope shows the names it binds, which are those it did bind and those defined in it: each of
    them once, in increasing order of the bytes, and inside it the scopes around it down to the
    outermost. Any definitions of the same names in the same scopes succeed as well, in whatever
    order and with whatever values, and all scopes are described as before. If the definitions are
    the same up to their order, then all names have the values that they had. -/
theorem Reachable.definitions_commute [Hashing] (hst : st.Reachable)
    (hscopes : ∀ b ∈ bs, b.scope < st.scopes.size) (h : st.defineEach bs = .ok st₁) :
    (∀ id < st.scopes.size, st₁.Shows id (st₁.describe id)) ∧
      (∀ id name, st₁.binds id name ↔ st.binds id name ∨ (id, name) ∈ bs.map Binding.place) ∧
      ∀ bs', (bs'.map Binding.place).Perm (bs.map Binding.place) →
        ∃ st₂, st.defineEach bs' = .ok st₂ ∧
          (∀ id, st₂.describe id = st₁.describe id) ∧
          (bs'.Perm bs → ∀ id name, st₂.lookup id name = st₁.lookup id name) := by
  have hlinks := sameLinks_defineEach h
  have hnested : st₁.IsNested := hlinks.symm.isNested hst.isNested
  have honce : st₁.BindsOnce := bindsOnce_defineEach h hst.bindsOnce
  have hbinds := binds_defineEach hscopes h
  refine ⟨fun id hid => shows_describe hnested honce (hlinks.lt_size_iff.2 hid), hbinds,
    fun bs' hplaces => ?_⟩
  -- The definitions succeed in the other order and with the other values as well.
  have hscopes' : ∀ b ∈ bs', b.scope < st.scopes.size := by
    intro b hb
    obtain ⟨b', hb', heq⟩ := List.mem_map.1 (hplaces.mem_iff.1 (List.mem_map_of_mem hb))
    have hscope : b'.scope = b.scope := (Prod.mk.inj heq).1
    exact hscope ▸ hscopes b' hb'
  obtain ⟨hnodup, hfree⟩ := (exists_defineEach_iff hscopes).1 ⟨st₁, h⟩
  obtain ⟨st₂, h₂⟩ := (exists_defineEach_iff hscopes').2
    ⟨hplaces.nodup_iff.2 hnodup, fun p hp => hfree p (hplaces.mem_iff.1 hp)⟩
  have hlinks₂ := sameLinks_defineEach h₂
  have hsame : st₂.SameLinks st₁ := hlinks₂.trans hlinks.symm
  have hnested₂ : st₂.IsNested := hlinks₂.symm.isNested hst.isNested
  refine ⟨st₂, h₂, hsame.describe_eq hnested₂ (bindsOnce_defineEach h₂ hst.bindsOnce) hnested honce
    fun id name => ?_, fun hperm => hsame.lookup_eq hnested₂ fun id name => ?_⟩
  · rw [Bool.eq_iff_iff, hbinds, binds_defineEach hscopes' h₂, hplaces.mem_iff]
  · refine Option.ext fun v => ?_
    rw [getOwn?_defineEach hscopes h, getOwn?_defineEach hscopes' h₂, hperm.mem_iff]

/-- Three definitions in two scopes. In another order and with other values, one of them a function
    that refers to the scope it is bound in, the scopes have the same descriptions. -/
theorem Reachable.definitions_commute_capture :
    let _ : Hashing := .inOrder fun _ => 0
    let f : Value := .function ⟨0, [], [.expr (.name "f")], 1⟩
    let bs : List Binding := [⟨0, "b", .int 1⟩, ⟨1, "f", .int 2⟩, ⟨1, "F", f⟩]
    let bs' : List Binding := [⟨1, "F", .null⟩, ⟨0, "b", .bool true⟩, ⟨1, "f", f⟩]
    let st : Store := ⟨#[⟨[], none⟩, ⟨[], some 0⟩], 0, ""⟩
    let st₁ : Store := ⟨#[⟨[("b", .int 1)], none⟩, ⟨[("F", f), ("f", .int 2)], some 0⟩], 0, ""⟩
    st.Reachable ∧ st.defineEach bs = .ok st₁ ∧ st₁.Shows 1 (st₁.describe 1) ∧
      st₁.scopes.toList.map Scope.sortedNames = [["b"], ["F", "f"]] ∧
      ∃ st₂, st.defineEach bs' = .ok st₂ ∧ st₂.describe 1 = st₁.describe 1 := by
  intro _ f bs bs' st st₁
  have hst : st.Reachable := .openScope (.openScope .empty (by simp)) (by simp [Store.openScope])
  have h : st.defineEach bs = .ok st₁ := rfl
  obtain ⟨hshows, -, hperm⟩ := hst.definitions_commute (by decide) h
  obtain ⟨st₂, h₂, hdescribe, -⟩ := hperm bs' (by decide)
  have hsorted : st₁.scopes.toList.map Scope.sortedNames = [["b"], ["F", "f"]] := by
    simp [st₁, Scope.sortedNames, Scope.names, List.mergeSort]
  exact ⟨hst, h, hshows 1 (by decide), hsorted, st₂, h₂, hdescribe 1⟩

end Store

end ConstScript
