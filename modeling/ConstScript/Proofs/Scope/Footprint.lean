import ConstScript.Scope.Basic

set_option autoImplicit false

/-! # What can change in a store

Bindings are added and never removed or replaced, so a store only ever grows. How much of it a
computation can have changed is its *footprint*: one scope, and the names that this scope can have
gained. A computation that changes not even one scope *keeps* them all. -/

namespace ConstScript.Store

/-! ## Footprints -/

/-- No scope of the first store is another one in the second. -/
def Keeps (st st' : Store) : Prop :=
  ∀ (id : ScopeId) (s : Scope), st.scopes[id]? = some s → st'.scopes[id]? = some s

/-- The second store differs from the first in new scopes and in bindings that `scope` has gained,
    all of them of the given names. -/
structure Footprint (scope : ScopeId) (names : List String) (st st' : Store) : Prop where
  /-- Every binding is still there, with the same value. -/
  bindings : ∀ (id : ScopeId) (name : String) (v : Value),
    st.getOwn? id name = some v → st'.getOwn? id name = some v
  /-- Every scope is still there, inside the same scope. -/
  outer : ∀ (id : ScopeId) (s : Scope), st.scopes[id]? = some s →
    ∃ s', st'.scopes[id]? = some s' ∧ s'.outer = s.outer
  /-- The other scopes are the same. -/
  others : ∀ (id : ScopeId) (s : Scope), id ≠ scope →
    st.scopes[id]? = some s → st'.scopes[id]? = some s
  /-- What the scope binds and did not bind before has one of the names. -/
  gained : ∀ (s : Scope) (name : String) (v : Value), st.scopes[scope]? = some s →
    st'.getOwn? scope name = some v → s.get? name = none → name ∈ names

variable {scope : ScopeId} {names names' : List String} {st st' st'' : Store}

theorem getOwn?_of_getElem? {id : ScopeId} {s : Scope} (h : st.scopes[id]? = some s)
    (name : String) : st.getOwn? id name = s.get? name := by
  rw [getOwn?, h, Option.bind_some]

theorem exists_of_getOwn? {id : ScopeId} {name : String} {v : Value}
    (h : st.getOwn? id name = some v) : ∃ s, st.scopes[id]? = some s ∧ s.get? name = some v :=
  Option.bind_eq_some_iff.1 h

theorem Keeps.refl (st : Store) : st.Keeps st :=
  fun _ _ h => h

theorem Keeps.trans (h : st.Keeps st') (h' : st'.Keeps st'') : st.Keeps st'' :=
  fun id s hs => h' id s (h id s hs)

/-- What keeps every scope has every footprint. -/
theorem Keeps.footprint (h : st.Keeps st') (scope : ScopeId) (names : List String) :
    st.Footprint scope names st' where
  bindings id name v hv := by
    obtain ⟨s, hs, hget⟩ := exists_of_getOwn? hv
    rw [getOwn?_of_getElem? (h id s hs), hget]
  outer id s hs := ⟨s, h id s hs, rfl⟩
  others id s _ hs := h id s hs
  gained s name v hs hv hnone := by
    rw [getOwn?_of_getElem? (h scope s hs), hnone] at hv
    exact absurd hv (by simp)

theorem Footprint.trans (h : Footprint scope names st st') (h' : Footprint scope names st' st'') :
    Footprint scope names st st'' where
  bindings id name v hv := h'.bindings id name v (h.bindings id name v hv)
  outer id s hs := by
    obtain ⟨s', hs', houter⟩ := h.outer id s hs
    obtain ⟨s'', hs'', houter'⟩ := h'.outer id s' hs'
    exact ⟨s'', hs'', houter'.trans houter⟩
  others id s hne hs := h'.others id s hne (h.others id s hne hs)
  gained s name v hs hv hnone := by
    obtain ⟨s', hs', -⟩ := h.outer scope s hs
    cases hget : s'.get? name with
    | none => exact h'.gained s' name v hs' hv hget
    | some w => exact h.gained s name w hs (by rw [getOwn?_of_getElem? hs', hget]) hnone

theorem Footprint.mono (h : Footprint scope names st st') (hsub : names ⊆ names') :
    Footprint scope names' st st' :=
  { h with gained := fun s name v hs hv hnone => hsub (h.gained s name v hs hv hnone) }

/-- A footprint in a scope that does not exist yet keeps every scope. -/
theorem Footprint.keeps (h : Footprint scope names st st') (hscope : st.scopes[scope]? = none) :
    st.Keeps st' := by
  intro id s hs
  refine h.others id s ?_ hs
  rintro rfl
  rw [hscope] at hs
  exact absurd hs (by simp)

/-! ## Opening a scope and adding a binding -/

/-- Opening a scope keeps the others, and its number was not in use. -/
theorem openScope_spec (st : Store) (outer : Option ScopeId) :
    st.Keeps (st.openScope outer).2 ∧ st.scopes[(st.openScope outer).1]? = none := by
  constructor
  · intro id s hs
    have hlt : id < st.scopes.size := (Array.getElem?_eq_some_iff.1 hs).1
    rw [openScope, Array.getElem?_push_lt hlt, ← hs, Array.getElem?_eq_getElem hlt]
  · exact Array.getElem?_eq_none (Nat.le_refl _)

theorem getElem?_openScope_self (st : Store) (outer : Option ScopeId) :
    (st.openScope outer).2.scopes[st.scopes.size]? = some ⟨[], outer⟩ :=
  Array.getElem?_push_size

/-- A new scope binds nothing. -/
theorem getOwn?_openScope (st : Store) (outer : Option ScopeId) (id : ScopeId) (name : String) :
    (st.openScope outer).2.getOwn? id name = st.getOwn? id name := by
  rw [getOwn?, getOwn?, openScope, Array.getElem?_push]
  split
  · next hid =>
    rw [hid, Array.getElem?_eq_none (Nat.le_refl _)]
    rfl
  · rfl

theorem getElem?_addBinding (st : Store) (scope id : ScopeId) (name : String) (v : Value) :
    (st.addBinding scope name v).scopes[id]?
      = if scope = id then
          (st.scopes[id]?).map (fun s => { s with bindings := (name, v) :: s.bindings })
        else st.scopes[id]? := by
  rw [addBinding, Array.getElem?_modify]

theorem get?_addBinding (s : Scope) (name name' : String) (v : Value) :
    Scope.get? { s with bindings := (name, v) :: s.bindings } name'
      = if name' = name then some v else s.get? name' := by
  rw [Scope.get?, List.lookup_cons]
  by_cases hname : name' = name
  · rw [if_pos hname, beq_iff_eq.2 hname]
  · rw [if_neg hname, beq_false_of_ne hname]
    rfl

theorem getOwn?_addBinding {scope : ScopeId} (hscope : scope < st.scopes.size) (name : String)
    (v : Value) (id : ScopeId) (name' : String) :
    (st.addBinding scope name v).getOwn? id name'
      = if scope = id ∧ name' = name then some v else st.getOwn? id name' := by
  rw [getOwn?, getElem?_addBinding]
  by_cases hid : scope = id
  · subst hid
    rw [if_pos rfl, getOwn?, Array.getElem?_eq_getElem hscope, Option.map_some, Option.bind_some,
      get?_addBinding, Option.bind_some]
    simp
  · rw [if_neg hid, if_neg (fun h => hid h.1), ← getOwn?]

/-- Adding a binding of a name that a scope does not bind adds just that. -/
theorem addBinding_footprint {name : String} (v : Value) (h : ¬ st.binds scope name) :
    Footprint scope [name] st (st.addBinding scope name v) := by
  have hother : ∀ (id : ScopeId) (s : Scope), id ≠ scope → st.scopes[id]? = some s →
      (st.addBinding scope name v).scopes[id]? = some s := by
    intro id s hne hs
    rw [getElem?_addBinding, if_neg (Ne.symm hne), hs]
  have hown : ∀ s : Scope, st.scopes[scope]? = some s →
      (st.addBinding scope name v).scopes[scope]?
        = some { s with bindings := (name, v) :: s.bindings } := by
    intro s hs
    rw [getElem?_addBinding, if_pos rfl, hs, Option.map_some]
  refine ⟨?_, ?_, hother, ?_⟩
  · intro id name' w hw
    obtain ⟨s, hs, hget⟩ := exists_of_getOwn? hw
    by_cases hid : id = scope
    · subst hid
      have hne : name' ≠ name := by
        rintro rfl
        exact h (by rw [binds, hw]; rfl)
      rw [getOwn?_of_getElem? (hown s hs), get?_addBinding, if_neg hne, hget]
    · rw [getOwn?_of_getElem? (hother id s hid hs), hget]
  · intro id s hs
    by_cases hid : id = scope
    · subst hid
      exact ⟨_, hown s hs, rfl⟩
    · exact ⟨s, hother id s hid hs, rfl⟩
  · intro s name' w hs hw hnone
    rw [getOwn?_of_getElem? (hown s hs), get?_addBinding] at hw
    by_cases hname : name' = name
    · exact List.mem_singleton.2 hname
    · rw [if_neg hname, hnone] at hw
      exact absurd hw (by simp)

end ConstScript.Store
