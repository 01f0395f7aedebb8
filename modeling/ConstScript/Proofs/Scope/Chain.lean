import ConstScript.Proofs.Scope.Footprint

set_option autoImplicit false

/-! # What is seen from a scope

From a scope one sees the scope itself and those that enclose it. What matters for them is how the
scopes are nested: neither printing nor giving out identities changes what is seen, and adding a
binding changes one scope at most. -/

namespace ConstScript.Store

variable {st st' : Store} {id : ScopeId} {s t : Scope}

theorem not_mem_chain (hs : st.scopes[id]? = none) : t ∉ st.chain id := by
  rw [chain, hs]
  exact List.not_mem_nil

/-- What is seen from a scope is this scope and what is seen from the one around it. -/
theorem mem_chain_iff (hs : st.scopes[id]? = some s) :
    t ∈ st.chain id ↔ t = s ∨ ∃ outer, s.outer = some outer ∧ outer < id ∧ t ∈ st.chain outer := by
  rw [chain, hs]
  simp only [List.mem_cons]
  refine or_congr_right ?_
  cases s.outer with
  | none => simp
  | some outer =>
      by_cases hlt : outer < id
      · simp [hlt]
      · simp [hlt]

/-- The chain of a scope that lies in an older one is this scope and the chain of the one around
    it. -/
theorem chain_of_getElem? (hs : st.scopes[id]? = some s) (houter : ∀ o ∈ s.outer, o < id) :
    st.chain id = s :: (s.outer.map st.chain).getD [] := by
  rw [chain, hs]
  cases ho : s.outer with
  | none => simp [ho]
  | some o => simp [ho, houter o ho]

/-- A name has the value that the scope binds it to, else the one it has in the outer scope. -/
theorem lookup_of_getElem? (hs : st.scopes[id]? = some s) (houter : ∀ o ∈ s.outer, o < id)
    (name : String) :
    st.lookup id name = (s.get? name).or (s.outer.bind fun o => st.lookup o name) := by
  rw [lookup, chain_of_getElem? hs houter, List.findSome?_cons]
  cases s.get? name with
  | some v => rfl
  | none => cases s.outer <;> rfl

theorem exists_of_mem_chain (h : t ∈ st.chain id) : ∃ id' : ScopeId, st.scopes[id']? = some t := by
  induction id using Nat.strongRecOn with
  | _ id ih =>
      cases hs : st.scopes[id]? with
      | none => exact absurd h (not_mem_chain hs)
      | some s =>
          rcases (mem_chain_iff hs).1 h with rfl | ⟨outer, -, hlt, h⟩
          · exact ⟨id, hs⟩
          · exact ih outer hlt h

/-- Only the scopes matter. -/
theorem chain_congr (h : st'.scopes = st.scopes) (id : ScopeId) : st'.chain id = st.chain id := by
  induction id using Nat.strongRecOn with
  | _ id ih =>
      rw [chain, chain, h]
      split
      · rfl
      · next s _ =>
        cases s.outer with
        | none => rfl
        | some outer =>
            by_cases hlt : outer < id
            · simp only [if_pos hlt, ih outer hlt]
            · simp only [if_neg hlt]

/-- Adding a binding changes one scope at most, which gains just that binding. -/
theorem mem_chain_addBinding {scope : ScopeId} {name : String} {v : Value}
    (h : t ∈ (st.addBinding scope name v).chain id) :
    ∃ s ∈ st.chain id, t = s ∨ t = { s with bindings := (name, v) :: s.bindings } := by
  induction id using Nat.strongRecOn with
  | _ id ih =>
      have hnew := st.getElem?_addBinding scope id name v
      cases hs : st.scopes[id]? with
      | none =>
          rw [hs, Option.map_none, ite_self] at hnew
          exact absurd h (not_mem_chain hnew)
      | some s =>
          -- This scope may have gained the binding, but it lies in the same one as before.
          obtain ⟨s', hs', houter, hgained⟩ : ∃ s',
              (st.addBinding scope name v).scopes[id]? = some s' ∧ s'.outer = s.outer ∧
                (s' = s ∨ s' = { s with bindings := (name, v) :: s.bindings }) := by
            rw [hs, Option.map_some] at hnew
            split at hnew
            · exact ⟨_, hnew, rfl, .inr rfl⟩
            · exact ⟨s, hnew, rfl, .inl rfl⟩
          rcases (mem_chain_iff hs').1 h with rfl | ⟨outer, hsome, hlt, ht⟩
          · exact ⟨s, (mem_chain_iff hs).2 (.inl rfl), hgained⟩
          · obtain ⟨u, hu, hcases⟩ := ih outer hlt ht
            rw [houter] at hsome
            exact ⟨u, (mem_chain_iff hs).2 (.inr ⟨outer, hsome, hlt, hu⟩), hcases⟩

end ConstScript.Store
