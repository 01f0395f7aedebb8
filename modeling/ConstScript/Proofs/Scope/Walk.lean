import ConstScript.Proofs.Scope.Description
import ConstScript.Proofs.Scope.History

set_option autoImplicit false

/-! # Walking outwards

Looking a name up and describing a scope both go from a scope to the one around it, and on to the
one around that, until there is none. Nothing in such a walk counts downwards: it would go on for
ever if scopes were nested in a circle. So the walks are stated here as they are made, without a
look at the numbers of the scopes: `Searches` and `Describes` say which scopes a walk visits, one
after another, and what it comes to, if it ends at all.

Scopes are numbered in the order of their creation. If every scope lies in an older one, then every
walk ends, visits no scope twice, and comes to what `Store.lookup` and `Store.describe` say. -/

namespace ConstScript

open Environment (Linked)

/-! ## Walks -/

/-- The search for a name that begins at a scope visits these scopes, and ends with this value or
    with none: at a scope that binds the name, or at one that no other encloses. -/
inductive Searches (st : Store) (name : String) : ScopeId → List ScopeId → Option Value → Prop
  | found {id : ScopeId} {s : Scope} {v : Value} : st.scopes[id]? = some s → s.get? name = some v →
      Searches st name id [id] (some v)
  | missing {id : ScopeId} {s : Scope} : st.scopes[id]? = some s → s.get? name = none →
      s.outer = none → Searches st name id [id] none
  | outwards {id o : ScopeId} {s : Scope} {visited : List ScopeId} {result : Option Value} :
      st.scopes[id]? = some s → s.get? name = none → s.outer = some o →
      Searches st name o visited result → Searches st name id (id :: visited) result

/-- The description of a scope visits these scopes and comes to this text. -/
inductive Describes (st : Store) : ScopeId → List ScopeId → String → Prop
  | outermost {id : ScopeId} {s : Scope} : st.scopes[id]? = some s → s.outer = none →
      Describes st id [id] (s.describe none)
  | inside {id o : ScopeId} {s : Scope} {visited : List ScopeId} {text : String} :
      st.scopes[id]? = some s → s.outer = some o → Describes st o visited text →
      Describes st id (id :: visited) (s.describe (some text))

section

variable {st : Store} {id : ScopeId} {name : String} {visited visited' chain : List ScopeId}

/-- There is one way to search for a name. -/
theorem Searches.unique {r r' : Option Value} (h : Searches st name id visited r)
    (h' : Searches st name id visited' r') : visited' = visited ∧ r' = r := by
  induction h generalizing visited' with
  | found hs hv =>
      cases h' with
      | found hs' hv' => simp_all
      | missing hs' hnone _ | outwards hs' hnone _ _ => simp_all
  | missing hs hnone ho =>
      cases h' with
      | found hs' hv' => simp_all
      | missing => exact ⟨rfl, rfl⟩
      | outwards hs' _ ho' _ => simp_all
  | outwards hs hnone ho _ ih =>
      cases h' with
      | found hs' hv' => simp_all
      | missing hs' _ ho' => simp_all
      | outwards hs' _ ho' hrest =>
          obtain rfl := Option.some.inj (hs.symm.trans hs')
          obtain rfl := Option.some.inj (ho.symm.trans ho')
          obtain ⟨rfl, rfl⟩ := ih hrest
          exact ⟨rfl, rfl⟩

/-- There is one way to describe a scope. -/
theorem Describes.unique {text text' : String} (h : Describes st id visited text)
    (h' : Describes st id visited' text') : visited' = visited ∧ text' = text := by
  induction h generalizing visited' text' with
  | outermost hs ho =>
      cases h' with
      | outermost hs' _ =>
          obtain rfl := Option.some.inj (hs.symm.trans hs')
          exact ⟨rfl, rfl⟩
      | inside hs' ho' _ => simp_all
  | inside hs ho _ ih =>
      cases h' with
      | outermost hs' ho' => simp_all
      | inside hs' ho' hrest =>
          obtain rfl := Option.some.inj (hs.symm.trans hs')
          obtain rfl := Option.some.inj (ho.symm.trans ho')
          obtain ⟨rfl, rfl⟩ := ih hrest
          exact ⟨rfl, rfl⟩

/-! ## Along a chain -/

/-- The search for a name visits the first scopes of the chain, and comes to the value that the name
    has there. -/
theorem Environment.Linked.exists_searches (hl : Linked st (id :: chain)) (name : String) :
    ∃ visited, visited <+: id :: chain ∧ Searches st name id visited (st.lookup id name) := by
  generalize hlist : id :: chain = list at hl
  induction hl generalizing id chain with
  | @last id s hs ho =>
      obtain ⟨rfl, rfl⟩ := List.cons.inj hlist
      have hlookup := Store.lookup_of_getElem? hs (by simp [ho]) name
      refine ⟨[id], List.prefix_refl _, ?_⟩
      cases hget : s.get? name with
      | some v =>
          rw [hget, Option.some_or] at hlookup
          exact hlookup ▸ .found hs hget
      | none =>
          rw [hget, ho, Option.bind_none, Option.none_or] at hlookup
          exact hlookup ▸ .missing hs hget ho
  | @cons id o s outer hs ho hlt _ ih =>
      obtain ⟨rfl, rfl⟩ := List.cons.inj hlist
      have hlookup := Store.lookup_of_getElem? hs (by simpa [ho] using hlt) name
      cases hget : s.get? name with
      | some v =>
          rw [hget, Option.some_or] at hlookup
          exact ⟨[id], List.prefix_append [id] _, hlookup ▸ .found hs hget⟩
      | none =>
          rw [hget, ho, Option.bind_some, Option.none_or] at hlookup
          obtain ⟨visited, hprefix, hsearch⟩ := ih rfl
          exact ⟨id :: visited, List.cons_prefix_cons.2 ⟨rfl, hprefix⟩,
            hlookup ▸ .outwards hs hget ho hsearch⟩

/-- The description of a scope visits the whole chain. -/
theorem Environment.Linked.describes (hl : Linked st (id :: chain)) :
    Describes st id (id :: chain) (st.describe id) := by
  generalize hlist : id :: chain = list at hl
  induction hl generalizing id chain with
  | @last id s hs ho =>
      obtain ⟨rfl, rfl⟩ := List.cons.inj hlist
      rw [Store.describe_of_getElem? hs (by simp [ho]), ho]
      exact .outermost hs ho
  | @cons id o s outer hs ho hlt _ ih =>
      obtain ⟨rfl, rfl⟩ := List.cons.inj hlist
      rw [Store.describe_of_getElem? hs (by simpa [ho] using hlt), ho]
      exact .inside hs ho (ih rfl)

/-! ## Nested scopes -/

/-- Every scope has a chain, since there is no end of going to older and older scopes. -/
theorem Store.IsNested.exists_linked (h : st.IsNested) (hid : id < st.scopes.size) :
    ∃ chain, Linked st (id :: chain) := by
  induction id using Nat.strongRecOn with
  | _ id ih =>
      have hs : st.scopes[id]? = some st.scopes[id] := Array.getElem?_eq_getElem hid
      cases ho : st.scopes[id].outer with
      | none => exact ⟨[], .last hs ho⟩
      | some o =>
          have hlt : o < id := h id _ hs o ho
          obtain ⟨chain, hchain⟩ := ih o hlt (Nat.lt_trans hlt hid)
          exact ⟨o :: chain, .cons hs ho hlt hchain⟩

/-- The walks from a scope end: the description visits the scopes of a chain, none of them twice,
    and the search for a name the first of them. There is no other way to walk. -/
def Store.WalksEnd (st : Store) (id : ScopeId) : Prop :=
  ∃ chain : List ScopeId, chain.Nodup ∧
    (∀ visited text, Describes st id visited text ↔ visited = chain ∧ text = st.describe id) ∧
    ∀ name, ∃ first, first <+: chain ∧ ∀ visited result,
      Searches st name id visited result ↔ visited = first ∧ result = st.lookup id name

theorem Store.IsNested.walksEnd (h : st.IsNested) (hid : id < st.scopes.size) :
    st.WalksEnd id := by
  obtain ⟨chain, hl⟩ := h.exists_linked hid
  refine ⟨id :: chain, hl.pairwise.2.imp Nat.ne_of_gt, fun visited text => ?_, fun name => ?_⟩
  · constructor
    · exact hl.describes.unique
    · rintro ⟨rfl, rfl⟩
      exact hl.describes
  · obtain ⟨first, hprefix, hsearch⟩ := hl.exists_searches name
    refine ⟨first, hprefix, fun visited result => ⟨hsearch.unique, ?_⟩⟩
    rintro ⟨rfl, rfl⟩
    exact hsearch

end

end ConstScript
