import ConstScript.Proofs.Scope.Chain
import ConstScript.Proofs.Value.Matching

set_option autoImplicit false

/-! # Stores that differ in their numbering only

Two stores *match* if the scopes that correspond bind the same names to matching values, and lie in
scopes that correspond as well. Scopes and identities to which nothing corresponds may be anything:
they are what an evaluation that only has the others cannot reach. Where they are reached after all,
as outer scopes, they are *passed over*, which cannot be seen if they bind nothing.

Each operation on stores takes matching ones to matching ones, under the same matching or one with a
new pair. `Store.Advance` says so, together with what else two evaluations have in common that do
the same operations: they print the same text, and what is new for one is new for the other. -/

namespace ConstScript

/-! ## Matching stores -/

section

variable {voc : Vocabulary} (m : Matching voc)

/-- The scope `j` binds none of the names of the vocabulary, and no scope corresponds to it. -/
structure Store.PassesOver (st : Store) (j : ScopeId) (t : Scope) : Prop where
  getElem? : st.scopes[j]? = some t
  unbound : ∀ name, voc.names name → t.get? name = none
  unmatched : ∀ i, ¬ m.scopes i j
  outer_lt : ∀ o ∈ t.outer, o < j

/-- Two scopes correspond, or neither is there, after some scopes of the second store that are
    passed over. -/
inductive OuterMatches (st : Store) : Option ScopeId → Option ScopeId → Prop where
  | rel {x y : Option ScopeId} : Option.Rel m.scopes x y → OuterMatches st x y
  | pass {x : Option ScopeId} {j : ScopeId} {t : Scope} : st.PassesOver m j t →
      OuterMatches st x t.outer → OuterMatches st x (some j)

/-- Two scopes bind the same names of the vocabulary, to matching values, and lie in corresponding
    scopes, or in none. -/
structure Scope.Matches (st' : Store) (s t : Scope) : Prop where
  bindings : ∀ name, voc.names name → Option.Rel (Value.Matches m) (s.get? name) (t.get? name)
  outer : OuterMatches m st' s.outer t.outer

/-- What corresponds is there in both stores, and scopes that correspond match. Their outer scopes
    were created before them. -/
structure Store.Matches (st st' : Store) : Prop where
  objects_lt : ∀ {a b : ObjectId}, m.objects a b → a < st.objects ∧ b < st'.objects
  scopes : ∀ {i j : ScopeId}, m.scopes i j →
    ∃ s t, st.scopes[i]? = some s ∧ st'.scopes[j]? = some t ∧ s.Matches m st' t ∧
      (∀ o ∈ s.outer, o < i) ∧ ∀ p ∈ t.outer, p < j

/-- The second two stores come from the first two by the same operations, with what they created
    added to the matching. -/
structure Store.Advance (m m' : Matching voc) (st st' after after' : Store) : Prop where
  le : m ≤ m'
  stores : after.Matches m' after'
  printed : ∃ text, after.output = st.output ++ text ∧ after'.output = st'.output ++ text
  grows : st.objects ≤ after.objects ∧ st'.objects ≤ after'.objects
  /-- Identities of old objects get no new partner. -/
  fresh : ∀ a b, m'.objects a b → m.objects a b ∨ st.objects ≤ a ∧ st'.objects ≤ b
  /-- If no scope was without a partner, none is. -/
  covers : (∀ i < st.scopes.size, ∃ j, m.scopes i j) →
    ∀ i < after.scopes.size, ∃ j, m'.scopes i j

end

variable {voc : Vocabulary} {m m' m'' : Matching voc} {st st' after after' : Store}

/-- Outer scopes still match if the matching is extended and what was passed over still can be. -/
theorem OuterMatches.mono {x y : Option ScopeId} (h : OuterMatches m st' x y) (hle : m ≤ m')
    (hpass : ∀ j t, st'.PassesOver m j t → after'.PassesOver m' j t) :
    OuterMatches m' after' x y := by
  induction h with
  | rel h => exact .rel (h.mono hle.2)
  | pass hj _ ih => exact .pass (hpass _ _ hj) ih

theorem OuterMatches.left {x y : Option ScopeId} (h : OuterMatches m st' x y)
    {r : ScopeId → ScopeId → Prop} (hr : ∀ i j, m.scopes i j → r i i) : Option.Rel r x x := by
  induction h with
  | rel h => exact h.left hr
  | pass _ _ ih => exact ih

theorem Scope.Matches.mono {s t : Scope} (h : s.Matches m st' t) (hle : m ≤ m')
    (hpass : ∀ j t, st'.PassesOver m j t → after'.PassesOver m' j t) :
    s.Matches m' after' t where
  bindings name hname := (h.bindings name hname).mono fun _ _ hv => hv.mono hle
  outer := h.outer.mono hle hpass

/-! ### Looking names up -/

namespace Store.Matches

variable {i j : ScopeId} {name : String}

theorem getOwn? (h : st.Matches m st') (hij : m.scopes i j) (hname : voc.names name) :
    Option.Rel (Value.Matches m) (st.getOwn? i name) (st'.getOwn? j name) := by
  obtain ⟨s, t, hs, ht, hst, -, -⟩ := h.scopes hij
  rw [getOwn?_of_getElem? hs, getOwn?_of_getElem? ht]
  exact hst.bindings name hname

theorem binds_eq (h : st.Matches m st') (hij : m.scopes i j) (hname : voc.names name) :
    st.binds i name = st'.binds j name :=
  (h.getOwn? hij hname).isSome_eq

/-- What is passed over is not seen when a name is looked up. -/
theorem lookup_outer (hname : voc.names name) {x y : Option ScopeId} (h : OuterMatches m st' x y)
    (hlookup : ∀ i ∈ x, ∀ j, m.scopes i j →
      Option.Rel (Value.Matches m) (st.lookup i name) (st'.lookup j name)) :
    Option.Rel (Value.Matches m) (x.bind fun i => st.lookup i name)
      (y.bind fun j => st'.lookup j name) := by
  induction h with
  | rel h => exact h.bind hlookup
  | pass hj _ ih =>
      rw [Option.bind_some, lookup_of_getElem? hj.getElem? hj.outer_lt, hj.unbound name hname,
        Option.none_or]
      exact ih

/-- A name has matching values in corresponding scopes, or none in either. -/
theorem lookup (h : st.Matches m st') (hij : m.scopes i j) (hname : voc.names name) :
    Option.Rel (Value.Matches m) (st.lookup i name) (st'.lookup j name) := by
  induction i using Nat.strongRecOn generalizing j with
  | _ i ih =>
      obtain ⟨s, t, hs, ht, hst, hlt, hlt'⟩ := h.scopes hij
      rw [lookup_of_getElem? hs hlt, lookup_of_getElem? ht hlt']
      exact (hst.bindings name hname).or
        (lookup_outer hname hst.outer fun o ho p hop => ih o (hlt o ho) hop)

end Store.Matches

/-! ## Advancing -/

namespace Store.Advance

theorem refl (h : st.Matches m st') : Advance m m st st' st st' where
  le := le_refl m
  stores := h
  printed := ⟨"", by simp⟩
  grows := ⟨Nat.le_refl _, Nat.le_refl _⟩
  fresh _ _ := Or.inl
  covers := id

theorem trans {mid mid' : Store} (h : Advance m m' st st' mid mid')
    (h' : Advance m' m'' mid mid' after after') : Advance m m'' st st' after after' where
  le := h.le.trans h'.le
  stores := h'.stores
  printed := by
    obtain ⟨text, ht, ht'⟩ := h.printed
    obtain ⟨more, hm, hm'⟩ := h'.printed
    exact ⟨text ++ more, by rw [hm, ht, String.append_assoc], by rw [hm', ht', String.append_assoc]⟩
  grows := ⟨Nat.le_trans h.grows.1 h'.grows.1, Nat.le_trans h.grows.2 h'.grows.2⟩
  fresh a b hab := by
    rcases h'.fresh a b hab with hab | ⟨ha, hb⟩
    · exact h.fresh a b hab
    · exact .inr ⟨Nat.le_trans h.grows.1 ha, Nat.le_trans h.grows.2 hb⟩
  covers hall := h'.covers (h.covers hall)

end Store.Advance

namespace Store.Matches

variable {i j : ScopeId}

theorem scope_lt (h : st.Matches m st') (hij : m.scopes i j) :
    i < st.scopes.size ∧ j < st'.scopes.size := by
  obtain ⟨s, t, hs, ht, -⟩ := h.scopes hij
  exact ⟨(Array.getElem?_eq_some_iff.1 hs).1, (Array.getElem?_eq_some_iff.1 ht).1⟩

/-- Printing the same text. -/
theorem print (h : st.Matches m st') (text : String) :
    Advance m m st st' (st.print text) (st'.print text) where
  le := le_refl m
  stores := by
    refine ⟨h.objects_lt, fun hij => ?_⟩
    obtain ⟨s, t, hs, ht, hst, hlt⟩ := h.scopes hij
    exact ⟨s, t, hs, ht, hst.mono (le_refl m) fun _ _ hj => { hj with }, hlt⟩
  printed := ⟨text, rfl, rfl⟩
  grows := ⟨Nat.le_refl _, Nat.le_refl _⟩
  fresh _ _ := Or.inl
  covers := id

/-- Giving out an identity on both sides. -/
theorem freshObject (h : st.Matches m st') :
    ∃ m', Advance m m' st st' st.freshObject.2 st'.freshObject.2 ∧
      m'.objects st.freshObject.1 st'.freshObject.1 := by
  have hnew : ∀ y, ¬ m.objects st.objects y :=
    fun y hy => Nat.lt_irrefl _ (h.objects_lt hy).1
  have hnew' : ∀ x, ¬ m.objects x st'.objects :=
    fun x hx => Nat.lt_irrefl _ (h.objects_lt hx).2
  have hle := m.le_addObject st.objects st'.objects hnew hnew'
  have hstores : st.freshObject.2.Matches (m.addObject st.objects st'.objects hnew hnew')
      st'.freshObject.2 := by
    constructor
    · intro a b hab
      rcases hab with hab | ⟨rfl, rfl⟩
      · exact ⟨Nat.lt_succ_of_lt (h.objects_lt hab).1, Nat.lt_succ_of_lt (h.objects_lt hab).2⟩
      · exact ⟨Nat.lt_succ_self _, Nat.lt_succ_self _⟩
    · intro i j hij
      obtain ⟨s, t, hs, ht, hst, hlt⟩ := h.scopes hij
      exact ⟨s, t, hs, ht, hst.mono hle fun _ _ hj => { hj with }, hlt⟩
  have hadv : Advance m (m.addObject st.objects st'.objects hnew hnew') st st' st.freshObject.2
      st'.freshObject.2 := {
    le := hle
    stores := hstores
    printed := ⟨"", String.append_empty.symm, String.append_empty.symm⟩
    grows := ⟨Nat.le_succ _, Nat.le_succ _⟩
    fresh := fun a b hab =>
      hab.imp_right fun ⟨ha, hb⟩ => ⟨Nat.le_of_eq ha.symm, Nat.le_of_eq hb.symm⟩
    covers := id }
  exact ⟨_, hadv, .inr ⟨rfl, rfl⟩⟩

/-- Opening a scope on both sides, inside corresponding ones. -/
theorem openScope (h : st.Matches m st') {outer outer' : Option ScopeId}
    (houter : Option.Rel m.scopes outer outer') :
    ∃ m', Advance m m' st st' (st.openScope outer).2 (st'.openScope outer').2 ∧
      m'.scopes (st.openScope outer).1 (st'.openScope outer').1 := by
  have hnew : ∀ y, ¬ m.scopes st.scopes.size y :=
    fun y hy => Nat.lt_irrefl _ (h.scope_lt hy).1
  have hnew' : ∀ x, ¬ m.scopes x st'.scopes.size :=
    fun x hx => Nat.lt_irrefl _ (h.scope_lt hx).2
  have hle := m.le_addScope st.scopes.size st'.scopes.size hnew hnew'
  have hstores : (st.openScope outer).2.Matches
      (m.addScope st.scopes.size st'.scopes.size hnew hnew') (st'.openScope outer').2 := by
    have hpass : ∀ j t, st'.PassesOver m j t → (st'.openScope outer').2.PassesOver
        (m.addScope st.scopes.size st'.scopes.size hnew hnew') j t := by
      intro j t hj
      refine { hj with
        getElem? := (st'.openScope_spec outer').1 j t hj.getElem?
        unmatched := ?_ }
      rintro i (hij | ⟨rfl, rfl⟩)
      · exact hj.unmatched i hij
      · exact Nat.lt_irrefl _ (Array.getElem?_eq_some_iff.1 hj.getElem?).1
    refine ⟨h.objects_lt, fun {i j} hij => ?_⟩
    rcases hij with hij | ⟨rfl, rfl⟩
    · obtain ⟨s, t, hs, ht, hst, hlt⟩ := h.scopes hij
      exact ⟨s, t, (st.openScope_spec outer).1 i s hs, (st'.openScope_spec outer').1 j t ht,
        hst.mono hle hpass, hlt⟩
    · refine ⟨⟨[], outer⟩, ⟨[], outer'⟩, Array.getElem?_push_size, Array.getElem?_push_size,
        ⟨fun _ _ => .none, .rel (houter.mono hle.2)⟩, ?_⟩
      -- The outer scopes correspond, so both are there already.
      cases houter with
      | none => simp
      | some hop => simpa using h.scope_lt hop
  have hadv : Advance m (m.addScope st.scopes.size st'.scopes.size hnew hnew') st st'
      (st.openScope outer).2 (st'.openScope outer').2 := {
    le := hle
    stores := hstores
    printed := ⟨"", String.append_empty.symm, String.append_empty.symm⟩
    grows := ⟨Nat.le_refl _, Nat.le_refl _⟩
    fresh := fun _ _ => .inl
    covers := fun hall i hi => by
      rcases Nat.lt_succ_iff_lt_or_eq.1 (by simpa [Store.openScope] using hi) with hlt | rfl
      · obtain ⟨j, hij⟩ := hall i hlt
        exact ⟨j, .inl hij⟩
      · exact ⟨st'.scopes.size, .inr ⟨rfl, rfl⟩⟩ }
  exact ⟨_, hadv, .inr ⟨rfl, rfl⟩⟩

/-- Adding bindings of one name to corresponding scopes. -/
theorem addBinding (h : st.Matches m st') (hij : m.scopes i j) (name : String) {v w : Value}
    (hv : v.Matches m w) :
    Advance m m st st' (st.addBinding i name v) (st'.addBinding j name w) where
  le := le_refl m
  stores := by
    have hpass : ∀ j' t, st'.PassesOver m j' t →
        (st'.addBinding j name w).PassesOver m j' t := by
      intro j' t hj'
      have hne : j ≠ j' := by
        rintro rfl
        exact hj'.unmatched i hij
      refine { hj' with getElem? := ?_ }
      rw [getElem?_addBinding, if_neg hne, hj'.getElem?]
    refine ⟨h.objects_lt, fun {i' j'} hij' => ?_⟩
    obtain ⟨s, t, hs, ht, hst, hlt⟩ := h.scopes hij'
    have hsame := hst.mono (le_refl m) hpass
    rw [getElem?_addBinding, getElem?_addBinding, hs, ht]
    by_cases hi : i = i'
    · have hj : j = j' := (Relator.rel_eq m.biUnique_scopes hij hij').1 hi
      rw [if_pos hi, if_pos hj]
      refine ⟨_, _, rfl, rfl, ⟨fun name' hname => ?_, hsame.outer⟩, hlt⟩
      rw [get?_addBinding, get?_addBinding]
      split
      · exact .some hv
      · exact hst.bindings name' hname
    · have hj : j ≠ j' := fun hj => hi ((Relator.rel_eq m.biUnique_scopes hij hij').2 hj)
      rw [if_neg hi, if_neg hj]
      exact ⟨s, t, rfl, rfl, hsame, hlt⟩
  printed := ⟨"", String.append_empty.symm, String.append_empty.symm⟩
  grows := ⟨Nat.le_refl _, Nat.le_refl _⟩
  fresh _ _ := Or.inl
  covers hall i' hi' := hall i' (by simpa [Store.addBinding] using hi')

end Store.Matches

end ConstScript
