import ConstScript.Proofs.Scope.Chain
import ConstScript.Proofs.Text.ByteOrder
import ConstScript.Scope.Describe
import Mathlib.Data.List.Sort

set_option autoImplicit false

/-! # What the description of a scope shows

The names of a scope are kept in the order in which they were bound, and are sorted when the scope
is described. A list that is strictly increasing is determined by what is in it. So what is shown of
a scope depends on which names it binds and on nothing else: neither on the order in which they were
bound, nor on the values.

`Store.Shows` says what the text is without a sorting procedure and without the values. -/

namespace ConstScript

/-! ## The names of a scope -/

namespace Scope

variable {s : Scope} {name : String}

theorem get?_eq_none_iff : s.get? name = none ↔ name ∉ s.names := by
  rw [get?, List.lookup_eq_none_iff, names, List.mem_map]
  constructor
  · rintro h ⟨b, hb, rfl⟩
    simpa using h b hb
  · intro h b hb
    exact bne_iff_ne.2 fun heq => h ⟨b, hb, heq.symm⟩

theorem mem_sortedNames : name ∈ s.sortedNames ↔ (s.get? name).isSome := by
  rw [sortedNames, (List.mergeSort_perm _ _).mem_iff, Option.isSome_iff_ne_none, Ne,
    get?_eq_none_iff, not_not]

/-- The sorted names increase strictly, byte by byte, if none is there twice. -/
theorem pairwise_sortedNames (h : s.names.Nodup) :
    s.sortedNames.Pairwise fun a b => utf8Bytes a < utf8Bytes b := by
  have hperm : s.sortedNames.Perm s.names := List.mergeSort_perm _ _
  have hle : s.sortedNames.Pairwise fun a b => a ≤ b := by
    have hsorted := List.pairwise_mergeSort
      (show ∀ a b c : String, decide (a ≤ b) → decide (b ≤ c) → decide (a ≤ c) by
        simpa using fun a b c => String.le_trans)
      (show ∀ a b : String, decide (a ≤ b) || decide (b ≤ a) by simpa using String.le_total)
      s.names
    rw [sortedNames]
    simpa using hsorted
  refine (hle.and (hperm.nodup_iff.2 h)).imp fun hab => ?_
  exact (utf8Bytes_lt_iff _ _).2 (lt_of_le_of_ne hab.1 hab.2)

theorem describe_none (s : Scope) : s.describe none =
    "Environment \x7b bindings: [" ++ joinWith ", " (s.sortedNames.map quoted) ++
      "], outer: None \x7d" := by
  have htail : "], outer: None \x7d" = "], outer: " ++ ("None" ++ " \x7d") := by
    simp only [String.reduceAppend]
  rw [htail]
  unfold describe
  dsimp only
  simp only [String.append_assoc]

theorem describe_some (s : Scope) (text : String) : s.describe (some text) =
    "Environment \x7b bindings: [" ++ joinWith ", " (s.sortedNames.map quoted) ++
      "], outer: Some(" ++ text ++ ") \x7d" := by
  have hopen : "], outer: Some(" = "], outer: " ++ "Some(" := by simp only [String.reduceAppend]
  have hclose : ") \x7d" = ")" ++ " \x7d" := by simp only [String.reduceAppend]
  rw [hopen, hclose]
  unfold describe
  dsimp only
  simp only [String.append_assoc]

end Scope

/-! ## Stores -/

namespace Store

/-- Every scope lies in one that was created before it. -/
def IsNested (st : Store) : Prop :=
  ∀ (id : ScopeId) (s : Scope), st.scopes[id]? = some s → ∀ o ∈ s.outer, o < id

/-- No scope binds a name twice. -/
def BindsOnce (st : Store) : Prop :=
  ∀ (id : ScopeId) (s : Scope), st.scopes[id]? = some s → s.names.Nodup

/-- The same scopes are there in both stores, inside the same ones. -/
def SameLinks (st st' : Store) : Prop :=
  ∀ id : ScopeId, st.scopes[id]?.map Scope.outer = st'.scopes[id]?.map Scope.outer

/-- The names that a scope binds are these, each of them once, in the order of their bytes. -/
structure Lists (st : Store) (id : ScopeId) (names : List String) : Prop where
  increasing : names.Pairwise fun a b => utf8Bytes a < utf8Bytes b
  mem_iff : ∀ name, name ∈ names ↔ st.binds id name

/-- The text shows the names of a scope, each of them once, in the order of their bytes, and inside
    it the text of the scope around it, down to the scope that no other encloses. -/
inductive Shows (st : Store) : ScopeId → String → Prop
  | outermost {id : ScopeId} {s : Scope} {names : List String} : st.scopes[id]? = some s →
      s.outer = none → st.Lists id names →
      Shows st id ("Environment \x7b bindings: [" ++ joinWith ", " (names.map quoted) ++
        "], outer: None \x7d")
  | inside {id o : ScopeId} {s : Scope} {names : List String} {text : String} :
      st.scopes[id]? = some s → s.outer = some o → st.Lists id names → Shows st o text →
      Shows st id ("Environment \x7b bindings: [" ++ joinWith ", " (names.map quoted) ++
        "], outer: Some(" ++ text ++ ") \x7d")

section

variable {st st' : Store} {id : ScopeId} {s : Scope} {names names' : List String}
  {text text' : String}

/-- The description of a scope is put together from its own names and the description of the scope
    around it. -/
theorem describe_of_getElem? (hs : st.scopes[id]? = some s) (houter : ∀ o ∈ s.outer, o < id) :
    st.describe id = s.describe (s.outer.map st.describe) := by
  rw [describe, chain_of_getElem? hs houter, describeChain, Option.getD_some]
  cases ho : s.outer with
  | none => rfl
  | some o =>
      -- The scope around this one was created before it, so it is there.
      have hsize : o < st.scopes.size :=
        Nat.lt_trans (houter o ho) (Array.getElem?_eq_some_iff.1 hs).1
      have hchain : st.chain o ≠ [] := by
        rw [chain, Array.getElem?_eq_getElem hsize]
        exact List.cons_ne_nil _ _
      rw [Option.map_some, Option.getD_some, Option.map_some, describe]
      obtain ⟨t, ts, hts⟩ := List.exists_cons_of_ne_nil hchain
      rw [hts, describeChain, Option.getD_some]

/-- The sorted names are those that the scope binds. -/
theorem BindsOnce.lists (h : st.BindsOnce) (hs : st.scopes[id]? = some s) :
    st.Lists id s.sortedNames where
  increasing := Scope.pairwise_sortedNames (h id s hs)
  mem_iff name := by rw [Scope.mem_sortedNames, binds, getOwn?_of_getElem? hs]

/-- There is one list of the names that a scope binds. -/
theorem Lists.unique (h : st.Lists id names) (h' : st.Lists id names') : names = names' := by
  have hnodup : ∀ {l : List String},
      l.Pairwise (fun a b => utf8Bytes a < utf8Bytes b) → l.Nodup :=
    fun hl => hl.imp fun {a b} hab (heq : a = b) => List.lt_irrefl _ (heq ▸ hab)
  have hperm : names.Perm names' :=
    (List.perm_ext_iff_of_nodup (hnodup h.increasing) (hnodup h'.increasing)).2 fun name =>
      (h.mem_iff name).trans (h'.mem_iff name).symm
  exact hperm.eq_of_pairwise
    (fun a b _ _ hab hba => absurd (List.lt_trans hab hba) (List.lt_irrefl _))
    h.increasing h'.increasing

/-- There is one text that shows the names of a scope. -/
theorem Shows.unique (h : st.Shows id text) (h' : st.Shows id text') : text = text' := by
  induction h generalizing text' with
  | outermost hs ho hnames =>
      cases h' with
      | outermost _ _ hnames' => rw [hnames.unique hnames']
      | inside hs' ho' _ _ => simp_all
  | inside hs ho hnames _ ih =>
      cases h' with
      | outermost hs' ho' _ => simp_all
      | inside hs' ho' hnames' htext =>
          obtain rfl := Option.some.inj (hs.symm.trans hs')
          obtain rfl := Option.some.inj (ho.symm.trans ho')
          rw [hnames.unique hnames', ih htext]

theorem SameLinks.symm (h : st.SameLinks st') : st'.SameLinks st :=
  fun id => (h id).symm

theorem SameLinks.trans {st'' : Store} (h : st.SameLinks st') (h' : st'.SameLinks st'') :
    st.SameLinks st'' :=
  fun id => (h id).trans (h' id)

theorem SameLinks.lt_size_iff (h : st.SameLinks st') :
    id < st.scopes.size ↔ id < st'.scopes.size := by
  have hnone : st.scopes[id]? = none ↔ st'.scopes[id]? = none := by
    rw [← Option.map_eq_none_iff, h id, Option.map_eq_none_iff]
  rw [Array.getElem?_eq_none_iff, Array.getElem?_eq_none_iff] at hnone
  rw [← Nat.not_le, ← Nat.not_le, hnone]

/-- A scope is in both stores, inside the same scope. -/
theorem SameLinks.exists_scope (h : st.SameLinks st') (hs : st.scopes[id]? = some s) :
    ∃ s', st'.scopes[id]? = some s' ∧ s'.outer = s.outer := by
  have hlink := h id
  rw [hs, Option.map_some] at hlink
  exact Option.map_eq_some_iff.1 hlink.symm

theorem SameLinks.isNested (h : st.SameLinks st') (hnested : st.IsNested) : st'.IsNested := by
  intro id s' hs' o ho
  obtain ⟨s, hs, houter⟩ := h.symm.exists_scope hs'
  exact hnested id s hs o (houter ▸ ho)

/-- The text that shows the names of a scope is determined by the scopes and their names. -/
theorem Shows.congr (h : st.Shows id text) (hlinks : st.SameLinks st')
    (hbinds : ∀ id name, st.binds id name = st'.binds id name) : st'.Shows id text := by
  have hlists : ∀ {id : ScopeId} {names : List String}, st.Lists id names →
      st'.Lists id names := fun hnames =>
    ⟨hnames.increasing, fun name => by rw [hnames.mem_iff name, hbinds]⟩
  induction h with
  | outermost hs ho hnames =>
      obtain ⟨s', hs', ho'⟩ := hlinks.exists_scope hs
      exact .outermost hs' (ho'.trans ho) (hlists hnames)
  | inside hs ho hnames _ ih =>
      obtain ⟨s', hs', ho'⟩ := hlinks.exists_scope hs
      exact .inside hs' (ho'.trans ho) (hlists hnames) ih

/-- The description of a scope shows the names. -/
theorem shows_describe (hnested : st.IsNested) (honce : st.BindsOnce)
    (hid : id < st.scopes.size) : st.Shows id (st.describe id) := by
  induction id using Nat.strongRecOn with
  | _ id ih =>
      have hs : st.scopes[id]? = some st.scopes[id] := Array.getElem?_eq_getElem hid
      have houter := hnested id _ hs
      have hlists := honce.lists hs
      rw [describe_of_getElem? hs houter]
      cases ho : st.scopes[id].outer with
      | none =>
          rw [Option.map_none, Scope.describe_none]
          exact .outermost hs ho hlists
      | some o =>
          have hlt : o < id := houter o ho
          rw [Option.map_some, Scope.describe_some]
          exact .inside hs ho hlists (ih o hlt (Nat.lt_trans hlt hid))

theorem describe_of_size_le (hid : st.scopes.size ≤ id) : st.describe id = "" := by
  rw [describe, chain, Array.getElem?_eq_none hid]
  rfl

/-- Stores with the same scopes and the same names in them are described alike. -/
theorem SameLinks.describe_eq (h : st.SameLinks st') (hnested : st.IsNested)
    (honce : st.BindsOnce) (hnested' : st'.IsNested) (honce' : st'.BindsOnce)
    (hbinds : ∀ id name, st.binds id name = st'.binds id name) (id : ScopeId) :
    st.describe id = st'.describe id := by
  by_cases hid : id < st.scopes.size
  · have hshows := (shows_describe hnested honce hid).congr h hbinds
    exact hshows.unique (shows_describe hnested' honce' (h.lt_size_iff.1 hid))
  · rw [describe_of_size_le (Nat.le_of_not_lt hid),
      describe_of_size_le (Nat.le_of_not_lt (mt h.lt_size_iff.2 hid))]

/-- Stores with the same scopes and the same bindings in them give the same values to names. -/
theorem SameLinks.lookup_eq (h : st.SameLinks st') (hnested : st.IsNested)
    (hown : ∀ id name, st.getOwn? id name = st'.getOwn? id name) (id : ScopeId) (name : String) :
    st.lookup id name = st'.lookup id name := by
  induction id using Nat.strongRecOn with
  | _ id ih =>
      cases hs : st.scopes[id]? with
      | none =>
          have hs' : st'.scopes[id]? = none := by
            rw [← Option.map_eq_none_iff, ← h id, hs, Option.map_none]
          rw [lookup, lookup, chain, chain, hs, hs']
      | some s =>
          obtain ⟨s', hs', ho'⟩ := h.exists_scope hs
          have houter := hnested id s hs
          have hget : s.get? name = s'.get? name := by
            rw [← getOwn?_of_getElem? hs, ← getOwn?_of_getElem? hs', hown]
          rw [lookup_of_getElem? hs houter, lookup_of_getElem? hs' (by rwa [ho']), hget, ho']
          refine congrArg _ (Option.bind_congr fun o ho => ih o (houter o ho))

end

end Store

end ConstScript
