import ConstScript.Proofs.Eval.Reachable
import Mathlib.Data.List.Nodup

set_option autoImplicit false

/-! # Definitions in any order

A function literal is evaluated without a look at its body, and the function refers to its scope,
not to what that scope bound at the time. So definitions of functions leave the same bindings
behind in whatever order they come; only the numbers of the function objects differ. These match,
and whatever is run afterwards goes in lockstep. -/

namespace ConstScript

/-- The definition of a function: a statement `const name = fn(params) body`. -/
structure Definition where
  name : String
  params : List String
  body : List Stmt

/-- The definition as a statement. -/
def Definition.stmt (d : Definition) : Stmt :=
  .const d.name (.fn d.params d.body)

/-- The function that is defined, as the object of the given number. -/
def Definition.value (d : Definition) (id : ObjectId) (scope : ScopeId) : Value :=
  .function ⟨id, d.params, d.body, scope⟩

/-- A program with definitions before it. -/
def Program.withDefinitions (ds : List Definition) (p : Program) : Program :=
  ⟨ds.map Definition.stmt ++ p.statements⟩

/-! ## The store after the definitions -/

namespace Store

variable {st : Store} {scope : ScopeId} {ds ds' : List Definition}

/-- The store after one definition. -/
def withFunction (st : Store) (scope : ScopeId) (d : Definition) : Store :=
  st.freshObject.2.addBinding scope d.name (d.value st.objects scope)

/-- The store after definitions, in order. -/
def withFunctions (st : Store) (scope : ScopeId) (ds : List Definition) : Store :=
  ds.foldl (fun st d => st.withFunction scope d) st

theorem binds_withFunction (hscope : scope < st.scopes.size) {d : Definition} {name : String}
    (h : name ≠ d.name) : (st.withFunction scope d).binds scope name = st.binds scope name := by
  have hsize : scope < st.freshObject.2.scopes.size := hscope
  rw [withFunction, binds, getOwn?_addBinding hsize, if_neg fun hand => h hand.2]
  rfl

@[simp] theorem size_withFunction (st : Store) (scope : ScopeId) (d : Definition) :
    (st.withFunction scope d).scopes.size = st.scopes.size := by
  simp [withFunction, addBinding, freshObject]

@[simp] theorem objects_withFunctions (st : Store) (scope : ScopeId) (ds : List Definition) :
    (st.withFunctions scope ds).objects = st.objects + ds.length := by
  induction ds generalizing st with
  | nil => rfl
  | cons d ds ih =>
      rw [withFunctions, List.foldl_cons, ← withFunctions, ih, List.length_cons]
      show st.objects + 1 + ds.length = _
      omega

@[simp] theorem output_withFunctions (st : Store) (scope : ScopeId) (ds : List Definition) :
    (st.withFunctions scope ds).output = st.output := by
  induction ds generalizing st with
  | nil => rfl
  | cons d ds ih => exact ih (st.withFunction scope d)

/-- The other scopes stay as they are. -/
theorem getElem?_withFunctions_of_ne {id : ScopeId} (h : id ≠ scope) :
    (st.withFunctions scope ds).scopes[id]? = st.scopes[id]? := by
  induction ds generalizing st with
  | nil => rfl
  | cons d ds ih =>
      rw [withFunctions, List.foldl_cons, ← withFunctions, ih, withFunction, getElem?_addBinding,
        if_neg (Ne.symm h)]
      rfl

/-- The scope binds the names to the functions, which are numbered in order, and all other names as
    before. -/
theorem getElem?_withFunctions {s : Scope} (hs : st.scopes[scope]? = some s)
    (hnames : (ds.map Definition.name).Nodup) :
    ∃ s', (st.withFunctions scope ds).scopes[scope]? = some s' ∧ s'.outer = s.outer ∧
      (∀ (i : Nat) (d : Definition), ds[i]? = some d →
        s'.get? d.name = some (d.value (st.objects + i) scope)) ∧
      ∀ name, name ∉ ds.map Definition.name → s'.get? name = s.get? name := by
  induction ds generalizing st s with
  | nil => exact ⟨s, hs, rfl, by simp, by simp⟩
  | cons d ds ih =>
      obtain ⟨hfirst, hrest⟩ := List.nodup_cons.1 hnames
      have hs₁ : (st.withFunction scope d).scopes[scope]?
          = some { s with bindings := (d.name, d.value st.objects scope) :: s.bindings } := by
        rw [withFunction, getElem?_addBinding, if_pos rfl]
        show (st.scopes[scope]?).map _ = _
        rw [hs, Option.map_some]
      obtain ⟨s', hs', houter, hbound, hother⟩ := ih hs₁ hrest
      refine ⟨s', hs', houter, ?_, ?_⟩
      · intro i e he
        cases i with
        | zero =>
            obtain rfl : d = e := by simpa using he
            rw [hother d.name hfirst, get?_addBinding, if_pos rfl]
            rfl
        | succ i =>
            rw [hbound i e (by simpa using he)]
            show some (e.value (st.objects + 1 + i) scope) = _
            rw [Nat.add_assoc, Nat.add_comm 1 i]
      · intro name hname
        obtain ⟨hne, hnot⟩ := not_or.1 (mt List.mem_cons.2 hname)
        rw [hother name hnot, get?_addBinding, if_neg hne]

end Store

/-! ## Evaluating the definitions -/

variable [Hashing]

theorem Definition.eval_stmt (call : Closure → List Value → Eval Value) {scope : ScopeId}
    {st : Store} {d : Definition} (h : ¬ st.binds scope d.name) :
    d.stmt.eval call scope st = .ok .null (st.withFunction scope d) := by
  have hfree : ¬ st.freshObject.2.binds scope d.name := h
  have hdefine : Eval.define scope d.name (d.value st.objects scope) st.freshObject.2
      = .ok () (st.withFunction scope d) := by
    refine (Eval.define_run _ _ _ _).trans ?_
    rw [Store.define, if_neg hfree]
    rfl
  have hvalue : (Expr.fn d.params d.body).eval call scope st
      = .ok (d.value st.objects scope) st.freshObject.2 := rfl
  rw [Definition.stmt, Stmt.eval, Eval.bind_of_ok hvalue, Eval.bind_of_ok hdefine]
  rfl

/-- Definitions of names that are free and distinct do not fail. -/
theorem Definition.evalAll_stmts (call : Closure → List Value → Eval Value) {scope : ScopeId}
    {st : Store} (hscope : scope < st.scopes.size) {ds : List Definition}
    (hnames : (ds.map Definition.name).Nodup) (hfree : ∀ d ∈ ds, ¬ st.binds scope d.name) :
    Stmt.evalAll call scope .null (ds.map Definition.stmt) st
      = .ok .null (st.withFunctions scope ds) := by
  induction ds generalizing st with
  | nil => rfl
  | cons d ds ih =>
      obtain ⟨hfirst, hrest⟩ := List.nodup_cons.1 hnames
      have hstep := Definition.eval_stmt call (hfree d List.mem_cons_self)
      rw [List.map_cons, Stmt.evalAll, Eval.bind_of_ok hstep]
      refine ih (by rwa [Store.size_withFunction]) hrest fun e he => ?_
      have hne : e.name ≠ d.name := fun heq => hfirst (heq ▸ List.mem_map_of_mem he)
      rw [Store.binds_withFunction hscope hne]
      exact hfree e (List.mem_cons_of_mem d he)

/-- A program after definitions is run in the store that they leave behind. -/
theorem Program.eval_withDefinitions (depth : Nat) {scope : ScopeId} {st : Store}
    (hscope : scope < st.scopes.size) {ds : List Definition}
    (hnames : (ds.map Definition.name).Nodup) (hfree : ∀ d ∈ ds, ¬ st.binds scope d.name)
    (p : Program) :
    (p.withDefinitions ds).eval depth scope st
      = p.eval depth scope (st.withFunctions scope ds) := by
  have hdefinitions := Definition.evalAll_stmts (Closure.call depth) hscope hnames hfree
  rw [eval_eq_outcome, eval_eq_outcome, withDefinitions, Stmt.evalAll_append,
    Eval.bind_of_ok hdefinitions]

/-! ## Another order -/

section

omit [Hashing]

/-- Numbers that are given to the same definition in two orders of definitions, from `n` on. -/
def Definition.Corresponds (n : Nat) (ds ds' : List Definition) (a b : Nat) : Prop :=
  ∃ (i j : Nat) (d : Definition),
    ds[i]? = some d ∧ ds'[j]? = some d ∧ a = n + i ∧ b = n + j

theorem Definition.biUnique_corresponds (n : Nat) {ds ds' : List Definition} (hds : ds.Nodup)
    (hds' : ds'.Nodup) : Relator.BiUnique (Corresponds n ds ds') := by
  constructor
  · rintro a a' b ⟨i, j, d, hi, hj, rfl, rfl⟩ ⟨i', j', d', hi', hj', rfl, hb⟩
    obtain rfl : j = j' := Nat.add_left_cancel hb
    obtain rfl : d = d' := Option.some.inj (hj.symm.trans hj')
    have hlt : i < ds.length := (List.getElem?_eq_some_iff.1 hi).1
    rw [(List.getElem?_inj hlt hds).1 (hi.trans hi'.symm)]
  · rintro a b b' ⟨i, j, d, hi, hj, rfl, rfl⟩ ⟨i', j', d', hi', hj', ha, rfl⟩
    obtain rfl : i = i' := Nat.add_left_cancel ha
    obtain rfl : d = d' := Option.some.inj (hi.symm.trans hi')
    have hlt : j < ds'.length := (List.getElem?_eq_some_iff.1 hj).1
    rw [(List.getElem?_inj hlt hds').1 (hj.trans hj'.symm)]

theorem Definition.Corresponds.bounds {n a b : Nat} {ds ds' : List Definition}
    (h : Corresponds n ds ds' a b) :
    (n ≤ a ∧ a < n + ds.length) ∧ n ≤ b ∧ b < n + ds'.length := by
  obtain ⟨i, j, d, hi, hj, rfl, rfl⟩ := h
  have hlt : i < ds.length := (List.getElem?_eq_some_iff.1 hi).1
  have hlt' : j < ds'.length := (List.getElem?_eq_some_iff.1 hj).1
  omega

namespace Store

variable {st : Store} {scope : ScopeId} {ds ds' : List Definition}

/-- Everything in a store matches itself, and of the functions that are defined in two orders those
    match that have the same definition. -/
def reordered (st : Store) {ds ds' : List Definition} (hnames : (ds.map Definition.name).Nodup)
    (hnames' : (ds'.map Definition.name).Nodup) : Matching .full where
  objects a b := st.toItself.objects a b ∨ Definition.Corresponds st.objects ds ds' a b
  scopes := st.toItself.scopes
  biUnique_objects :=
    Matching.biUnique_or st.toItself.biUnique_objects
      (Definition.biUnique_corresponds st.objects hnames.of_map hnames'.of_map)
      (fun _ _ h => ⟨h.2, h.1 ▸ h.2⟩) (fun _ _ h => ⟨h.bounds.1.1, h.bounds.2.1⟩)
  biUnique_scopes := st.toItself.biUnique_scopes

theorem toItself_le_reordered (hnames : (ds.map Definition.name).Nodup)
    (hnames' : (ds'.map Definition.name).Nodup) : st.toItself ≤ st.reordered hnames hnames' :=
  ⟨fun _ _ => .inl, fun _ _ h => h⟩

/-- **The order of definitions cannot be seen.** The stores after them match in any two orders. -/
theorem matches_withFunctions (hst : st.Closed) (hscope : scope < st.scopes.size)
    (hnames : (ds.map Definition.name).Nodup) (hnames' : (ds'.map Definition.name).Nodup)
    (hperm : ds.Perm ds') :
    (st.withFunctions scope ds).Matches (st.reordered hnames hnames')
      (st.withFunctions scope ds') where
  objects_lt := by
    rw [objects_withFunctions, objects_withFunctions]
    rintro a b (⟨rfl, ha⟩ | hab)
    · exact ⟨Nat.lt_add_right _ ha, Nat.lt_add_right _ ha⟩
    · exact ⟨hab.bounds.1.2, hab.bounds.2.2⟩
  scopes := by
    intro i j hij
    obtain ⟨s, t, hs, ht, hself, hlt, hlt'⟩ := hst.scopes hij
    obtain ⟨rfl, -⟩ := hij
    obtain rfl : s = t := Option.some.inj (hs.symm.trans ht)
    have hle : st.toItself ≤ st.reordered hnames hnames' := toItself_le_reordered hnames hnames'
    have hbindings : ∀ name, Option.Rel (Value.Matches (st.reordered hnames hnames'))
        (s.get? name) (s.get? name) :=
      fun name => (hself.bindings name trivial).mono fun _ _ hv => hv.mono hle
    have houter : OuterMatches (st.reordered hnames hnames') (st.withFunctions scope ds') s.outer
        s.outer := .rel (hself.outer.left fun _ _ h => ⟨rfl, h.2⟩)
    by_cases hi : i = scope
    · subst hi
      obtain ⟨s₁, hs₁, houter₁, hbound₁, hother₁⟩ := getElem?_withFunctions hs hnames
      obtain ⟨s₂, hs₂, houter₂, hbound₂, hother₂⟩ := getElem?_withFunctions hs hnames'
      refine ⟨s₁, s₂, hs₁, hs₂, ⟨fun name _ => ?_, ?_⟩, by rwa [houter₁], by rwa [houter₂]⟩
      · by_cases hdefined : name ∈ ds.map Definition.name
        · -- Both orders bind the name to the function that has the same definition.
          obtain ⟨d, hd, rfl⟩ := List.mem_map.1 hdefined
          obtain ⟨k, hk⟩ := List.mem_iff_getElem?.1 hd
          obtain ⟨l, hl⟩ := List.mem_iff_getElem?.1 (hperm.mem_iff.1 hd)
          rw [hbound₁ k d hk, hbound₂ l d hl]
          exact .some (.function (.inr ⟨k, l, d, hk, hl, rfl, rfl⟩) ⟨rfl, hscope⟩
            (Expr.uses_full _))
        · have hdefined' : name ∉ ds'.map Definition.name := by
            rwa [← (hperm.map Definition.name).mem_iff]
          rw [hother₁ name hdefined, hother₂ name hdefined']
          exact hbindings name
      · rwa [houter₁, houter₂]
    · rw [getElem?_withFunctions_of_ne hi, getElem?_withFunctions_of_ne hi]
      exact ⟨s, s, hs, hs, ⟨fun name _ => hbindings name, houter⟩, hlt, hlt⟩

end Store

end

/-- **Definitions commute.** In any environment that can come about, for definitions of functions
    under distinct names none of which the scope binds yet, and whatever program comes after them:
    in another order of the definitions the program comes to an end iff it does in this one, it
    prints the same text, and it ends with the same runtime error or with values that are the same
    but for the identities of new objects, so that they have the same text. What was there before
    keeps its identity. -/
theorem Program.eval_perm_definitions {st : Store} (hst : st.Reachable) {scope : ScopeId}
    (hscope : scope < st.scopes.size) {ds ds' : List Definition}
    (hnames : (ds.map Definition.name).Nodup) (hfree : ∀ d ∈ ds, ¬ st.binds scope d.name)
    (hperm : ds.Perm ds') (p : Program) :
    ((p.withDefinitions ds).Diverges scope st ↔ (p.withDefinitions ds').Diverges scope st) ∧
      ∀ depth, ∃ m, (∀ a < st.objects, m.objects a a) ∧ (∀ i < st.scopes.size, m.scopes i i) ∧
        (∀ a b, m.objects a b → a = b ∧ a < st.objects ∨ st.objects ≤ a ∧ st.objects ≤ b) ∧
        Agree m st st ((p.withDefinitions ds).eval depth scope st)
          ((p.withDefinitions ds').eval depth scope st) ∧
        ((p.withDefinitions ds).eval depth scope st).1.map Value.text
          = ((p.withDefinitions ds').eval depth scope st).1.map Value.text := by
  have hnames' : (ds'.map Definition.name).Nodup := (hperm.map _).nodup_iff.1 hnames
  have hfree' : ∀ d ∈ ds', ¬ st.binds scope d.name := fun d hd => hfree d (hperm.mem_iff.2 hd)
  have hstores := Store.matches_withFunctions hst.closed hscope hnames hnames' hperm
  have hsame : (st.reordered hnames hnames').scopes scope scope := ⟨rfl, hscope⟩
  have hrun : ∀ depth, (p.withDefinitions ds).eval depth scope st
      = p.eval depth scope (st.withFunctions scope ds) :=
    fun depth => eval_withDefinitions depth hscope hnames hfree p
  have hrun' : ∀ depth, (p.withDefinitions ds').eval depth scope st
      = p.eval depth scope (st.withFunctions scope ds') :=
    fun depth => eval_withDefinitions depth hscope hnames' hfree' p
  simp only [Diverges, hrun, hrun']
  refine ⟨forall_congr' fun depth => ?_, fun depth => ?_⟩
  · obtain ⟨m, -, h⟩ := p.agree depth hstores hsame
    exact h.eq_none_iff
  · obtain ⟨m, hadv, h⟩ := p.agree depth hstores hsame
    refine ⟨m, fun a ha => hadv.le.1 a a (.inl ⟨rfl, ha⟩), fun i hi => hadv.le.2 i i ⟨rfl, hi⟩,
      fun a b hab => ?_, ⟨h.values, h.stores, by simpa using h.printed⟩, h.text_eq⟩
    rcases hadv.fresh a b hab with (hold | hnew) | ⟨ha, hb⟩
    · exact .inl hold
    · exact .inr ⟨hnew.bounds.1.1, hnew.bounds.2.1⟩
    · rw [Store.objects_withFunctions] at ha hb
      exact .inr ⟨Nat.le_of_add_right_le ha, Nat.le_of_add_right_le hb⟩

omit [Hashing] in
/-- Two functions each of which refers to the other, and a call that returns one of them: it is
    another object when it is defined second. -/
theorem Program.eval_perm_definitions_mutual :
    let _ : Hashing := .inOrder fun _ => 0
    let f : Definition := ⟨"f", [], [.expr (.call (.name "g") [])]⟩
    let g : Definition :=
      ⟨"g", [], [.expr (.array [.name "f", .binary .equal (.name "f") (.name "g")])]⟩
    let p : Program := ⟨[.expr (.call (.name "f") [])]⟩
    let st : Store := ⟨#[⟨[], none⟩], 0, ""⟩
    st.Reachable ∧
      ((p.withDefinitions [f, g]).eval 2 0 st).1 = some (.array 2 [f.value 0 0, .bool false]) ∧
      ((p.withDefinitions [g, f]).eval 2 0 st).1 = some (.array 2 [f.value 1 0, .bool false]) ∧
      ∃ m, m.scopes 0 0 ∧ Agree m st st ((p.withDefinitions [f, g]).eval 2 0 st)
        ((p.withDefinitions [g, f]).eval 2 0 st) := by
  intro _ f g p st
  have hst : st.Reachable := .openScope .empty (by simp)
  have hnames : ([f, g].map Definition.name).Nodup := by decide
  have hfree : ∀ d ∈ [f, g], ¬ st.binds 0 d.name := by decide
  obtain ⟨-, hagree⟩ := eval_perm_definitions hst Nat.one_pos hnames hfree (.swap g f []) p
  obtain ⟨m, -, hscopes, -, h, -⟩ := hagree 2
  refine ⟨hst, ?_, ?_, m, hscopes 0 Nat.one_pos, h⟩
  · with_unfolding_all rfl
  · with_unfolding_all rfl

end ConstScript
