import ConstScript.Proofs.Eval.Reachable
import ConstScript.Proofs.Value.Parts

set_option autoImplicit false

/-! # Bindings that nobody mentions

A binding is seen through its name only. If a name occurs neither in a program nor in any function
that the program can get hold of, a binding of it makes no difference: with it and without it the
program runs in lockstep with itself, under a matching that leaves the name out of its vocabulary.

What a program can get hold of is what is bound in the scopes that its own one *leads* to: the
scopes around, and those that functions refer to which are bound in one of them. -/

namespace ConstScript

/-- Everything that does not mention the name. -/
def Vocabulary.without (name : String) : Vocabulary := ⟨(· ≠ name), True, True⟩

/-! ## Names that a phrase declares -/

section

variable {voc : Vocabulary}

mutual

/-- What an expression declares is in every vocabulary that it is made of. -/
theorem Expr.names_of_declared : (e : Expr) → e.Uses voc → ∀ n ∈ e.declared, voc.names n
  | .name _, _ | .int _, _ | .str _, _ | .bool _, _ | .fn .., _ => by simp [Expr.declared]
  | .unary _ operand, huses => Expr.names_of_declared operand huses
  | .binary _ left right, huses =>
      List.forall_mem_append.2
        ⟨Expr.names_of_declared left huses.1, Expr.names_of_declared right huses.2⟩
  | .cond condition thenBlock none, huses =>
      List.forall_mem_append.2
        ⟨Expr.names_of_declared condition huses.1, Stmt.names_of_allDeclared thenBlock huses.2⟩
  | .cond condition thenBlock (some elseBlock), huses =>
      List.forall_mem_append.2 ⟨Expr.names_of_declared condition huses.1,
        List.forall_mem_append.2 ⟨Stmt.names_of_allDeclared thenBlock huses.2.1,
          Stmt.names_of_allDeclared elseBlock huses.2.2⟩⟩
  | .call callee args, huses =>
      List.forall_mem_append.2
        ⟨Expr.names_of_declared callee huses.1, Expr.names_of_allDeclared args huses.2⟩
  | .array items, huses => Expr.names_of_allDeclared items huses
  | .map pairs, huses => Expr.names_of_pairsDeclared pairs huses
  | .index collection position, huses =>
      List.forall_mem_append.2
        ⟨Expr.names_of_declared collection huses.1, Expr.names_of_declared position huses.2⟩

theorem Expr.names_of_allDeclared : (es : List Expr) → Expr.AllUse voc es →
    ∀ n ∈ Expr.allDeclared es, voc.names n
  | [], _ => by simp [Expr.allDeclared]
  | e :: es, huses =>
      List.forall_mem_append.2
        ⟨Expr.names_of_declared e huses.1, Expr.names_of_allDeclared es huses.2⟩

theorem Expr.names_of_pairsDeclared : (pairs : List (Expr × Expr)) → Expr.PairsUse voc pairs →
    ∀ n ∈ Expr.pairsDeclared pairs, voc.names n
  | [], _ => by simp [Expr.pairsDeclared]
  | (key, value) :: pairs, huses =>
      List.forall_mem_append.2 ⟨Expr.names_of_declared key huses.1,
        List.forall_mem_append.2 ⟨Expr.names_of_declared value huses.2.1,
          Expr.names_of_pairsDeclared pairs huses.2.2⟩⟩

theorem Stmt.names_of_declared : (s : Stmt) → s.Uses voc → ∀ n ∈ s.declared, voc.names n
  | .const _ value, huses =>
      List.forall_mem_append.2
        ⟨Expr.names_of_declared value huses.2, List.forall_mem_singleton.2 huses.1⟩
  | .ret value, huses => Expr.names_of_declared value huses
  | .expr e, huses => Expr.names_of_declared e huses

theorem Stmt.names_of_allDeclared : (ss : List Stmt) → Stmt.AllUse voc ss →
    ∀ n ∈ Stmt.allDeclared ss, voc.names n
  | [], _ => by simp [Stmt.allDeclared]
  | s :: ss, huses =>
      List.forall_mem_append.2
        ⟨Stmt.names_of_declared s huses.1, Stmt.names_of_allDeclared ss huses.2⟩

end

end

/-! ## What a program can get hold of -/

/-- From the first scope, a program can get hold of what the second one binds: it is the same one,
    or it lies around such a scope, or a function refers to it which such a scope binds. -/
inductive Store.Leads (st : Store) (scope : ScopeId) : ScopeId → Prop
  | self : Leads st scope scope
  | outer {i o : ScopeId} {s : Scope} :
      Leads st scope i → st.scopes[i]? = some s → s.outer = some o → Leads st scope o
  | captured {i : ScopeId} {name : String} {v : Value} {f : Closure} :
      Leads st scope i → st.getOwn? i name = some v → Value.Contains (.function f) v →
      Leads st scope f.scope

/-- No function that a program in the scope can get hold of mentions the name, be it as a parameter
    or in its body. -/
def Store.Unmentioned (st : Store) (scope : ScopeId) (name : String) : Prop :=
  ∀ (i : ScopeId) (other : String) (v : Value) (f : Closure), st.Leads scope i →
    st.getOwn? i other = some v → Value.Contains (.function f) v →
    (Expr.fn f.params f.body).Uses (.without name)

namespace Store

variable {st : Store} {scope : ScopeId} {name : String}

theorem Closed.known (hst : st.Closed) {i : ScopeId} (hi : i < st.scopes.size) {other : String}
    {v : Value} (hv : st.getOwn? i other = some v) : v.Known st := by
  have hname : Vocabulary.full.names other := trivial
  have hself := Matches.getOwn? hst ⟨rfl, hi⟩ hname
  rw [hv] at hself
  cases hself with
  | some hv => exact hv

theorem Leads.lt_size {i : ScopeId} (h : st.Leads scope i) (hst : st.Closed)
    (hscope : scope < st.scopes.size) : i < st.scopes.size := by
  induction h with
  | self => exact hscope
  | outer _ hs ho ih =>
      obtain ⟨s, -, hs', -, -, hlt, -⟩ := hst.scopes ⟨rfl, ih⟩
      obtain rfl := Option.some.inj (hs.symm.trans hs')
      exact Nat.lt_trans (hlt _ ho) ih
  | captured _ hv hf ih =>
      obtain ⟨_, hmatches⟩ := (hst.known ih hv).of_contains hf
      cases hmatches with
      | function _ hscopes _ => exact hscopes.2

/-- The matching of everything that a program in the scope can get hold of to itself. -/
def seenFrom (st : Store) (scope : ScopeId) (name : String) : Matching (.without name) where
  objects := st.toItself.objects
  scopes i j := i = j ∧ st.Leads scope i
  biUnique_objects := st.toItself.biUnique_objects
  biUnique_scopes := ⟨fun _ _ _ h h' => h.1.trans h'.1.symm, fun _ _ _ h h' => h.1.symm.trans h'.1⟩

/-- **A binding that nobody mentions cannot be seen.** The store with it matches the one without
    it. -/
theorem matches_addBinding (hst : st.Closed) (hscope : scope < st.scopes.size)
    (hname : st.Unmentioned scope name) (v : Value) :
    st.Matches (st.seenFrom scope name) (st.addBinding scope name v) := by
  refine ⟨fun hab => ⟨hab.2, hab.1 ▸ hab.2⟩, ?_⟩
  rintro i _ ⟨rfl, hi⟩
  have hlt := hi.lt_size hst hscope
  obtain ⟨s, t, hs, ht, hself, houter, -⟩ := hst.scopes ⟨rfl, hlt⟩
  obtain rfl : s = t := Option.some.inj (hs.symm.trans ht)
  have hbindings : ∀ other, other ≠ name →
      Option.Rel (Value.Matches (st.seenFrom scope name)) (s.get? other) (s.get? other) := by
    intro other _
    cases hv : s.get? other with
    | none => exact .none
    | some w =>
        have hown : st.getOwn? i other = some w := by rw [getOwn?_of_getElem? hs, hv]
        refine .some (Value.Matches.transfer ?_ (fun _ => trivial) (hst.known hlt hown) ?_)
        · exact fun _ _ hab => hab
        · exact fun f hf => ⟨hname i other w f hi hown hf, fun _ hj => ⟨hj.1, hi.captured hown hf⟩⟩
  have hmatches : OuterMatches (st.seenFrom scope name) (st.addBinding scope name v) s.outer
      s.outer := by
    cases ho : s.outer with
    | none => exact .rel .none
    | some o => exact .rel (.some ⟨rfl, hi.outer hs ho⟩)
  rw [getElem?_addBinding, hs]
  by_cases hsame : scope = i
  · rw [if_pos hsame]
    refine ⟨s, _, rfl, rfl, ⟨fun other hother => ?_, hmatches⟩, houter, houter⟩
    rw [get?_addBinding, if_neg hother]
    exact hbindings other hother
  · rw [if_neg hsame]
    exact ⟨s, s, rfl, rfl, ⟨hbindings, hmatches⟩, houter, houter⟩

end Store

/-! ## Running with the binding and without it -/

variable [Hashing]

/-- Two runs in one scope, from stores that have given out the same identities, differ in nothing
    that the programs can see: they come to the same runtime error or to values that are the same
    but for the identities of new objects, print the same text, and bind the same names. -/
structure Undisturbed (scope : ScopeId) (st st' : Store) (m : Matching .full)
    (run run' : Option Value × Store) : Prop where
  objects : ∀ a < st.objects, m.objects a a
  fresh : ∀ a b, m.objects a b → a = b ∧ a < st.objects ∨ st.objects ≤ a ∧ st'.objects ≤ b
  values : Option.Rel (Value.Matches m) run.1 run'.1
  printed : ∃ text, run.2.output = st.output ++ text ∧ run'.2.output = st'.output ++ text
  bound : ∀ name, run.2.binds scope name ∧ ¬ st.binds scope name ↔
    run'.2.binds scope name ∧ ¬ st'.binds scope name

/-- A program binds none of the names that its vocabulary leaves out. -/
theorem Program.binds_eval_of_not_names (depth : Nat) {scope : ScopeId} {p : Program}
    {voc : Vocabulary} (hp : Stmt.AllUse voc p.statements) {st : Store}
    (hscope : scope < st.scopes.size) {name : String} (hname : ¬ voc.names name)
    (hfree : ¬ st.binds scope name) : ¬ (p.eval depth scope st).2.binds scope name := by
  have hfootprint := Stmt.within_evalAll (Closure.inert_call depth) scope .null p.statements st
  have hs := Array.getElem?_eq_getElem hscope
  intro hbinds
  obtain ⟨v, hv⟩ := Option.isSome_iff_exists.1 hbinds
  have hafter : (Stmt.evalAll (Closure.call depth) scope .null p.statements).after st
      = (p.eval depth scope st).2 := by
    rw [eval_eq_outcome, Eval.after]
    cases Stmt.evalAll (Closure.call depth) scope .null p.statements st with
    | ok v st' => rfl
    | error stop st' => cases stop <;> rfl
  rw [hafter] at hfootprint
  refine hname (Stmt.names_of_allDeclared _ hp _ (hfootprint.gained _ name v hs hv ?_))
  rw [← Store.getOwn?_of_getElem? hs]
  simpa [Store.binds] using hfree

/-- **Unmentioned bindings do not interfere.** Let a name occur neither in a program nor in any
    function that the program can get hold of in a scope, which does not bind the name itself. Then
    any value can be bound to it there, and the program comes to an end with this binding iff it
    does without it; it prints the same text, ends with the same runtime error or with values that
    are the same but for the identities of new objects, and leaves the same new names bound. -/
theorem Program.eval_unmentioned {st : Store} (hst : st.Reachable) {scope : ScopeId}
    (hscope : scope < st.scopes.size) {name : String} {p : Program}
    (hp : Stmt.AllUse (.without name) p.statements) (hname : st.Unmentioned scope name)
    (hfree : ¬ st.binds scope name) (v : Value) :
    ∃ st', st.define scope name v = .ok st' ∧ (p.Diverges scope st ↔ p.Diverges scope st') ∧
      ∀ depth, ∃ m, Undisturbed scope st st' m (p.eval depth scope st) (p.eval depth scope st') := by
  have hscopes : (st.seenFrom scope name).scopes scope scope := ⟨rfl, .self⟩
  have hstores := Store.matches_addBinding hst.closed hscope hname v
  have hrun : ∀ depth, ∃ m, Undisturbed scope st (st.addBinding scope name v) m
      (p.eval depth scope st) (p.eval depth scope (st.addBinding scope name v)) := by
    intro depth
    obtain ⟨m, hadv, hvalues⟩ := (Stmt.lockstep_evalAll (Closure.lockstep_call depth) p.statements
      hp hscopes .null st _ hstores).outcome trivial
    rw [← eval_eq_outcome, ← eval_eq_outcome] at hadv hvalues
    refine ⟨m.toFull, fun a ha => hadv.le.1 a a ⟨rfl, ha⟩, fun a b hab => ?_,
      hvalues.mono fun _ _ hv => hv.toFull, hadv.printed, fun other => ?_⟩
    · exact hadv.fresh a b hab
    by_cases hother : other = name
    · subst hother
      have hnot := p.binds_eval_of_not_names depth hp hscope (fun h => h rfl) hfree
      have hbound : (st.addBinding scope other v).binds scope other := by
        rw [Store.binds, Store.getOwn?_addBinding hscope, if_pos ⟨rfl, rfl⟩]
        rfl
      simp [hnot, hbound]
    · rw [hadv.stores.binds_eq (hadv.le.2 _ _ hscopes) hother, hstores.binds_eq hscopes hother]
  refine ⟨st.addBinding scope name v, if_neg hfree, forall_congr' fun depth => ?_, hrun⟩
  obtain ⟨m, h⟩ := hrun depth
  exact h.values.eq_none_iff

omit [Hashing] in
/-- A bound function that calls a built-in one is called. The other binding has the name of another
    built-in function, and is a function itself that refers to a name which nothing binds. -/
theorem Program.eval_unmentioned_builtin :
    let _ : Hashing := .inOrder fun _ => 0
    let f : Value := .function ⟨0, ["x"], [.expr (.call (.name "length") [.name "x"])], 0⟩
    let v : Value := .function ⟨7, [], [.expr (.name "missing")], 0⟩
    let p : Program := ⟨[.const "y" (.array [.call (.name "f") [.str "ab"]]), .expr (.name "y")]⟩
    let st : Store := ⟨#[⟨[("f", f)], none⟩], 1, ""⟩
    let st' : Store := ⟨#[⟨[("push", v), ("f", f)], none⟩], 1, ""⟩
    st.Reachable ∧ Stmt.AllUse (.without "push") p.statements ∧ st.Unmentioned 0 "push" ∧
      ¬ st.binds 0 "push" ∧ st.define 0 "push" v = .ok st' ∧
      (p.eval 1 0 st').1 = some (.array 1 [.int 2]) ∧
      ∃ m, Undisturbed 0 st st' m (p.eval 1 0 st) (p.eval 1 0 st') := by
  intro _ f v p st st'
  have hopen : (Store.empty.openScope none).2.Reachable := .openScope .empty (by simp)
  have hst : st.Reachable :=
    hopen.run 0 0 ⟨[.const "f" (.fn ["x"] [.expr (.call (.name "length") [.name "x"])])]⟩
      (by decide)
  have hp : Stmt.AllUse (.without "push") p.statements := by
    simp [p, Stmt.AllUse, Stmt.Uses, Expr.AllUse, Expr.Uses, Vocabulary.without]
  have hname : st.Unmentioned 0 "push" := by
    intro i other w g _ hw hg
    have hwf : w = f := by
      obtain ⟨s, hs, hget⟩ := Store.exists_of_getOwn? hw
      cases i with
      | zero =>
          obtain rfl : Scope.mk [("f", f)] none = s := Option.some.inj hs
          simp only [Scope.get?, List.lookup_cons, List.lookup_nil] at hget
          split at hget
          · exact (Option.some.inj hget).symm
          · cases hget
      | succ i => cases hs
    rw [hwf] at hg
    change Value.Contains (.function g) (.function _) at hg
    cases hg with
    | self => simp [Stmt.AllUse, Stmt.Uses, Expr.AllUse, Expr.Uses, Vocabulary.without]
  have hfree : ¬ st.binds 0 "push" := by decide
  obtain ⟨after, hdefine, -, hrun⟩ := eval_unmentioned hst Nat.one_pos hp hname hfree v
  obtain rfl : st' = after := Except.ok.inj ((if_neg hfree).symm.trans hdefine)
  refine ⟨hst, hp, hname, hfree, hdefine, ?_, hrun 1⟩
  with_unfolding_all rfl

end ConstScript
