import ConstScript.Proofs.Eval.Growth

set_option autoImplicit false

/-! # The order of the points of an evaluation

Two points that an evaluation comes to from one point in one step are parts of the same phrase, or
the callee, the arguments and the body of one call. These are evaluated in an order, so that of two
different ones one has been evaluated before the other one is reached. What follows is this for each
form of phrase; that stores are only extended carries it over the parts in between. -/

namespace ConstScript

/-- Two ways to point at an item of a list point at the same one, or at one before the other. -/
theorem append_cons_cases {α : Type} {before before' rest rest' : List α} {a a' : α}
    (h : before ++ a :: rest = before' ++ a' :: rest') :
    (before = before' ∧ a = a' ∧ rest = rest') ∨ (∃ mid, before' = before ++ a :: mid) ∨
      ∃ mid, before = before' ++ a' :: mid := by
  induction before generalizing before' with
  | nil =>
      cases before' with
      | nil =>
          obtain ⟨rfl, rfl⟩ := List.cons.inj h
          exact .inl ⟨rfl, rfl, rfl⟩
      | cons b before' =>
          obtain ⟨rfl, rfl⟩ := List.cons.inj h
          exact .inr (.inl ⟨before', rfl⟩)
  | cons b before ih =>
      cases before' with
      | nil =>
          obtain ⟨rfl, rfl⟩ := List.cons.inj h
          exact .inr (.inr ⟨before, rfl⟩)
      | cons b' before' =>
          obtain ⟨rfl, hrest⟩ := List.cons.inj h
          rcases ih hrest with ⟨rfl, rfl, rfl⟩ | ⟨mid, rfl⟩ | ⟨mid, rfl⟩
          · exact .inl ⟨rfl, rfl, rfl⟩
          · exact .inr (.inl ⟨mid, rfl⟩)
          · exact .inr (.inr ⟨mid, rfl⟩)

open Eval Relation

variable [Hashing]

section

variable {call : Closure → List Value → Eval Value} {depth : Nat} {scope : ScopeId} {st : Store}
  {m m₁ m₂ : Moment}

/-! ## Parts -/

theorem Inside.of_array {items : List Expr} (h : Inside call scope ⟨.expr (.array items), st⟩ m) :
    ∃ before e rest vs st', items = before ++ e :: rest ∧
      Expr.evalAll call scope before st = .ok vs st' ∧ m = ⟨.expr e, st'⟩ := by
  generalize hm : Moment.mk (.expr (.array items)) st = m' at h
  cases h with
  | item before hbefore =>
      cases hm
      exact ⟨before, _, _, _, _, rfl, hbefore, rfl⟩
  | _ => cases hm

theorem Inside.of_block {ss : List Stmt} (h : Inside call scope ⟨.block ss, st⟩ m) :
    ∃ before s rest v st', ss = before ++ s :: rest ∧
      Stmt.evalAll call scope .null before st = .ok v st' ∧ m = ⟨.stmt s, st'⟩ := by
  generalize hm : Moment.mk (.block ss) st = m' at h
  cases h with
  | statement before hbefore =>
      cases hm
      exact ⟨before, _, _, _, _, rfl, hbefore, rfl⟩
  | _ => cases hm

theorem Inside.of_call {f : Expr} {args : List Expr}
    (h : Inside call scope ⟨.expr (.call f args), st⟩ m) :
    m = ⟨.expr f, st⟩ ∨ ∃ v st' before e rest vs st'', f.eval call scope st = .ok v st' ∧
      args = before ++ e :: rest ∧ Expr.evalAll call scope before st' = .ok vs st'' ∧
      m = ⟨.expr e, st''⟩ := by
  generalize hm : Moment.mk (.expr (.call f args)) st = m' at h
  cases h with
  | callee =>
      cases hm
      exact .inl rfl
  | argument before hf hbefore =>
      cases hm
      exact .inr ⟨_, _, before, _, _, _, _, hf, rfl, hbefore, rfl⟩
  | _ => cases hm

/-- The key or the value of a pair that is reached in the store. -/
inductive InPair (call : Closure → List Value → Eval Value) (scope : ScopeId) (k e : Expr)
    (st : Store) : Moment → Prop
  | key : InPair call scope k e st ⟨.expr k, st⟩
  | value {v : Value} {st' : Store} : k.eval call scope st = .ok v st' → v.toKey?.isSome →
      InPair call scope k e st ⟨.expr e, st'⟩

theorem Inside.of_map {pairs : List (Expr × Expr)}
    (h : Inside call scope ⟨.expr (.map pairs), st⟩ m) :
    ∃ before k e rest puts st', pairs = before ++ (k, e) :: rest ∧
      Expr.evalPairs call scope [] before st = .ok puts st' ∧ InPair call scope k e st' m := by
  generalize hm : Moment.mk (.expr (.map pairs)) st = m' at h
  cases h with
  | key before hbefore =>
      cases hm
      exact ⟨before, _, _, _, _, _, rfl, hbefore, .key⟩
  | value before hbefore hk hkey =>
      cases hm
      exact ⟨before, _, _, _, _, _, rfl, hbefore, .value hk hkey⟩
  | _ => cases hm

/-! ## The order of parts -/

/-- The evaluation from the first moment is over when the second one comes, and what it has left
    behind is there. -/
def Moment.Before (depth : Nat) (scope : ScopeId) (m₁ m₂ : Moment) : Prop :=
  (m₁.after depth scope).Extends m₂.store

theorem before_of_ok {v : Value} {st' : Store}
    (h : m₁.task.eval (Closure.call depth) scope m₁.store = .ok v st')
    (hextends : st'.Extends m₂.store) : m₁.Before depth scope m₂ := by
  rw [Moment.Before, Moment.after, after_of_ok h]
  exact hextends

theorem before_item {e : Expr} {t : Task} {before mid : List Expr} {vs vs' : List Value}
    {st' st'' : Store}
    (h : Expr.evalAll (Closure.call depth) scope before st = .ok vs st')
    (h' : Expr.evalAll (Closure.call depth) scope (before ++ e :: mid) st = .ok vs' st'') :
    (Moment.mk (.expr e) st').Before depth scope ⟨t, st''⟩ := by
  have hextends := Expr.extends_evalAll h e mid
  rwa [after_of_ok h'] at hextends

theorem before_statement {s : Stmt} {t : Task} {before mid : List Stmt} {v v' : Value}
    {st' st'' : Store}
    (h : Stmt.evalAll (Closure.call depth) scope .null before st = .ok v st')
    (h' : Stmt.evalAll (Closure.call depth) scope .null (before ++ s :: mid) st = .ok v' st'') :
    (Moment.mk (.stmt s) st').Before depth scope ⟨t, st''⟩ := by
  have hextends := Stmt.extends_evalAll h s mid
  rwa [after_of_ok h'] at hextends

theorem InPair.extends_store {k e : Expr} (h : InPair (Closure.call depth) scope k e st m) :
    st.Extends m.store := by
  cases h with
  | key => exact .refl _
  | value hk _ => exact (Expr.grows_eval depth scope k).of_ok hk

theorem InPair.extends_evalPairs {k e : Expr} {before : List (Expr × Expr)}
    {puts puts' : List (Entry Value)} {st' : Store}
    (h : InPair (Closure.call depth) scope k e st' m)
    (hbefore : Expr.evalPairs (Closure.call depth) scope puts before st = .ok puts' st')
    (rest : List (Expr × Expr)) :
    (m.after depth scope).Extends
      ((Expr.evalPairs (Closure.call depth) scope puts (before ++ (k, e) :: rest)).after st) := by
  cases h with
  | key => exact Expr.extends_evalPairs_key hbefore k e rest
  | value hk hkey => exact Expr.extends_evalPairs_value hbefore hk hkey e rest

theorem before_pair {k e : Expr} {before mid : List (Expr × Expr)}
    {puts puts' : List (Entry Value)} {st' st'' : Store}
    (h : Expr.evalPairs (Closure.call depth) scope [] before st = .ok puts st')
    (h' : Expr.evalPairs (Closure.call depth) scope [] (before ++ (k, e) :: mid) st
      = .ok puts' st'')
    (hm : InPair (Closure.call depth) scope k e st' m) (hextends : st''.Extends m₂.store) :
    m.Before depth scope m₂ := by
  refine Store.Extends.trans ?_ hextends
  rw [← after_of_ok h']
  exact hm.extends_evalPairs h mid

theorem InPair.comparable {k e : Expr} (h₁ : InPair (Closure.call depth) scope k e st m₁)
    (h₂ : InPair (Closure.call depth) scope k e st m₂) :
    m₁ = m₂ ∨ m₁.Before depth scope m₂ ∨ m₂.Before depth scope m₁ := by
  cases h₁ with
  | key => cases h₂ with
    | key => exact .inl rfl
    | value hk _ => exact .inr (.inl (before_of_ok hk (.refl _)))
  | value hk _ => cases h₂ with
    | key => exact .inr (.inr (before_of_ok hk (.refl _)))
    | value hk' _ =>
        obtain ⟨-, rfl⟩ := ok_unique hk hk'
        exact .inl rfl

theorem Inside.comparable_map {pairs : List (Expr × Expr)}
    (h₁ : Inside (Closure.call depth) scope ⟨.expr (.map pairs), st⟩ m₁)
    (h₂ : Inside (Closure.call depth) scope ⟨.expr (.map pairs), st⟩ m₂) :
    m₁ = m₂ ∨ m₁.Before depth scope m₂ ∨ m₂.Before depth scope m₁ := by
  obtain ⟨before, k, e, rest, puts, st', rfl, hbefore, hm₁⟩ := h₁.of_map
  obtain ⟨before', k', e', rest', puts', st'', hpairs, hbefore', hm₂⟩ := h₂.of_map
  rcases append_cons_cases hpairs with ⟨rfl, hpair, -⟩ | ⟨mid, rfl⟩ | ⟨mid, rfl⟩
  · obtain ⟨rfl, rfl⟩ := Prod.mk.inj hpair
    obtain ⟨-, rfl⟩ := ok_unique hbefore hbefore'
    exact hm₁.comparable hm₂
  · exact .inr (.inl (before_pair hbefore hbefore' hm₁ hm₂.extends_store))
  · exact .inr (.inr (before_pair hbefore' hbefore hm₂ hm₁.extends_store))

/-- Two parts of a phrase are the same, or one has been evaluated before the other. -/
theorem Inside.comparable (h₁ : Inside (Closure.call depth) scope m m₁)
    (h₂ : Inside (Closure.call depth) scope m m₂) :
    m₁ = m₂ ∨ m₁.Before depth scope m₂ ∨ m₂.Before depth scope m₁ := by
  cases h₁ with
  | operand => cases h₂ with
    | operand => exact .inl rfl
  | initializer => cases h₂ with
    | initializer => exact .inl rfl
  | returned => cases h₂ with
    | returned => exact .inl rfl
  | expression => cases h₂ with
    | expression => exact .inl rfl
  | left => cases h₂ with
    | left => exact .inl rfl
    | right hl => exact .inr (.inl (before_of_ok hl (.refl _)))
  | right hl => cases h₂ with
    | left => exact .inr (.inr (before_of_ok hl (.refl _)))
    | right hl' =>
        obtain ⟨rfl, rfl⟩ := ok_unique hl hl'
        exact .inl rfl
  | collection => cases h₂ with
    | collection => exact .inl rfl
    | position hc => exact .inr (.inl (before_of_ok hc (.refl _)))
  | position hc => cases h₂ with
    | collection => exact .inr (.inr (before_of_ok hc (.refl _)))
    | position hc' =>
        obtain ⟨rfl, rfl⟩ := ok_unique hc hc'
        exact .inl rfl
  | condition => cases h₂ with
    | condition => exact .inl rfl
    | thenBlock hc _ | elseBlock hc _ => exact .inr (.inl (before_of_ok hc (.refl _)))
  | thenBlock hc htrue => cases h₂ with
    | condition => exact .inr (.inr (before_of_ok hc (.refl _)))
    | thenBlock hc' _ =>
        obtain ⟨rfl, rfl⟩ := ok_unique hc hc'
        exact .inl rfl
    | elseBlock hc' hfalse =>
        obtain ⟨rfl, rfl⟩ := ok_unique hc hc'
        exact absurd htrue hfalse
  | elseBlock hc hfalse => cases h₂ with
    | condition => exact .inr (.inr (before_of_ok hc (.refl _)))
    | thenBlock hc' htrue =>
        obtain ⟨rfl, rfl⟩ := ok_unique hc hc'
        exact absurd htrue hfalse
    | elseBlock hc' _ =>
        obtain ⟨rfl, rfl⟩ := ok_unique hc hc'
        exact .inl rfl
  | callee =>
      rcases h₂.of_call with rfl | ⟨v, st', before, e, rest, vs, st'', hf, -, hbefore, rfl⟩
      · exact .inl rfl
      · exact .inr (.inl (before_of_ok hf ((Expr.grows_evalAll depth scope before).of_ok hbefore)))
  | argument before hf hbefore =>
      rcases h₂.of_call with rfl | ⟨v, st', before', e, rest, vs, st'', hf', hargs, hbefore', rfl⟩
      · exact .inr (.inr (before_of_ok hf ((Expr.grows_evalAll depth scope before).of_ok hbefore)))
      · obtain ⟨-, rfl⟩ := ok_unique hf hf'
        rcases append_cons_cases hargs with ⟨rfl, rfl, -⟩ | ⟨mid, rfl⟩ | ⟨mid, rfl⟩
        · obtain ⟨-, rfl⟩ := ok_unique hbefore hbefore'
          exact .inl rfl
        · exact .inr (.inl (before_item hbefore hbefore'))
        · exact .inr (.inr (before_item hbefore' hbefore))
  | item before hbefore =>
      obtain ⟨before', e, rest, vs, st', hitems, hbefore', rfl⟩ := h₂.of_array
      rcases append_cons_cases hitems with ⟨rfl, rfl, -⟩ | ⟨mid, rfl⟩ | ⟨mid, rfl⟩
      · obtain ⟨-, rfl⟩ := ok_unique hbefore hbefore'
        exact .inl rfl
      · exact .inr (.inl (before_item hbefore hbefore'))
      · exact .inr (.inr (before_item hbefore' hbefore))
  | key before hbefore => exact Inside.comparable_map (.key before hbefore) h₂
  | value before hbefore hk hkey =>
      exact Inside.comparable_map (.value before hbefore hk hkey) h₂
  | statement before hbefore =>
      obtain ⟨before', s, rest, v, st', hss, hbefore', rfl⟩ := h₂.of_block
      rcases append_cons_cases hss with ⟨rfl, rfl, -⟩ | ⟨mid, rfl⟩ | ⟨mid, rfl⟩
      · obtain ⟨-, rfl⟩ := ok_unique hbefore hbefore'
        exact .inl rfl
      · exact .inr (.inl (before_statement hbefore hbefore'))
      · exact .inr (.inr (before_statement hbefore' hbefore))

end

/-! ## The order of points -/

namespace Point

/-- The evaluation from the first point is over when the second one is reached, and what it has left
    behind is there. -/
def Before (p q : Point) : Prop := p.after.Extends q.moment.store

/-- One of the points is on the way to the other, or over before the other is reached. -/
def Comparable (p q : Point) : Prop :=
  ReflTransGen Step p q ∨ ReflTransGen Step q p ∨ p.Before q ∨ q.Before p

variable {r p q : Point}

/-- The callee and the arguments of a call come before its body. -/
theorem Enters.before {depth : Nat} {scope : ScopeId} {m m' : Moment}
    (h : Enters ⟨depth, scope, m⟩ q) (hm : Inside (Closure.call depth) scope m m') :
    Before ⟨depth, scope, m'⟩ q := by
  cases h with
  | @body depth _ _ _ args f _ _ _ _ _ hcallee hargs henter =>
      have hentered := Grows.of_ok (stable_grows.enter f _) henter
      rcases hm.of_call with rfl | ⟨v, st', before, e, rest, vs, st'', hf, rfl, hbefore, rfl⟩
      · refine before_of_ok hcallee (Store.Extends.trans ?_ hentered)
        exact (Expr.grows_evalAll (depth + 1) scope args).of_ok hargs
      · obtain ⟨-, rfl⟩ := ok_unique hcallee hf
        refine Store.Extends.trans ?_ hentered
        rw [← after_of_ok hargs]
        exact Expr.extends_evalAll hbefore e rest

theorem Enters.unique (hp : r.Enters p) (hq : r.Enters q) : p = q := by
  cases hp with
  | body f hcallee hargs henter => cases hq with
    | body g hcallee' hargs' henter' =>
        obtain ⟨hf, rfl⟩ := ok_unique hcallee hcallee'
        obtain rfl := Value.function.inj hf
        obtain ⟨rfl, rfl⟩ := ok_unique hargs hargs'
        obtain ⟨rfl, rfl⟩ := ok_unique henter henter'
        rfl

/-- From one point, the evaluation comes to others one after another. -/
theorem Step.comparable (hp : r.Step p) (hq : r.Step q) : p = q ∨ p.Before q ∨ q.Before p := by
  cases hp with
  | inside hp => cases hq with
    | inside hq =>
        rcases hp.comparable hq with rfl | h | h
        · exact .inl rfl
        · exact .inr (.inl h)
        · exact .inr (.inr h)
    | enters hq => exact .inr (.inl (hq.before hp))
  | enters hp => cases hq with
    | inside hq => exact .inr (.inr (hp.before hq))
    | enters hq => exact .inl (hp.unique hq)

/-- What is on the way to the first point, or to the second, does not stand between them. -/
theorem Before.of_reaches {p' q' : Point} (h : p.Before q) (hp : ReflTransGen Step p p')
    (hq : ReflTransGen Step q q') : p'.Before q' :=
  (extends_of_reaches hp).2.trans (Store.Extends.trans h (extends_of_reaches hq).1)

/-- **One thing after another.** All points that an evaluation comes to can be compared. -/
theorem comparable_of_reaches (hp : ReflTransGen Step r p) (hq : ReflTransGen Step r q) :
    p.Comparable q := by
  -- The two paths are the same up to where they part, and there one comes first.
  induction hp using ReflTransGen.head_induction_on with
  | refl => exact .inl hq
  | head hstep hp ih =>
      rcases hq.cases_head with rfl | ⟨c, hstep', hq⟩
      · exact .inr (.inl (.head hstep hp))
      · rcases hstep.comparable hstep' with rfl | hbefore | hbefore
        · exact ih hq
        · exact .inr (.inr (.inl (hbefore.of_reaches hp hq)))
        · exact .inr (.inr (.inr (hbefore.of_reaches hq hp)))

end Point

end ConstScript
