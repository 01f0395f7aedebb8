import Mathlib
import ConstScript.Syntax.Basic

set_option autoImplicit false

/-! # How a chain of binary operators nests

An expression is written as operands with binary operators between them. `nest` says which tree this
denotes without reading from left to right: the chain is split at its **loosest** operator, at the
last one if there are several of that level, and both sides nest in the same way.

Reading goes by another rule. It takes an operator with as much of what follows as binds more
tightly, and goes on with the result as the left operand. `nest_absorb` ties the two together: what
an operator takes in that way can be put into the first operand. -/

namespace ConstScript

/-- A binary operator and the operand after it. -/
structure Link where
  op : BinaryOp
  operand : Expr

/-- The level of the operator of a link. -/
def Link.precedence (l : Link) : Precedence := l.op.precedence

namespace Precedence

theorem lt_trans {a b c : Precedence} (hab : a < b) (hbc : b < c) : a < c :=
  Nat.lt_trans hab hbc

theorem lt_of_lt_of_not_lt {a b c : Precedence} (hab : a < b) (hcb : ¬ c < b) : a < c :=
  Nat.lt_of_lt_of_le hab (Nat.le_of_not_lt hcb)

theorem lt_of_not_lt_of_lt {a b c : Precedence} (hba : ¬ b < a) (hbc : b < c) : a < c :=
  Nat.lt_of_le_of_lt (Nat.le_of_not_lt hba) hbc

theorem not_lt_trans {a b c : Precedence} (hab : ¬ a < b) (hbc : ¬ b < c) : ¬ a < c :=
  Nat.not_lt.2 (Nat.le_trans (Nat.le_of_not_lt hbc) (Nat.le_of_not_lt hab))

theorem lt_irrefl (a : Precedence) : ¬ a < a := Nat.lt_irrefl _

end Precedence

/-- No binary operator binds more tightly than a prefix operator. -/
theorem BinaryOp.not_unary_lt_precedence (op : BinaryOp) : ¬ .unary < op.precedence := by
  cases op <;> decide

theorem BinaryOp.lowest_lt_precedence (op : BinaryOp) : .lowest < op.precedence := by
  cases op <;> decide

/-! ## The loosest operator -/

/-- The last link of the loosest level in a chain, with the links before it and after it. -/
def loosest : List Link → Option (List Link × Link × List Link)
  | [] => none
  | l :: ls =>
    match loosest ls with
    | none => some ([], l, [])
    | some (before, m, after) =>
      if l.precedence < m.precedence then some ([], l, ls) else some (l :: before, m, after)

theorem loosest_eq_none {ls : List Link} (h : loosest ls = none) : ls = [] := by
  cases ls with
  | nil => rfl
  | cons l ls =>
      simp only [loosest] at h
      split at h
      · exact absurd h (by simp)
      · split at h <;> exact absurd h (by simp)

/-- The loosest operator splits its chain: none before it is looser, all after it are tighter. -/
theorem loosest_spec {ls before after : List Link} {m : Link}
    (h : loosest ls = some (before, m, after)) :
    ls = before ++ m :: after ∧ (∀ l ∈ before, ¬ l.precedence < m.precedence) ∧
      ∀ l ∈ after, m.precedence < l.precedence := by
  induction ls generalizing before m after with
  | nil => simp [loosest] at h
  | cons l ls ih =>
      simp only [loosest] at h
      split at h
      · next hnone =>
        simp only [Option.some.injEq, Prod.mk.injEq] at h
        obtain ⟨rfl, rfl, rfl⟩ := h
        simp [loosest_eq_none hnone]
      · next before' m' after' hsome =>
        obtain ⟨rfl, hbefore, hafter⟩ := ih hsome
        split at h
        · next hlt =>
          simp only [Option.some.injEq, Prod.mk.injEq] at h
          obtain ⟨rfl, rfl, rfl⟩ := h
          refine ⟨rfl, by simp, ?_⟩
          intro k hk
          rw [List.mem_append, List.mem_cons] at hk
          rcases hk with hk | rfl | hk
          · exact Precedence.lt_of_lt_of_not_lt hlt (hbefore k hk)
          · exact hlt
          · exact Precedence.lt_trans hlt (hafter k hk)
        · next hge =>
          simp only [Option.some.injEq, Prod.mk.injEq] at h
          obtain ⟨rfl, rfl, rfl⟩ := h
          refine ⟨rfl, ?_, hafter⟩
          intro k hk
          rcases List.mem_cons.1 hk with rfl | hk
          · exact hge
          · exact hbefore k hk

/-- The split is the only one of its kind. -/
theorem loosest_append_cons {before after : List Link} {m : Link}
    (hbefore : ∀ l ∈ before, ¬ l.precedence < m.precedence)
    (hafter : ∀ l ∈ after, m.precedence < l.precedence) :
    loosest (before ++ m :: after) = some (before, m, after) := by
  induction before with
  | nil =>
      simp only [List.nil_append, loosest]
      split
      · next hnone => rw [loosest_eq_none hnone]
      · next before' m' after' hsome =>
        have hm' : m' ∈ after := by
          rw [(loosest_spec hsome).1]
          simp
        rw [if_pos (hafter m' hm')]
  | cons l before ih =>
      have hl := hbefore l List.mem_cons_self
      rw [List.cons_append, loosest, ih (fun k hk => hbefore k (List.mem_cons_of_mem _ hk))]
      simp only [if_neg hl]

theorem length_before_lt {ls before after : List Link} {m : Link}
    (h : loosest ls = some (before, m, after)) : before.length < ls.length := by
  rw [(loosest_spec h).1, List.length_append, List.length_cons]
  omega

theorem length_after_lt {ls before after : List Link} {m : Link}
    (h : loosest ls = some (before, m, after)) : after.length < ls.length := by
  rw [(loosest_spec h).1, List.length_append, List.length_cons]
  omega

/-! ## The tree of a chain -/

/-- The tree of a chain of binary operators with the operand `first` before it: the loosest
    operator, the last one of its level, is the root. -/
def nest (first : Expr) (ls : List Link) : Expr :=
  match h : loosest ls with
  | none => first
  | some (before, m, after) =>
    have := length_before_lt h
    have := length_after_lt h
    .binary m.op (nest first before) (nest m.operand after)
termination_by ls.length

@[simp] theorem nest_nil (first : Expr) : nest first [] = first := by
  unfold nest
  rfl

theorem nest_append_cons (first : Expr) {before after : List Link} {m : Link}
    (hbefore : ∀ l ∈ before, ¬ l.precedence < m.precedence)
    (hafter : ∀ l ∈ after, m.precedence < l.precedence) :
    nest first (before ++ m :: after)
      = .binary m.op (nest first before) (nest m.operand after) := by
  have hsplit := loosest_append_cons hbefore hafter
  rw [nest]
  split
  · next h => exact absurd (hsplit.symm.trans h) (by simp)
  · next h =>
    have heq := hsplit.symm.trans h
    simp only [Option.some.injEq, Prod.mk.injEq] at heq
    obtain ⟨rfl, rfl, rfl⟩ := heq
    rfl

theorem nest_cons (first : Expr) {m : Link} {after : List Link}
    (hafter : ∀ l ∈ after, m.precedence < l.precedence) :
    nest first (m :: after) = .binary m.op first (nest m.operand after) := by
  simpa using @nest_append_cons first [] after m (by simp) hafter

/-- **Taking operators from left to right.** An operator takes in the links after it that bind more
    tightly; if the next one does not, this makes up the first operand of the rest. -/
theorem nest_absorb (first : Expr) (m : Link) (taken rest : List Link)
    (htaken : ∀ l ∈ taken, m.precedence < l.precedence)
    (hrest : ∀ l ∈ rest.head?, ¬ m.precedence < l.precedence) :
    nest first (m :: (taken ++ rest))
      = nest (.binary m.op first (nest m.operand taken)) rest := by
  -- The loosest link of `rest` is no tighter than `m`, so it is the loosest one of both chains.
  cases h : loosest rest with
  | none =>
      rw [loosest_eq_none h, List.append_nil, nest_nil]
      exact nest_cons first htaken
  | some split =>
      obtain ⟨before, o, after⟩ := split
      have hlt := length_before_lt h
      obtain ⟨rfl, hbefore, hafter⟩ := loosest_spec h
      have hop : ¬ m.precedence < o.precedence := by
        cases before with
        | nil => exact hrest _ rfl
        | cons b before =>
            exact Precedence.not_lt_trans (hrest b rfl) (hbefore b List.mem_cons_self)
      have hhead : ∀ l ∈ before.head?, ¬ m.precedence < l.precedence := by
        intro l hl
        refine hrest l ?_
        simp [List.head?_append, Option.mem_def.1 hl]
      have hwhole : ∀ l ∈ m :: (taken ++ before), ¬ l.precedence < o.precedence := by
        intro l hl
        rw [List.mem_cons, List.mem_append] at hl
        rcases hl with rfl | hl | hl
        · exact hop
        · exact fun hlo => hop (Precedence.lt_trans (htaken l hl) hlo)
        · exact hbefore l hl
      have hsplit := nest_append_cons first hwhole hafter
      rw [nest_append_cons _ hbefore hafter, ← nest_absorb first m taken before htaken hhead,
        ← hsplit]
      simp
termination_by rest.length

end ConstScript
