import ConstScript.Proofs.Eval.Sequence

set_option autoImplicit false

/-! # Arithmetic

An arithmetic expression has two readings. It is an expression of the language, whose evaluation
works on 64-bit integers; and it denotes an integer, computed from the bottom up without a bound but
for `wrap`, which takes what each operator comes to back into the range of 64 bits. The main
statement here is that the two agree: evaluation fails if a divisor is zero somewhere, and comes to
the integer that is denoted otherwise.

Sums, differences and products may as well be computed exactly and wrapped once at the end. -/

namespace ConstScript

/-! ## Expressions -/

/-- The binary operators of arithmetic. -/
inductive Arithmetic.Op where
  | add
  | sub
  | mul
  | div
  deriving DecidableEq

/-- Arithmetic expressions. The literals are those that the language has. -/
inductive Arithmetic where
  | num (n : Nat) (le : n ≤ maxInteger)
  | neg (e : Arithmetic)
  | op (o : Arithmetic.Op) (l r : Arithmetic)

namespace Arithmetic

/-- The operator of the language. -/
def Op.toBinary : Op → BinaryOp
  | add => .add
  | sub => .sub
  | mul => .mul
  | div => .div

/-- The expression of the language. -/
def toExpr : Arithmetic → Expr
  | num n _ => .int n
  | neg e => .unary .negate e.toExpr
  | op o l r => .binary o.toBinary l.toExpr r.toExpr

/-! ## The integer that is denoted -/

/-- The integer in the range of 64 bits that differs by a multiple of the 64th power of two. -/
def wrap (n : Int) : Int := n.bmod Int64.size

/-- What an operator does with integers; quotients are truncated toward zero. -/
def Op.exact : Op → Int → Int → Int
  | add, m, n => m + n
  | sub, m, n => m - n
  | mul, m, n => m * n
  | div, m, n => m.tdiv n

/-- The integer that an expression denotes, wrapped at every operator. -/
def value : Arithmetic → Int
  | num n _ => n
  | neg e => wrap (-e.value)
  | op o l r => wrap (o.exact l.value r.value)

/-- The integer that an expression denotes if nothing is wrapped. -/
def exact : Arithmetic → Int
  | num n _ => n
  | neg e => -e.exact
  | op o l r => o.exact l.exact r.exact

/-- Some divisor in the expression is zero. -/
def DividesByZero : Arithmetic → Prop
  | num .. => False
  | neg e => e.DividesByZero
  | op o l r => l.DividesByZero ∨ r.DividesByZero ∨ o = .div ∧ r.value = 0

/-- There is no division in the expression. -/
def DivisionFree : Arithmetic → Prop
  | num .. => True
  | neg e => e.DivisionFree
  | op o l r => o ≠ .div ∧ l.DivisionFree ∧ r.DivisionFree

theorem DivisionFree.not_dividesByZero {e : Arithmetic} (h : e.DivisionFree) :
    ¬ e.DividesByZero := by
  induction e with
  | num => exact id
  | neg e ih => exact ih h
  | op o l r ihl ihr =>
      rintro (hl | hr | ⟨hdiv, -⟩)
      · exact ihl h.2.1 hl
      · exact ihr h.2.2 hr
      · exact h.1 hdiv

/-- Literals are in the range of 64 bits. -/
theorem wrap_literal {n : Nat} (h : n ≤ maxInteger) : wrap n = n := by
  have hlt : n < 9223372036854775808 := Nat.lt_succ_of_le h
  refine Int.bmod_eq_of_le ?_ ?_ <;> simp only [Int64.size] <;> omega

/-- Without division it is enough to wrap once. -/
theorem DivisionFree.value_eq {e : Arithmetic} (h : e.DivisionFree) : e.value = wrap e.exact := by
  induction e with
  | num n le => exact (wrap_literal le).symm
  | neg e ih =>
      rw [value, exact, ih h]
      exact Int.bmod_neg_bmod
  | op o l r ihl ihr =>
      rw [value, exact, ihl h.2.1, ihr h.2.2]
      cases o with
      | add => simp only [Op.exact, wrap, Int.bmod_add_bmod, Int.add_bmod_bmod]
      | sub => simp only [Op.exact, wrap, Int.bmod_sub_bmod, Int.sub_bmod_bmod]
      | mul => simp only [Op.exact, wrap, Int.bmod_mul_bmod, Int.mul_bmod_bmod]
      | div => exact absurd rfl h.1

/-! ## Evaluation -/

/-- An operator between integers comes to what it does with them, wrapped, unless it divides by
    zero. -/
theorem Op.apply_toBinary (o : Op) (m n : Int64) :
    o = .div ∧ n.toInt = 0 ∧ o.toBinary.apply (.int m) (.int n) = .error .divisionByZero ∨
      ¬ (o = .div ∧ n.toInt = 0) ∧ ∃ k : Int64, k.toInt = wrap (o.exact m.toInt n.toInt) ∧
        o.toBinary.apply (.int m) (.int n) = .ok (.int k) := by
  cases o with
  | add => exact .inr ⟨by simp, m + n, Int64.toInt_add m n, rfl⟩
  | sub => exact .inr ⟨by simp, m - n, Int64.toInt_sub m n, rfl⟩
  | mul => exact .inr ⟨by simp, m * n, Int64.toInt_mul m n, rfl⟩
  | div =>
      by_cases hn : n = 0
      · subst hn
        exact .inl ⟨rfl, rfl, rfl⟩
      · have hzero : n.toInt ≠ 0 := fun h => hn (Int64.toInt_inj.1 h)
        exact .inr ⟨fun h => hzero h.2, m / n, Int64.toInt_div m n, if_neg hn⟩

/-- **Arithmetic is integer arithmetic, wrapped.** Evaluation creates and changes nothing. It fails
    with a division by zero if a divisor in the expression is zero, and comes to the integer that the
    expression denotes otherwise. -/
theorem eval_toExpr [Hashing] (call : Closure → List Value → Eval Value) (scope : ScopeId)
    (e : Arithmetic) (st : Store) :
    e.DividesByZero ∧ e.toExpr.eval call scope st = .error (.failed .divisionByZero) st ∨
      ¬ e.DividesByZero ∧ ∃ n : Int64, n.toInt = e.value ∧
        e.toExpr.eval call scope st = .ok (.int n) st := by
  induction e with
  | num n le =>
      refine .inr ⟨id, Int64.ofNat n, ?_, rfl⟩
      exact Int64.toInt_ofNat'.trans (wrap_literal le)
  | neg e ih =>
      rcases ih with ⟨hzero, hrun⟩ | ⟨hzero, n, hn, hrun⟩
      · exact .inl ⟨hzero, Eval.bind_of_error hrun⟩
      · refine .inr ⟨hzero, -n, ?_, Eval.bind_of_ok hrun⟩
        rw [value, ← hn]
        exact Int64.toInt_neg n
  | op o l r ihl ihr =>
      rcases ihl with ⟨hzero, hleft⟩ | ⟨hl, m, hm, hleft⟩
      · exact .inl ⟨.inl hzero, Eval.bind_of_error hleft⟩
      rcases ihr with ⟨hzero, hright⟩ | ⟨hr, n, hn, hright⟩
      · exact .inl ⟨.inr (.inl hzero), (Eval.bind_of_ok hleft).trans (Eval.bind_of_error hright)⟩
      have hrun : (op o l r).toExpr.eval call scope st
          = Eval.ofExcept (o.toBinary.apply (.int m) (.int n)) st :=
        (Eval.bind_of_ok hleft).trans (Eval.bind_of_ok hright)
      rw [hrun, DividesByZero, value, ← hm, ← hn]
      rcases o.apply_toBinary m n with ⟨hdiv, hzero, happly⟩ | ⟨hzero, k, hk, happly⟩
      · exact .inl ⟨.inr (.inr ⟨hdiv, hzero⟩), congrFun (congrArg Eval.ofExcept happly) st⟩
      · refine .inr ⟨?_, k, hk, congrFun (congrArg Eval.ofExcept happly) st⟩
        rintro (h | h | h)
        · exact hl h
        · exact hr h
        · exact hzero h

end Arithmetic

end ConstScript
