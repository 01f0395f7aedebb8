import ConstScript.Proofs.Grammar.ArithmeticText
import ConstScript.Proofs.Session.Concatenation

set_option autoImplicit false

/-! # What the text of an arithmetic expression comes to

From the characters of a text to a 64-bit integer: the text of an arithmetic expression is read as
the expression, and this is evaluated to the integer that it denotes. -/

namespace ConstScript

variable [Hashing]

open Arithmetic

namespace Session

/-- **Arithmetic text means wrapped integer arithmetic.** Every arithmetic expression can be written
    as a text, and however it is written, running the text changes nothing. The result is the error
    `division by zero` iff some divisor in the expression is zero. Otherwise it is the integer that
    the expression denotes, where every sum, difference, product, quotient and negation is wrapped
    into the range of 64 bits; and without a division, it is the exact integer, wrapped once. -/
theorem run_arithmetic (e : Arithmetic) :
    (∃ source, Text .sum e source) ∧
    ∀ (source : String), Text .sum e source →
      ∀ (depth : Nat) (scope : ScopeId) (st : Store),
        (e.DividesByZero ↔
          run depth scope source st = (.finished (.error .divisionByZero), st)) ∧
        (¬ e.DividesByZero → ∃ n : Int64, n.toInt = e.value ∧
          run depth scope source st = (.finished (.int n), st)) ∧
        (e.DivisionFree → ∃ n : Int64, n.toInt = wrap e.exact ∧
          run depth scope source st = (.finished (.int n), st)) := by
  constructor
  · obtain ⟨source, h⟩ := e.exists_text
    exact ⟨source, .product (.operand h)⟩
  · intro source h depth scope st
    rw [run_expr h.parse_eq]
    rcases e.eval_toExpr (Closure.call depth) scope st with ⟨hzero, hrun⟩ | ⟨hzero, n, hn, hrun⟩
    · rw [hrun]
      exact ⟨iff_of_true hzero rfl, fun hnot => absurd hzero hnot,
        fun hfree => absurd hzero hfree.not_dividesByZero⟩
    · rw [hrun]
      exact ⟨iff_of_false hzero (by simp [RunResult.ofOutcome]), fun _ => ⟨n, hn, rfl⟩,
        fun hfree => ⟨n, hn.trans hfree.value_eq, rfl⟩⟩

omit [Hashing] in
/-- The quotient that is out of range, a divisor that is zero once it is wrapped, and a product that
    is wrapped. -/
theorem run_arithmetic_overflow :
    let _ : Hashing := .inOrder fun _ => 0
    let max : Arithmetic := .num 9223372036854775807 (by decide)
    let one : Arithmetic := .num 1 (by decide)
    let root : Arithmetic := .num 4294967296 (by decide)
    let quotient : Arithmetic := .op .div (.op .sub (.neg max) one) (.neg one)
    let zeroDivisor : Arithmetic := .op .div one (.op .mul root root)
    let product : Arithmetic := .op .mul max max
    Text .sum quotient "(-9223372036854775807-1)/-1" ∧ ¬ quotient.DividesByZero ∧
    Text .sum zeroDivisor "1/(4294967296*4294967296)" ∧ zeroDivisor.DividesByZero ∧
    Text .sum product "9223372036854775807*9223372036854775807" ∧ product.DivisionFree ∧
    ∀ (depth : Nat) (scope : ScopeId) (st : Store),
      run depth scope "(-9223372036854775807-1)/-1" st = (.finished (.int Int64.minValue), st) ∧
      run depth scope "1/(4294967296*4294967296)" st
        = (.finished (.error .divisionByZero), st) ∧
      run depth scope "9223372036854775807*9223372036854775807" st = (.finished (.int 1), st) := by
  intro _ max one root quotient zeroDivisor product
  have hmax : Text .operand max "9223372036854775807" :=
    .number (by decide) (List.all_eq_true.1 rfl) (by decide +kernel)
  have hone : Text .operand one "1" := .number (by decide) (List.all_eq_true.1 rfl) rfl
  have hroot : Text .operand root "4294967296" :=
    .number (by decide) (List.all_eq_true.1 rfl) (by decide +kernel)
  have hquotient : Text .sum quotient "(-9223372036854775807-1)/-1" := by
    have hdifference := Text.op .sub (.product (.operand (.neg hmax))) (.operand hone)
    exact .product (.op .div (.operand (.group hdifference)) (.neg hone))
  have hzeroDivisor : Text .sum zeroDivisor "1/(4294967296*4294967296)" :=
    .product (.op .div (.operand hone) (.group (.product (.op .mul (.operand hroot) hroot))))
  have hproduct : Text .sum product "9223372036854775807*9223372036854775807" :=
    .product (.op .mul (.operand hmax) hmax)
  have hdivisor : ¬ quotient.DividesByZero := by
    rintro ((h | h | ⟨h, -⟩) | h | ⟨-, h⟩)
    · exact h
    · exact h
    · exact absurd h (by decide)
    · exact h
    · exact absurd h (by decide)
  have hzero : zeroDivisor.DividesByZero := .inr (.inr ⟨rfl, by decide⟩)
  have hfree : product.DivisionFree := ⟨by decide, trivial, trivial⟩
  refine ⟨hquotient, hdivisor, hzeroDivisor, hzero, hproduct, hfree, fun depth scope st => ?_⟩
  refine ⟨?_, ?_, ?_⟩
  · obtain ⟨n, hn, hrun⟩ :=
      ((run_arithmetic quotient).2 _ hquotient depth scope st).2.1 hdivisor
    obtain rfl : n = Int64.minValue := Int64.toInt_inj.1 (hn.trans (by decide))
    exact hrun
  · exact ((run_arithmetic zeroDivisor).2 _ hzeroDivisor depth scope st).1.1 hzero
  · obtain ⟨n, hn, hrun⟩ := ((run_arithmetic product).2 _ hproduct depth scope st).2.2 hfree
    obtain rfl : n = 1 := Int64.toInt_inj.1 (hn.trans (by decide))
    exact hrun

end Session

end ConstScript
