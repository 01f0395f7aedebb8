import ConstScript.Proofs.Eval.Arithmetic
import ConstScript.Proofs.Grammar.RoundTrip

set_option autoImplicit false

/-! # Arithmetic expressions as texts

`Arithmetic.Text` says in which ways an arithmetic expression can be written: with as many
parentheses and blanks as one likes, but with parentheses wherever an operand would otherwise be
taken apart by the operator next to it. There are three levels of texts, and each is made of the
tighter ones: products bind more tightly than sums, both go on to the left, and a minus sign applies
to the operand after it.

Such a text is read as the expression that was written. The proof follows the levels: the operators
that a text leaves open, with their operands, are a chain that nests as the expression, and none of
them is looser than the level says (`Opens`). -/

namespace ConstScript

open Grammar

namespace Arithmetic

/-! ## Texts -/

/-- How tightly a text holds together. -/
inductive Level where
  | operand
  | product
  | sum

/-- The level of the texts that an operator makes, and of the text on its left. -/
def Op.level : Op → Level
  | add | sub => .sum
  | mul | div => .product

/-- The level of the text on the right of an operator. -/
def Op.rightLevel : Op → Level
  | add | sub => .product
  | mul | div => .operand

/-- The text of an operator. -/
def Op.text : Op → String
  | add => "+"
  | sub => "-"
  | mul => "*"
  | div => "/"

/-- The text is a way to write the expression, of the given level. -/
inductive Text : Level → Arithmetic → String → Prop
  | number {n : Nat} {le : n ≤ maxInteger} {digits : String} : digits ≠ "" →
      (∀ c ∈ digits.toList, c.isDigit) → Nat.ofDigitChars 10 digits.toList 0 = n →
      Text .operand (num n le) digits
  | group {e : Arithmetic} {t : String} : Text .sum e t → Text .operand e ("(" ++ t ++ ")")
  | neg {e : Arithmetic} {t : String} : Text .operand e t → Text .operand (neg e) ("-" ++ t)
  | op (o : Op) {l r : Arithmetic} {t u : String} : Text o.level l t → Text o.rightLevel r u →
      Text o.level (op o l r) (t ++ o.text ++ u)
  | operand {e : Arithmetic} {t : String} : Text .operand e t → Text .product e t
  | product {e : Arithmetic} {t : String} : Text .product e t → Text .sum e t
  | spaced {level : Level} {e : Arithmetic} {t before after : String} :
      (∀ c ∈ before.toList, isBlank c) → (∀ c ∈ after.toList, isBlank c) → Text level e t →
      Text level e (before ++ t ++ after)

/-- Every expression can be written. -/
theorem exists_text (e : Arithmetic) : ∃ t, Text .operand e t := by
  induction e with
  | num n le =>
      have hchars : (toString n).toList = Nat.toDigits 10 n := Nat.toList_repr
      refine ⟨toString n, .number ?_ ?_ ?_⟩
      · intro heq
        rw [heq] at hchars
        exact Nat.toDigits_ne_nil hchars.symm
      · intro c hc
        rw [hchars] at hc
        exact Nat.isDigit_of_mem_toDigits (by decide) (by decide) hc
      · rw [hchars, Nat.ofDigitChars_toDigits (by decide) (by decide)]
  | neg e ih =>
      obtain ⟨t, ht⟩ := ih
      exact ⟨_, .neg ht⟩
  | op o l r ihl ihr =>
      obtain ⟨t, ht⟩ := ihl
      obtain ⟨u, hu⟩ := ihr
      have hsum : ∃ text, Text .sum (op o l r) text := by
        cases o with
        | add => exact ⟨_, .op .add (.product (.operand ht)) (.operand hu)⟩
        | sub => exact ⟨_, .op .sub (.product (.operand ht)) (.operand hu)⟩
        | mul => exact ⟨_, .product (.op .mul (.operand ht) hu)⟩
        | div => exact ⟨_, .product (.op .div (.operand ht) hu)⟩
      obtain ⟨text, htext⟩ := hsum
      exact ⟨_, .group htext⟩

/-! ## Reading -/

/-- The precedence of the loosest operators that a text can leave open. -/
def Level.precedence : Level → Precedence
  | operand => .unary
  | product => .product
  | sum => .sum

theorem Op.precedence_toBinary (o : Op) : o.toBinary.precedence = o.level.precedence := by
  cases o <;> rfl

theorem Op.level_lt_rightLevel (o : Op) : o.level.precedence < o.rightLevel.precedence := by
  cases o <;> decide

/-- The text spells operands with operators between them that nest as the expression, and no
    operator is looser than the given precedence. -/
def Opens (loosest : Precedence) (e : Expr) (t : String) : Prop :=
  ∃ first ls ts us, Derives .unary first ts ∧ Derives .links ls us ∧ Spells t (ts ++ us) ∧
    nest first ls = e ∧ ∀ l ∈ ls, ¬ l.precedence < loosest

theorem Opens.written {p : Precedence} {e : Expr} {t : String} (h : Opens p e t) :
    Written .expression e t := by
  obtain ⟨first, ls, ts, us, hfirst, hls, ht, rfl, -⟩ := h
  exact ⟨_, ht, .expression hfirst hls⟩

/-- Where every operator is too loose, there is only one operand. -/
theorem Opens.written_unary {e : Expr} {t : String} (h : Opens .unary e t) :
    Written .unary e t := by
  obtain ⟨first, ls, ts, us, hfirst, hls, ht, rfl, hloose⟩ := h
  cases hls with
  | noLinks =>
      rw [nest_nil]
      rw [List.append_nil] at ht
      exact ⟨ts, ht, hfirst⟩
  | @link op =>
      have htight : op.precedence < .unary := by cases op <;> decide
      exact absurd htight (hloose _ List.mem_cons_self)

theorem opens_of_written {p : Precedence} {e : Expr} {t : String} (h : Written .unary e t) :
    Opens p e t := by
  obtain ⟨ts, ht, he⟩ := h
  exact ⟨e, [], ts, [], he, .noLinks, by rwa [List.append_nil], nest_nil e, by simp⟩

theorem Opens.looser {p q : Precedence} {e : Expr} {t : String} (h : Opens p e t) (hpq : ¬ p < q) :
    Opens q e t := by
  obtain ⟨first, ls, ts, us, hfirst, hls, ht, he, hloose⟩ := h
  exact ⟨first, ls, ts, us, hfirst, hls, ht, he,
    fun l hl => Precedence.not_lt_trans (hloose l hl) hpq⟩

/-- An operator joins two chains of which neither takes an operand of the other one: on the left
    there is nothing looser than the operator, and on the right everything is tighter. -/
theorem Opens.op (o : Op) {l r : Expr} {t u : String} (hl : Opens o.level.precedence l t)
    (hr : Opens o.rightLevel.precedence r u) :
    Opens o.level.precedence (.binary o.toBinary l r) (t ++ o.text ++ u) := by
  obtain ⟨first, ls, ts, us, hfirst, hls, ht, rfl, hloose⟩ := hl
  obtain ⟨second, ms, vs, ws, hsecond, hms, hu, rfl, htight⟩ := hr
  have htighter : ∀ m ∈ ms, o.level.precedence < m.precedence :=
    fun m hm => Precedence.lt_of_lt_of_not_lt o.level_lt_rightLevel (htight m hm)
  have hop : Delimits o.text [.symbol o.toBinary.symbol] := by
    have htext : o.text = o.toBinary.text := by cases o <;> rfl
    exact htext ▸ delimits_binaryOp o.toBinary
  have hwhole := (ht.append hop (by cases o <;> rfl)).append_spells hu
  rw [← o.precedence_toBinary] at hloose htighter
  refine ⟨first, ls ++ ⟨o.toBinary, second⟩ :: ms, ts, _, hfirst,
    hls.links_append (.link o.toBinary hsecond hms), by simpa using hwhole,
    nest_append_cons first hloose htighter, fun m hm => ?_⟩
  rw [← o.precedence_toBinary]
  rcases List.mem_append.1 hm with hm | hm
  · exact hloose m hm
  · rcases List.mem_cons.1 hm with rfl | hm
    · exact Precedence.lt_irrefl _
    · exact fun hlt => Precedence.lt_irrefl _ (Precedence.lt_trans hlt (htighter m hm))

theorem Opens.spaced {p : Precedence} {e : Expr} {t before after : String} (h : Opens p e t)
    (hbefore : ∀ c ∈ before.toList, isBlank c) (hafter : ∀ c ∈ after.toList, isBlank c) :
    Opens p e (before ++ t ++ after) := by
  obtain ⟨first, ls, ts, us, hfirst, hls, ht, he, hloose⟩ := h
  exact ⟨first, ls, ts, us, hfirst, hls, ht.spaced hbefore hafter, he, hloose⟩

/-- A text is read as the expression that was written, and leaves no operator open that is looser
    than its level. -/
theorem Text.opens {level : Level} {e : Arithmetic} {t : String} (h : Text level e t) :
    Opens level.precedence e.toExpr t := by
  induction h with
  | @number n le digits hne hdigits hvalue =>
      subst hvalue
      exact opens_of_written
        ⟨_, spells_digits hne hdigits, .bare (.chainHead (.int digits le))⟩
  | group _ ih =>
      obtain ⟨ts, ht, he⟩ := ih.written
      have hgroup := (ht.between .leftParen .rightParen rfl rfl).spells
      exact opens_of_written ⟨_, hgroup, .bare (.chainHead (.group he))⟩
  | neg _ ih => exact opens_of_written (ih.written_unary.signed .negate)
  | op o _ _ ihl ihr => exact ihl.op o ihr
  | operand _ ih | product _ ih => exact ih.looser (by decide)
  | spaced hbefore hafter _ ih => exact ih.spaced hbefore hafter

/-- The text of an arithmetic expression is read as the expression, without an error. -/
theorem Text.parse_eq {e : Arithmetic} {t : String} (h : Text .sum e t) :
    Program.parse t = ⟨⟨[.expr e.toExpr]⟩, []⟩ :=
  h.opens.written.parse_expr

end Arithmetic

end ConstScript
