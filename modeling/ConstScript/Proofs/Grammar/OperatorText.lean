import ConstScript.Proofs.Grammar.RoundTrip
import ConstScript.Syntax.Equality

set_option autoImplicit false

/-! # Operators written without parentheses

Operands with binary operators between them are read as one tree, and `nest` says which. Here the
operands are what can be written without a group around it: prefix operators, the canonical text of
any expression, and calls and indexes after that. The prefix operators of an operand apply to the
whole of what follows them, and the calls and indexes nest from left to right.

Nothing in a text shows where an operand ends but the operators themselves, so this is also the
statement that no operand runs into the next operator and that none is cut short. -/

namespace ConstScript

open Grammar

/-! ## Operands -/

/-- What follows an operand in brackets, with the text between them: the arguments of a call or the
    position of an index. -/
inductive Suffix where
  | call (args : List Expr) (text : String) (written : Written .items args text)
  | index (position : Expr) (text : String) (written : Written .expression position text)

namespace Suffix

/-- A text with the brackets after it. -/
def appendTo (front : String) : Suffix → String
  | call _ text _ => front ++ "(" ++ text ++ ")"
  | index _ text _ => front ++ "[" ++ text ++ "]"

/-- The call or the index of an expression. -/
def apply (e : Expr) : Suffix → Expr
  | call args _ _ => .call e args
  | index position _ _ => .index e position

end Suffix

/-- An operand as it is written: prefix operators, an expression and brackets after it. -/
structure OperandText where
  signs : List UnaryOp
  head : Expr
  suffixes : List Suffix
  isWellFormed_head : head.isWellFormed

namespace OperandText

/-- An expression alone as an operand. -/
def bare (e : Expr) (h : e.isWellFormed) : OperandText := ⟨[], e, [], h⟩

/-- The text of an operand. -/
def text (x : OperandText) : String :=
  x.signs.foldr (fun op t => op.text ++ t) (x.suffixes.foldl Suffix.appendTo x.head.text)

/-- The tree of an operand: the prefix operators are outside of the calls and indexes. -/
def tree (x : OperandText) : Expr :=
  x.signs.foldr .unary (x.suffixes.foldl Suffix.apply x.head)

end OperandText

/-- A call or an index after an expression is one of all that was written before it. -/
theorem Suffix.written (s : Suffix) {e : Expr} {front : String} (h : Written .chained e front) :
    Written .chained (s.apply e) (s.appendTo front) := by
  cases s with
  | call args text hargs => exact h.call hargs
  | index position text hposition =>
      obtain ⟨ts, hts, he⟩ := h
      obtain ⟨us, hus, hp⟩ := hposition
      have hfront := hts.append (delimits_opening (s := .leftBracket) rfl) rfl
      have hwhole :=
        (hfront.append_spells hus).append (delimits_closing (s := .rightBracket) rfl) rfl
      exact .ofDelimits hwhole (by simp [enclosed]) (.index he hp)

theorem OperandText.written (x : OperandText) : Written .unary x.tree x.text := by
  have hsuffixes : ∀ (suffixes : List Suffix) (e : Expr) (front : String),
      Written .chained e front →
      Written .chained (suffixes.foldl Suffix.apply e) (suffixes.foldl Suffix.appendTo front) := by
    intro suffixes
    induction suffixes with
    | nil => exact fun e front h => h
    | cons s suffixes ih => exact fun e front h => ih _ _ (s.written h)
  have hhead := hsuffixes x.suffixes x.head x.head.text (x.head.written x.isWellFormed_head)
  unfold tree text
  induction x.signs with
  | nil => exact hhead.bare
  | cons op signs ih => exact ih.signed op

/-! ## Sequences of operands -/

/-- The levels of the binary operators, from loosest to tightest. -/
def BinaryOp.levels : List (List BinaryOp) :=
  [[equal, notEqual], [less, greater], [add, sub], [mul, div]]

/-- The number of the level of a binary operator. -/
def BinaryOp.level (op : BinaryOp) : Nat :=
  levels.findIdx (op ∈ ·)

/-- The text of operands with binary operators between them. -/
def operatorText (first : OperandText) : List (BinaryOp × OperandText) → String
  | [] => first.text
  | (op, x) :: rest => first.text ++ " " ++ op.text ++ " " ++ operatorText x rest

/-- The operators with the trees of the operands after them. -/
def operatorLinks (rest : List (BinaryOp × OperandText)) : List Link :=
  rest.map (fun (op, x) => ⟨op, x.tree⟩)

theorem spells_operatorText (first : OperandText) (rest : List (BinaryOp × OperandText)) :
    ∃ ts us, Derives .unary first.tree ts ∧ Derives .links (operatorLinks rest) us ∧
      Spells (operatorText first rest) (ts ++ us) := by
  obtain ⟨ts, hts, hfirst⟩ := first.written
  induction rest generalizing first ts with
  | nil => exact ⟨ts, [], hfirst, .noLinks, by rwa [List.append_nil]⟩
  | cons link rest ih =>
      obtain ⟨op, x⟩ := link
      obtain ⟨us, hus, hx⟩ := x.written
      obtain ⟨us, vs, hx, hrest, hspells⟩ := ih x us hus hx
      have hop := ((hts.append delimits_space rfl).append (delimits_binaryOp op)).append
        delimits_space
      refine ⟨ts, _, hfirst, .link op hx hrest, ?_⟩
      have hwhole := hop.append_spells hspells
      simpa [operatorText] using hwhole

theorem written_operatorText (first : OperandText) (rest : List (BinaryOp × OperandText)) :
    Written .expression (nest first.tree (operatorLinks rest)) (operatorText first rest) := by
  obtain ⟨ts, us, hfirst, hrest, hspells⟩ := spells_operatorText first rest
  exact ⟨ts ++ us, hspells, .expression hfirst hrest⟩

/-- **Precedence and associativity.** A text of the tokens of operands with binary operators between
    them is read as one expression, without an error: the tree that splits at the last operator of
    the loosest level, and both sides in the same way. The levels are those of `BinaryOp.levels`. -/
theorem Program.parse_operatorText (first : OperandText) (rest : List (BinaryOp × OperandText))
    (source : String)
    (hsource : Token.scan source.toList = Token.scan (operatorText first rest).toList) :
    Program.parse source = ⟨⟨[.expr (nest first.tree (operatorLinks rest))]⟩, []⟩ ∧
    ∀ op op' : BinaryOp, op.precedence < op'.precedence ↔ op.level < op'.level := by
  constructor
  · obtain ⟨ts, hts, he⟩ := written_operatorText first rest
    have hstatements : Derives .statements [.expr (nest first.tree (operatorLinks rest))] ts := by
      simpa using Derives.unclosed (.expr he) .noStatements (by simp)
    rw [Program.parse, hsource, hts.scan_eq]
    exact (Program.ofTokens_eq_iff ts _).2 hstatements
  · intro op op'
    cases op <;> cases op' <;> decide

/-- The operators are of three levels, and one operand has a call, an index and a prefix operator,
    the position of the index being a sequence of operands itself. -/
theorem Program.parse_operatorText_mixed :
    let f : OperandText := ⟨[.negate], .name "f", [.call [] "" ⟨[], fun _ _ => rfl, .noItems⟩,
      .index _ _ (written_operatorText (.bare (.name "i") rfl) [(.add, .bare (.int 1) rfl)])], rfl⟩
    let rest := [(BinaryOp.mul, ⟨[.not], .map [], [], rfl⟩), (.equal, .bare (.int 3) rfl),
      (.sub, .bare (.int 4) rfl), (.sub, .bare (.int 5) rfl)]
    let source := "-f()[i+1] * !{ } == 3-4-5"
    let position := Expr.binary .add (.name "i") (.int 1)
    let tree := Expr.binary .equal
      (.binary .mul (.unary .negate (.index (.call (.name "f") []) position))
        (.unary .not (.map [])))
      (.binary .sub (.binary .sub (.int 3) (.int 4)) (.int 5))
    Token.scan source.toList = Token.scan (operatorText f rest).toList ∧
      Program.parse source = ⟨⟨[.expr tree]⟩, []⟩ := by
  intro f rest source position tree
  have hsource : Token.scan source.toList = Token.scan (operatorText f rest).toList := by
    decide +kernel
  have htree : nest f.tree (operatorLinks rest) = tree := by
    decide +kernel
  refine ⟨hsource, ?_⟩
  rw [(Program.parse_operatorText f rest source hsource).1, htree]

end ConstScript
