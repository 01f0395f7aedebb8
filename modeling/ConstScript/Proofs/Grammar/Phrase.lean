import ConstScript.Proofs.Grammar.Nesting
import ConstScript.Token.Basic

set_option autoImplicit false

/-! # The grammar

`Derives n tree ts` says that the tokens `ts` are a phrase of the sort `n` and which tree they
denote. In the usual notation, with `op` for the eight binary operators:

    statements = statement*
    statement  = ("const" name "=" expression | "return" expression | expression) ";"?
    expression = unary (op unary)*
    unary      = ("!" | "-")* primary ("(" items ")" | "[" expression "]")*
    primary    = name | integer | string | "true" | "false" | "(" expression ")"
               | "if" expression block ("else" block)? | "fn" "(" (name ("," name)*)? ")" block
               | "[" items "]" | "{" pairs "}"
    items      = (expression ("," expression)*)?
    pairs      = (expression ":" expression ",")* (expression ":" expression)?
    block      = "{" statements "}"

where an integer is no larger than `maxInteger`, and a statement without its `;` is not followed by
a token that could go on with an expression: `(`, `[` or a binary operator. -/

namespace ConstScript

/-- The symbol of a prefix operator. -/
def UnaryOp.symbol : UnaryOp → Symbol
  | negate => .minus
  | not => .bang

/-- All binary operators. -/
def BinaryOp.all : List BinaryOp := [add, sub, mul, div, less, greater, equal, notEqual]

/-- The tokens that can go on with an expression before them: `(`, `[` and the binary operators. -/
def Token.goesOn (t : Token) : Bool :=
  t ∈ [symbol .leftParen, symbol .leftBracket] ++ BinaryOp.all.map (fun op => symbol op.symbol)

namespace Grammar

/-- The sorts of phrases. A `chained` phrase is a primary one with calls and indexes after it, and
    `links` are operators with an operand after each. -/
inductive Phrase where
  | primary
  | chained
  | unary
  | links
  | expression
  | moreItems
  | items
  | pairs
  | statement
  | statements
  deriving DecidableEq

/-- What a phrase denotes. -/
abbrev Phrase.Tree : Phrase → Type
  | primary | chained | unary | expression => Expr
  | links => List Link
  | moreItems | items => List Expr
  | pairs => List (Expr × Expr)
  | statement => Stmt
  | statements => List Stmt

/-- The tokens between the parentheses of a function literal. -/
def parameterTokens : List String → List Token
  | [] => []
  | p :: ps => .ident p :: ps.flatMap (fun q => [.symbol .comma, .ident q])

/-- The tokens of a phrase between two symbols. -/
def enclosed (opening closing : Symbol) (ts : List Token) : List Token :=
  .symbol opening :: (ts ++ [.symbol closing])

@[simp] theorem enclosed_append (opening closing : Symbol) (ts rest : List Token) :
    enclosed opening closing ts ++ rest
      = .symbol opening :: (ts ++ .symbol closing :: rest) := by
  simp [enclosed]

/-- **The grammar.** The tokens are a phrase of the given sort that denotes the given tree. A
    `statement` is one without its `;`. -/
inductive Derives : (n : Phrase) → n.Tree → List Token → Prop
  -- Primary expressions.
  | name (n : String) : Derives .primary (.name n) [.ident n]
  | int (digits : String) (h : Nat.ofDigitChars 10 digits.toList 0 ≤ maxInteger) :
      Derives .primary (.int (Nat.ofDigitChars 10 digits.toList 0)) [.int digits]
  | str (contents : String) : Derives .primary (.str contents) [.str contents]
  | trueWord : Derives .primary (.bool true) [.keyword .trueWord]
  | falseWord : Derives .primary (.bool false) [.keyword .falseWord]
  | group {e : Expr} {ts : List Token} :
      Derives .expression e ts → Derives .primary e (enclosed .leftParen .rightParen ts)
  | cond {c : Expr} {t : List Stmt} {ts us : List Token} :
      Derives .expression c ts → Derives .statements t us →
      Derives .primary (.cond c t none)
        (.keyword .ifWord :: (ts ++ enclosed .leftBrace .rightBrace us))
  | condElse {c : Expr} {t e : List Stmt} {ts us vs : List Token} :
      Derives .expression c ts → Derives .statements t us → Derives .statements e vs →
      Derives .primary (.cond c t (some e))
        (.keyword .ifWord :: (ts ++ enclosed .leftBrace .rightBrace us ++
          .keyword .elseWord :: enclosed .leftBrace .rightBrace vs))
  | fn (params : List String) {body : List Stmt} {ts : List Token} :
      Derives .statements body ts →
      Derives .primary (.fn params body)
        (.keyword .fn :: (enclosed .leftParen .rightParen (parameterTokens params) ++
          enclosed .leftBrace .rightBrace ts))
  | array {es : List Expr} {ts : List Token} :
      Derives .items es ts → Derives .primary (.array es) (enclosed .leftBracket .rightBracket ts)
  | map {ps : List (Expr × Expr)} {ts : List Token} :
      Derives .pairs ps ts → Derives .primary (.map ps) (enclosed .leftBrace .rightBrace ts)
  -- Calls and indexes.
  | chainHead {e : Expr} {ts : List Token} : Derives .primary e ts → Derives .chained e ts
  | call {f : Expr} {args : List Expr} {ts us : List Token} :
      Derives .chained f ts → Derives .items args us →
      Derives .chained (.call f args) (ts ++ enclosed .leftParen .rightParen us)
  | index {c p : Expr} {ts us : List Token} :
      Derives .chained c ts → Derives .expression p us →
      Derives .chained (.index c p) (ts ++ enclosed .leftBracket .rightBracket us)
  -- Operators.
  | bare {e : Expr} {ts : List Token} : Derives .chained e ts → Derives .unary e ts
  | signed (op : UnaryOp) {e : Expr} {ts : List Token} :
      Derives .unary e ts → Derives .unary (.unary op e) (.symbol op.symbol :: ts)
  | noLinks : Derives .links [] []
  | link (op : BinaryOp) {e : Expr} {ls : List Link} {ts us : List Token} :
      Derives .unary e ts → Derives .links ls us →
      Derives .links (⟨op, e⟩ :: ls) (.symbol op.symbol :: (ts ++ us))
  | expression {e : Expr} {ls : List Link} {ts us : List Token} :
      Derives .unary e ts → Derives .links ls us → Derives .expression (nest e ls) (ts ++ us)
  -- Lists.
  | noMoreItems : Derives .moreItems [] []
  | moreItems {e : Expr} {es : List Expr} {ts us : List Token} :
      Derives .expression e ts → Derives .moreItems es us →
      Derives .moreItems (e :: es) (.symbol .comma :: (ts ++ us))
  | noItems : Derives .items [] []
  | items {e : Expr} {es : List Expr} {ts us : List Token} :
      Derives .expression e ts → Derives .moreItems es us → Derives .items (e :: es) (ts ++ us)
  | noPairs : Derives .pairs [] []
  | lastPair {k v : Expr} {ts us : List Token} :
      Derives .expression k ts → Derives .expression v us →
      Derives .pairs [(k, v)] (ts ++ .symbol .colon :: us)
  | pair {k v : Expr} {ps : List (Expr × Expr)} {ts us vs : List Token} :
      Derives .expression k ts → Derives .expression v us → Derives .pairs ps vs →
      Derives .pairs ((k, v) :: ps) (ts ++ .symbol .colon :: (us ++ .symbol .comma :: vs))
  -- Statements.
  | const (name : String) {e : Expr} {ts : List Token} :
      Derives .expression e ts →
      Derives .statement (.const name e)
        (.keyword .const :: .ident name :: .symbol .assign :: ts)
  | ret {e : Expr} {ts : List Token} :
      Derives .expression e ts → Derives .statement (.ret e) (.keyword .returnWord :: ts)
  | expr {e : Expr} {ts : List Token} :
      Derives .expression e ts → Derives .statement (.expr e) ts
  | noStatements : Derives .statements [] []
  | closed {s : Stmt} {ss : List Stmt} {ts us : List Token} :
      Derives .statement s ts → Derives .statements ss us →
      Derives .statements (s :: ss) (ts ++ .symbol .semicolon :: us)
  | unclosed {s : Stmt} {ss : List Stmt} {ts us : List Token} :
      Derives .statement s ts → Derives .statements ss us → (∀ t ∈ us.head?, ¬ t.goesOn) →
      Derives .statements (s :: ss) (ts ++ us)

/-! ## Operands and links -/

/-- An operand alone is an expression. -/
theorem Derives.ofUnary {e : Expr} {ts : List Token} (h : Derives .unary e ts) :
    Derives .expression e ts := by
  simpa using Derives.expression h .noLinks

theorem Derives.ofPrimary {e : Expr} {ts : List Token} (h : Derives .primary e ts) :
    Derives .expression e ts :=
  .ofUnary (.bare (.chainHead h))

theorem Derives.links_append {ls ms : List Link} {ts us : List Token} (hls : Derives .links ls ts)
    (hms : Derives .links ms us) : Derives .links (ls ++ ms) (ts ++ us) := by
  induction ls generalizing ts with
  | nil =>
      cases hls
      exact hms
  | cons l ls ih =>
      cases hls with
      | link op he hls =>
          rw [List.cons_append, List.cons_append, List.append_assoc]
          exact .link op he (ih hls)

/-! ## First tokens -/

/-- The tokens that an operand can start with. -/
def startsOperand : Token → Bool
  | .ident _ | .int _ | .str _ => true
  | .keyword k => k ∈ [.trueWord, .falseWord, .ifWord, .fn]
  | .symbol s => s ∈ [.bang, .minus, .leftParen, .leftBracket, .leftBrace]
  | .illegal _ => false

theorem kind_ne_of_startsOperand {t : Token} (h : startsOperand t) {k : Kind}
    (hk : k ∈ [.symbol .rightParen, .symbol .rightBracket, .symbol .rightBrace, .keyword .const,
      .keyword .returnWord]) : t.kind ≠ k := by
  rintro rfl
  cases t with
  | symbol s => cases s <;> simp [startsOperand, Token.kind] at h hk
  | keyword k => cases k <;> simp [startsOperand, Token.kind] at h hk
  | _ => simp [Token.kind] at hk

/-- Expressions and what they are made of are not empty and start like an operand. -/
theorem Derives.exists_head {n : Phrase} {tree : n.Tree} {ts : List Token}
    (h : Derives n tree ts) (hn : n ∈ [.primary, .chained, .unary, .expression]) :
    ∃ t rest, ts = t :: rest ∧ startsOperand t := by
  induction h with
  | chainHead _ ih | bare _ ih => exact ih (by simp)
  | call _ _ ih _ | index _ _ ih _ | expression _ _ ih _ =>
      obtain ⟨t, rest, rfl, ht⟩ := ih (by simp)
      exact ⟨t, _, rfl, ht⟩
  | signed op => cases op <;> exact ⟨_, _, rfl, rfl⟩
  | noLinks | link | noMoreItems | moreItems | noItems | items | noPairs | lastPair | pair | const
  | ret | expr | noStatements | closed | unclosed => exact absurd hn (by decide)
  | _ => exact ⟨_, _, rfl, rfl⟩

/-- What follows the start of an expression does not change how it starts. -/
theorem Derives.ofNext_ne {e : Expr} {ts : List Token} (h : Derives .expression e ts) {k : Kind}
    (hk : k ∈ [.symbol .rightParen, .symbol .rightBracket, .symbol .rightBrace, .keyword .const,
      .keyword .returnWord]) (rest : List Token) : Kind.ofNext (ts ++ rest) ≠ k := by
  obtain ⟨t, us, rfl, ht⟩ := h.exists_head (by simp)
  exact kind_ne_of_startsOperand ht hk

/-- The tokens that a statement can start with. -/
def startsStatement (t : Token) : Bool :=
  startsOperand t || t = .keyword .const || t = .keyword .returnWord

theorem Derives.exists_head_statement {s : Stmt} {ts : List Token} (h : Derives .statement s ts) :
    ∃ t rest, ts = t :: rest ∧ startsStatement t := by
  cases h with
  | const name _ => exact ⟨_, _, rfl, rfl⟩
  | ret _ => exact ⟨_, _, rfl, rfl⟩
  | expr he =>
      obtain ⟨t, rest, rfl, ht⟩ := he.exists_head (by simp)
      exact ⟨t, rest, rfl, by simp [startsStatement, ht]⟩

theorem Derives.startsStatement_head {ss : List Stmt} {ts : List Token}
    (h : Derives .statements ss ts) : ∀ t ∈ ts.head?, startsStatement t := by
  cases h with
  | noStatements => simp
  | closed hs _ | unclosed hs _ _ =>
      obtain ⟨t, rest, rfl, ht⟩ := hs.exists_head_statement
      simpa using ht

/-! ## All tokens -/

/-- The tokens that phrases are made of: no illegal characters, and no integers that are too
    large. -/
def isUsable : Token → Bool
  | .int digits => Nat.ofDigitChars 10 digits.toList 0 ≤ maxInteger
  | .illegal _ => false
  | _ => true

theorem Derives.isUsable {n : Phrase} {tree : n.Tree} {ts : List Token} (h : Derives n tree ts) :
    ∀ t ∈ ts, Grammar.isUsable t := by
  induction h with
  | int digits hvalue => simpa [Grammar.isUsable] using hvalue
  | fn params _ ih =>
      have hparams : ∀ t ∈ parameterTokens params, Grammar.isUsable t := by
        cases params with
        | nil => simp [parameterTokens]
        | cons p ps => simp +contextual [parameterTokens, or_imp, Grammar.isUsable]
      simp_all [enclosed, or_imp, Grammar.isUsable]
  | _ => simp_all [enclosed, or_imp, Grammar.isUsable]

end Grammar

end ConstScript
