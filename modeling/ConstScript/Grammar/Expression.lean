import ConstScript.Syntax.Basic
import ConstScript.Grammar.Error

set_option autoImplicit false

/-! # Reading expressions and statements

The grammar, as functions that read a construct from the front of a list of tokens:

* a statement is `const` *name* `=` *expression*, `return` *expression* or an expression, and
  takes one `;` that follows it;
* an expression is an operand followed by any number of continuations -- a binary operator with
  its right operand, call arguments, an index -- each of which takes everything read so far as
  its left side. The *floor* of an expression is the precedence that a continuation has to
  exceed to be taken: a binary operator reads its right operand with its own precedence as the
  floor, so operators of one level nest to the left;
* an operand is a name, a literal, a prefix operator with an operand, a group in parentheses, an
  `if`, a function, an array or a map. A comma may follow the last pair of a map, but not the
  last item of any other list.

Each function stops at the first token that does not fit and reports it. No construct is empty,
so the tokens that remain after one are fewer than before it; results carry this fact, which is
what the recursion ends by. -/

namespace ConstScript

/-! ## Results -/

/-- A construct that was read and the tokens after it, which are fewer than `bound`. -/
structure Parsed (α : Type) (bound : Nat) where
  value : α
  rest : List Token
  length_rest_lt : rest.length < bound

/-- The answer of a reading function: a construct and the tokens after it, or a fault. -/
abbrev Parse (α : Type) (bound : Nat) := Except Fault (Parsed α bound)

/-- What was read out of a list is also read out of any longer one. -/
def Parsed.widen {α : Type} {m n : Nat} (p : Parsed α m) (h : m ≤ n) : Parsed α n :=
  ⟨p.value, p.rest, Nat.lt_of_lt_of_le p.length_rest_lt h⟩

namespace Grammar

/-! ## Single tokens -/

/-- Reads one token of the given kind. -/
def expect (kind : Kind) (ts : List Token) : Parse Unit ts.length :=
  match ts with
  | [] => .error ⟨.unexpected kind .endOfInput, []⟩
  | t :: rest =>
    if t.kind = kind then .ok ⟨(), rest, Nat.lt_succ_self _⟩
    else .error ⟨.unexpected kind t.kind, t :: rest⟩

/-- Reads a name. -/
def expectName (ts : List Token) : Parse String ts.length :=
  match ts with
  | .ident name :: rest => .ok ⟨name, rest, Nat.lt_succ_self _⟩
  | ts => .error ⟨.unexpected .ident (Kind.ofNext ts), ts⟩

/-- The tokens after one optional `;`. -/
def skipSemicolon : List Token → List Token
  | .symbol .semicolon :: rest => rest
  | ts => ts

theorem length_skipSemicolon_le (ts : List Token) : (skipSemicolon ts).length ≤ ts.length := by
  unfold skipSemicolon
  split <;> simp

/-- Takes the `;` that may follow a statement. -/
def closeStatement {bound : Nat} (s : Parsed Stmt bound) : Parsed Stmt bound :=
  ⟨s.value, skipSemicolon s.rest,
    Nat.lt_of_le_of_lt (length_skipSemicolon_le s.rest) s.length_rest_lt⟩

/-! ## Parameter lists -/

/-- Reads the parameters after the first one, and the `)` that closes the list. -/
def moreParameters (ts : List Token) : Parse (List String) ts.length :=
  match ts with
  | .symbol .comma :: rest => do
    let param ← expectName rest
    have := param.length_rest_lt
    let more ← moreParameters param.rest
    have := more.length_rest_lt
    return ⟨param.value :: more.value, more.rest, by simp only [List.length_cons]; omega⟩
  | ts => do
    let closed ← expect (.symbol .rightParen) ts
    return ⟨[], closed.rest, closed.length_rest_lt⟩
termination_by ts.length
decreasing_by
  simp only [List.length_cons]
  omega

/-- Reads a parameter list after its `(`, up to and including its `)`. -/
def parameters (ts : List Token) : Parse (List String) ts.length :=
  match ts with
  | .symbol .rightParen :: rest => .ok ⟨[], rest, Nat.lt_succ_self _⟩
  | ts => do
    let param ← expectName ts
    let more ← moreParameters param.rest
    return ⟨param.value :: more.value, more.rest,
      Nat.lt_trans more.length_rest_lt param.length_rest_lt⟩

/-! ## Expressions and statements -/

/-- What a token that follows an expression can make of it. -/
inductive Continuation where
  /-- The left operand of a binary operator. -/
  | binary (op : BinaryOp)
  /-- The callee of a call. -/
  | call
  /-- The collection that is indexed. -/
  | index
  deriving DecidableEq, Repr

namespace Continuation

/-- The continuation that a token starts, if it starts one. -/
def ofToken? : Token → Option Continuation
  | .symbol .leftParen => some call
  | .symbol .leftBracket => some index
  | .symbol s => (BinaryOp.ofSymbol? s).map binary
  | _ => none

/-- How tightly a continuation binds to the expression before it. -/
def precedence : Continuation → Precedence
  | binary op => op.precedence
  | call => .call
  | index => .index

end Continuation

mutual

/-- Reads an expression with all continuations that bind more tightly than `floor`. -/
def expression (floor : Precedence) (ts : List Token) : Parse Expr ts.length := do
  let left ← operand ts
  have := left.length_rest_lt
  let whole ← continued floor left.value left.rest
  return whole.widen (by omega)
termination_by 4 * ts.length + 1

/-- Reads an operand: what an expression starts with. -/
def operand (ts : List Token) : Parse Expr ts.length :=
  match ts with
  | .ident name :: rest => .ok ⟨.name name, rest, Nat.lt_succ_self _⟩
  | .int digits :: rest =>
    let value := Nat.ofDigitChars 10 digits.toList 0
    if value ≤ maxInteger then .ok ⟨.int value, rest, Nat.lt_succ_self _⟩
    else .error ⟨.integerTooLarge digits, .int digits :: rest⟩
  | .str contents :: rest => .ok ⟨.str contents, rest, Nat.lt_succ_self _⟩
  | .keyword .trueWord :: rest => .ok ⟨.bool true, rest, Nat.lt_succ_self _⟩
  | .keyword .falseWord :: rest => .ok ⟨.bool false, rest, Nat.lt_succ_self _⟩
  | .symbol .bang :: rest => do
    let e ← expression .unary rest
    return ⟨.unary .not e.value, e.rest, Nat.lt_succ_of_lt e.length_rest_lt⟩
  | .symbol .minus :: rest => do
    let e ← expression .unary rest
    return ⟨.unary .negate e.value, e.rest, Nat.lt_succ_of_lt e.length_rest_lt⟩
  | .symbol .leftParen :: rest => do
    let e ← expression .lowest rest
    let closed ← expect (.symbol .rightParen) e.rest
    -- The tree does not keep the parentheses: it nests by itself.
    return ⟨e.value, closed.rest,
      Nat.lt_succ_of_lt (Nat.lt_trans closed.length_rest_lt e.length_rest_lt)⟩
  | .keyword .ifWord :: rest => do
    let condition ← expression .lowest rest
    have := condition.length_rest_lt
    let opened ← expect (.symbol .leftBrace) condition.rest
    have := opened.length_rest_lt
    let thenBlock ← block opened.rest
    have := thenBlock.length_rest_lt
    let elseBlock ← alternative thenBlock.rest
    have := elseBlock.length_rest_lt
    return ⟨.cond condition.value thenBlock.value elseBlock.value, elseBlock.rest, by
      simp only [List.length_cons]; omega⟩
  | .keyword .fn :: rest => do
    let opened ← expect (.symbol .leftParen) rest
    have := opened.length_rest_lt
    let params ← parameters opened.rest
    have := params.length_rest_lt
    let opened ← expect (.symbol .leftBrace) params.rest
    have := opened.length_rest_lt
    let body ← block opened.rest
    have := body.length_rest_lt
    return ⟨.fn params.value body.value, body.rest, by simp only [List.length_cons]; omega⟩
  | .symbol .leftBracket :: rest => do
    let elements ← items .rightBracket rest
    return ⟨.array elements.value, elements.rest, Nat.lt_succ_of_lt elements.length_rest_lt⟩
  | .symbol .leftBrace :: rest => do
    let entries ← pairs rest
    return ⟨.map entries.value, entries.rest, Nat.lt_succ_of_lt entries.length_rest_lt⟩
  | ts => .error ⟨.noOperand (Kind.ofNext ts), ts⟩
termination_by 4 * ts.length

/-- Reads an `else` block, if there is one. -/
def alternative (ts : List Token) : Parse (Option (List Stmt)) (ts.length + 1) :=
  match ts with
  | .keyword .elseWord :: rest => do
    let opened ← expect (.symbol .leftBrace) rest
    have := opened.length_rest_lt
    let elseBlock ← block opened.rest
    have := elseBlock.length_rest_lt
    return ⟨some elseBlock.value, elseBlock.rest, by simp only [List.length_cons]; omega⟩
  | ts => .ok ⟨none, ts, Nat.lt_succ_self _⟩
termination_by 4 * ts.length

/-- Reads the continuations of the expression `left` that bind more tightly than `floor`. -/
def continued (floor : Precedence) (left : Expr) (ts : List Token) :
    Parse Expr (ts.length + 1) :=
  match ts with
  | [] => .ok ⟨left, [], Nat.lt_succ_self _⟩
  | t :: rest =>
    match Continuation.ofToken? t with
    | none => .ok ⟨left, t :: rest, Nat.lt_succ_self _⟩
    | some continuation =>
      if floor < continuation.precedence then
        match continuation with
        | .binary op => do
          -- The right operand takes only what binds more tightly than `op` itself.
          let right ← expression op.precedence rest
          have := right.length_rest_lt
          let whole ← continued floor (.binary op left right.value) right.rest
          return whole.widen (by simp only [List.length_cons]; omega)
        | .call => do
          let args ← items .rightParen rest
          have := args.length_rest_lt
          let whole ← continued floor (.call left args.value) args.rest
          return whole.widen (by simp only [List.length_cons]; omega)
        | .index => do
          let position ← expression .lowest rest
          have := position.length_rest_lt
          let closed ← expect (.symbol .rightBracket) position.rest
          have := closed.length_rest_lt
          let whole ← continued floor (.index left position.value) closed.rest
          return whole.widen (by simp only [List.length_cons]; omega)
      else .ok ⟨left, t :: rest, Nat.lt_succ_self _⟩
termination_by 4 * ts.length

/-- Reads a list of expressions after its opening bracket, up to and including the closing one. -/
def items (closing : Symbol) (ts : List Token) : Parse (List Expr) ts.length :=
  if Kind.ofNext ts = .symbol closing then do
    let closed ← expect (.symbol closing) ts
    return ⟨[], closed.rest, closed.length_rest_lt⟩
  else do
    let item ← expression .lowest ts
    have := item.length_rest_lt
    let more ← moreItems closing item.rest
    return ⟨item.value :: more.value, more.rest, Nat.lt_trans more.length_rest_lt this⟩
termination_by 4 * ts.length + 2

/-- Reads the items of a list after the first one, and its closing bracket. -/
def moreItems (closing : Symbol) (ts : List Token) : Parse (List Expr) ts.length :=
  match ts with
  | .symbol .comma :: rest => do
    let item ← expression .lowest rest
    have := item.length_rest_lt
    let more ← moreItems closing item.rest
    have := more.length_rest_lt
    return ⟨item.value :: more.value, more.rest, by simp only [List.length_cons]; omega⟩
  | ts => do
    let closed ← expect (.symbol closing) ts
    return ⟨[], closed.rest, closed.length_rest_lt⟩
termination_by 4 * ts.length

/-- Reads the pairs of a map after its `{`, up to and including its `}`. -/
def pairs (ts : List Token) : Parse (List (Expr × Expr)) ts.length :=
  match ts with
  | .symbol .rightBrace :: rest => .ok ⟨[], rest, Nat.lt_succ_self _⟩
  | ts => do
    let key ← expression .lowest ts
    have := key.length_rest_lt
    let colon ← expect (.symbol .colon) key.rest
    have := colon.length_rest_lt
    let value ← expression .lowest colon.rest
    have := value.length_rest_lt
    if Kind.ofNext value.rest = .symbol .rightBrace then
      let closed ← expect (.symbol .rightBrace) value.rest
      have := closed.length_rest_lt
      return ⟨[(key.value, value.value)], closed.rest, by omega⟩
    else
      let comma ← expect (.symbol .comma) value.rest
      have := comma.length_rest_lt
      let more ← pairs comma.rest
      have := more.length_rest_lt
      return ⟨(key.value, value.value) :: more.value, more.rest, by omega⟩
termination_by 4 * ts.length + 2

/-- Reads the statements of a block after its `{`, up to and including its `}`. -/
def block (ts : List Token) : Parse (List Stmt) ts.length :=
  match ts with
  | [] => .error ⟨.unexpected (.symbol .rightBrace) .endOfInput, []⟩
  | .symbol .rightBrace :: rest => .ok ⟨[], rest, Nat.lt_succ_self _⟩
  | ts => do
    let first ← statement ts
    have := first.length_rest_lt
    let more ← block first.rest
    return ⟨first.value :: more.value, more.rest, Nat.lt_trans more.length_rest_lt this⟩
termination_by 4 * ts.length + 3

/-- Reads a statement with the `;` that may follow it. -/
def statement (ts : List Token) : Parse Stmt ts.length :=
  match ts with
  | .keyword .const :: rest => do
    let name ← expectName rest
    have := name.length_rest_lt
    let assigned ← expect (.symbol .assign) name.rest
    have := assigned.length_rest_lt
    let value ← expression .lowest assigned.rest
    have := value.length_rest_lt
    return closeStatement ⟨.const name.value value.value, value.rest, by
      simp only [List.length_cons]; omega⟩
  | .keyword .returnWord :: rest => do
    let value ← expression .lowest rest
    return closeStatement ⟨.ret value.value, value.rest, Nat.lt_succ_of_lt value.length_rest_lt⟩
  | ts => do
    let e ← expression .lowest ts
    return closeStatement ⟨.expr e.value, e.rest, e.length_rest_lt⟩
termination_by 4 * ts.length + 2

end

end Grammar

end ConstScript
