import ConstScript.Syntax.Operator

set_option autoImplicit false

/-! # Syntax trees

A program is a list of statements. A statement binds a name, returns a value or is an expression;
blocks, which are lists of statements themselves, occur inside expressions as the branches of `if`
and as the bodies of functions. -/

namespace ConstScript

/-- The largest integer, one less than the 63rd power of two. -/
def maxInteger : Nat := 9223372036854775807

mutual

/-- Expressions. -/
inductive Expr where
  /-- A reference to a binding. -/
  | name (name : String)
  /-- An integer literal. The minus sign is an operator, so the value is never negative. -/
  | int (value : Nat)
  /-- A string literal, without its quotes. -/
  | str (contents : String)
  /-- `true` or `false`. -/
  | bool (value : Bool)
  /-- A prefix operator and its operand. -/
  | unary (op : UnaryOp) (operand : Expr)
  /-- A binary operator between its operands. -/
  | binary (op : BinaryOp) (left right : Expr)
  /-- `if`, with or without an `else` block. -/
  | cond (condition : Expr) (thenBlock : List Stmt) (elseBlock : Option (List Stmt))
  /-- A function literal. -/
  | fn (params : List String) (body : List Stmt)
  /-- A call. -/
  | call (callee : Expr) (args : List Expr)
  /-- An array literal. -/
  | array (items : List Expr)
  /-- A map literal, its pairs in the order in which they are written. -/
  | map (pairs : List (Expr × Expr))
  /-- An element of an array or a map. -/
  | index (collection position : Expr)

/-- Statements. -/
inductive Stmt where
  /-- A write-once binding. -/
  | const (name : String) (value : Expr)
  /-- A `return`. -/
  | ret (value : Expr)
  /-- An expression, evaluated for its value. -/
  | expr (e : Expr)

end

/-- A program: its statements in order. -/
structure Program where
  statements : List Stmt

/-! ## The token a node is built around -/

/-- The text of the token an expression is built around: the operator, the keyword or the opening
    bracket of a compound expression, and a name or literal itself. -/
def Expr.lead : Expr → String
  | name n => n
  | int value => toString value
  | str contents => contents
  | bool value => toString value
  | unary op _ => op.text
  | binary op _ _ => op.text
  | cond .. => Keyword.ifWord.text
  | fn .. => Keyword.fn.text
  | call .. => Symbol.leftParen.text
  | array _ => Symbol.leftBracket.text
  | map _ => Symbol.leftBrace.text
  | index .. => Symbol.leftBracket.text

/-- The text of the token a statement is built around. -/
def Stmt.lead : Stmt → String
  | const .. => Keyword.const.text
  | ret _ => Keyword.returnWord.text
  | expr e => e.lead

/-- The text of the token the first statement of a program is built around; nothing for an empty
    program. -/
def Program.lead (p : Program) : String :=
  match p.statements with
  | [] => ""
  | s :: _ => s.lead

end ConstScript
