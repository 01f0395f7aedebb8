import ConstScript.Proofs.Token.Spelling
import ConstScript.Syntax.Basic

set_option autoImplicit false

/-! # Trees that can be written down

Not every tree is one that a source text can denote: a name has to be a word that is not reserved,
an integer must not exceed the largest one, and a string literal has no way to contain a quote. -/

namespace ConstScript

mutual

/-- Whether all names and literals of an expression can be written down. -/
def Expr.isWellFormed : Expr → Bool
  | .name n => isName n
  | .int value => value ≤ maxInteger
  | .str contents => contents.toList.all (fun c => !isQuote c)
  | .bool _ => true
  | .unary _ operand => operand.isWellFormed
  | .binary _ left right => left.isWellFormed && right.isWellFormed
  | .cond condition thenBlock none => condition.isWellFormed && Stmt.areWellFormed thenBlock
  | .cond condition thenBlock (some elseBlock) =>
    condition.isWellFormed && Stmt.areWellFormed thenBlock && Stmt.areWellFormed elseBlock
  | .fn params body => params.all isName && Stmt.areWellFormed body
  | .call callee args => callee.isWellFormed && Expr.areWellFormed args
  | .array items => Expr.areWellFormed items
  | .map pairs => Expr.pairsAreWellFormed pairs
  | .index collection position => collection.isWellFormed && position.isWellFormed

/-- Whether all of the expressions can be written down. -/
def Expr.areWellFormed : List Expr → Bool
  | [] => true
  | e :: es => e.isWellFormed && Expr.areWellFormed es

/-- Whether all pairs of a map literal can be written down. -/
def Expr.pairsAreWellFormed : List (Expr × Expr) → Bool
  | [] => true
  | (key, value) :: pairs =>
    key.isWellFormed && value.isWellFormed && Expr.pairsAreWellFormed pairs

/-- Whether all names and literals of a statement can be written down. -/
def Stmt.isWellFormed : Stmt → Bool
  | .const name value => isName name && value.isWellFormed
  | .ret value => value.isWellFormed
  | .expr e => e.isWellFormed

/-- Whether all of the statements can be written down. -/
def Stmt.areWellFormed : List Stmt → Bool
  | [] => true
  | s :: ss => s.isWellFormed && Stmt.areWellFormed ss

end

/-- Whether all names and literals of a program can be written down. -/
def Program.isWellFormed (p : Program) : Bool :=
  Stmt.areWellFormed p.statements

end ConstScript
