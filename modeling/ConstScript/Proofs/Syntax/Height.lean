import ConstScript.Syntax.Basic

set_option autoImplicit false

/-! # How deeply a syntax tree nests

The *height* of a phrase is the number of edges on the longest way down from it: to the operands,
items, pairs and blocks of an expression, to the expression of a statement, and to the statements of
a block. So a name or a literal has height 0. -/

namespace ConstScript

mutual

/-- How deeply an expression nests. -/
def Expr.height : Expr → Nat
  | .name _ | .int _ | .str _ | .bool _ => 0
  | .unary _ operand => operand.height + 1
  | .binary _ left right => max left.height right.height + 1
  | .cond condition thenBlock none => max condition.height (Stmt.blockHeight thenBlock) + 1
  | .cond condition thenBlock (some elseBlock) =>
    max condition.height (max (Stmt.blockHeight thenBlock) (Stmt.blockHeight elseBlock)) + 1
  | .fn _ body => Stmt.blockHeight body + 1
  | .call callee args => max callee.height (Expr.maxHeight args) + 1
  | .array items => Expr.maxHeight items + 1
  | .map pairs => Expr.pairsHeight pairs + 1
  | .index collection position => max collection.height position.height + 1

/-- The height of the highest expression. -/
def Expr.maxHeight : List Expr → Nat
  | [] => 0
  | e :: es => max e.height (Expr.maxHeight es)

/-- The height of the highest expression in the pairs of a map literal. -/
def Expr.pairsHeight : List (Expr × Expr) → Nat
  | [] => 0
  | (key, value) :: pairs => max (max key.height value.height) (Expr.pairsHeight pairs)

/-- How deeply a statement nests. -/
def Stmt.height : Stmt → Nat
  | .const _ value => value.height + 1
  | .ret value => value.height + 1
  | .expr e => e.height + 1

/-- How deeply a block nests. -/
def Stmt.blockHeight : List Stmt → Nat
  | [] => 0
  | s :: ss => max (s.height + 1) (Stmt.blockHeight ss)

end

/-- How deeply a program nests. -/
def Program.height (p : Program) : Nat := Stmt.blockHeight p.statements

theorem Expr.maxHeight_append (es es' : List Expr) :
    Expr.maxHeight (es ++ es') = max (Expr.maxHeight es) (Expr.maxHeight es') := by
  induction es with
  | nil => simp [Expr.maxHeight]
  | cons e es ih => rw [List.cons_append, Expr.maxHeight, ih, Expr.maxHeight, Nat.max_assoc]

theorem Expr.pairsHeight_append (pairs pairs' : List (Expr × Expr)) :
    Expr.pairsHeight (pairs ++ pairs')
      = max (Expr.pairsHeight pairs) (Expr.pairsHeight pairs') := by
  induction pairs with
  | nil => simp [Expr.pairsHeight]
  | cons p pairs ih =>
      rw [List.cons_append, Expr.pairsHeight, ih, Expr.pairsHeight]
      omega

theorem Stmt.blockHeight_append (ss ss' : List Stmt) :
    Stmt.blockHeight (ss ++ ss') = max (Stmt.blockHeight ss) (Stmt.blockHeight ss') := by
  induction ss with
  | nil => simp [Stmt.blockHeight]
  | cons s ss ih => rw [List.cons_append, Stmt.blockHeight, ih, Stmt.blockHeight, Nat.max_assoc]

end ConstScript
