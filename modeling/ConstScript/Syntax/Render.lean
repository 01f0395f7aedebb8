import ConstScript.Syntax.Basic

set_option autoImplicit false

/-! # The canonical text of a syntax tree

Every tree has one canonical text. Operators and index brackets are written with parentheses around
them, so the text shows how the tree nests; calls, `if`, functions, arrays and maps are delimited by
their own brackets and get none. Statements are separated by `; `, list items by `, `. -/

namespace ConstScript

/-- The texts one after another, with a separator between neighbours. -/
def joinWith (separator : String) : List String → String
  | [] => ""
  | [t] => t
  | t :: u :: ts => t ++ separator ++ joinWith separator (u :: ts)

/-- The text of a block with the given statements. -/
def blockText : List String → String
  | [] => "\x7b \x7d"
  | statements => "\x7b " ++ joinWith "; " statements ++ " \x7d"

mutual

/-- The canonical text of an expression. -/
def Expr.text : Expr → String
  | .name n => n
  | .int value => toString value
  | .str contents => "\"" ++ contents ++ "\""
  | .bool value => toString value
  | .unary op operand => "(" ++ op.text ++ operand.text ++ ")"
  | .binary op left right => "(" ++ left.text ++ " " ++ op.text ++ " " ++ right.text ++ ")"
  | .cond condition thenBlock none =>
    "if " ++ condition.text ++ " " ++ blockText (Stmt.texts thenBlock)
  | .cond condition thenBlock (some elseBlock) =>
    "if " ++ condition.text ++ " " ++ blockText (Stmt.texts thenBlock) ++
      " else " ++ blockText (Stmt.texts elseBlock)
  | .fn params body => "fn(" ++ joinWith ", " params ++ ") " ++ blockText (Stmt.texts body)
  | .call callee args => callee.text ++ "(" ++ joinWith ", " (Expr.texts args) ++ ")"
  | .array items => "[" ++ joinWith ", " (Expr.texts items) ++ "]"
  | .map pairs => "\x7b" ++ joinWith ", " (Expr.pairTexts pairs) ++ "\x7d"
  | .index collection position => "(" ++ collection.text ++ "[" ++ position.text ++ "])"

/-- The canonical texts of expressions. -/
def Expr.texts : List Expr → List String
  | [] => []
  | e :: es => e.text :: Expr.texts es

/-- The canonical texts of the pairs of a map literal. -/
def Expr.pairTexts : List (Expr × Expr) → List String
  | [] => []
  | (key, value) :: pairs => (key.text ++ ": " ++ value.text) :: Expr.pairTexts pairs

/-- The canonical text of a statement. -/
def Stmt.text : Stmt → String
  | .const name value => "const " ++ name ++ " = " ++ value.text
  | .ret value => "return " ++ value.text
  | .expr e => e.text

/-- The canonical texts of statements. -/
def Stmt.texts : List Stmt → List String
  | [] => []
  | s :: ss => s.text :: Stmt.texts ss

end

/-- The canonical text of a program. -/
def Program.text (p : Program) : String :=
  joinWith "; " (Stmt.texts p.statements)

theorem Expr.texts_eq_map (es : List Expr) : Expr.texts es = es.map Expr.text := by
  induction es with
  | nil => rfl
  | cons e es ih => simp [Expr.texts, ih]

theorem Expr.pairTexts_eq_map (ps : List (Expr × Expr)) :
    Expr.pairTexts ps = ps.map (fun p => p.1.text ++ ": " ++ p.2.text) := by
  induction ps with
  | nil => rfl
  | cons p ps ih => simp [Expr.pairTexts, ih]

theorem Stmt.texts_eq_map (ss : List Stmt) : Stmt.texts ss = ss.map Stmt.text := by
  induction ss with
  | nil => rfl
  | cons s ss ih => simp [Stmt.texts, ih]

end ConstScript
