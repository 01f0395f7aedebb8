import ConstScript.Token.Basic

set_option autoImplicit false

/-! # Operators and how tightly they bind

The two prefix operators and the eight binary ones, the symbols that denote them, and the levels of
precedence that decide how operators, calls and index brackets nest. -/

namespace ConstScript

/-! ## Operators -/

/-- The prefix operators. -/
inductive UnaryOp where
  | negate
  | not
  deriving DecidableEq, Repr

/-- The text of a prefix operator. -/
def UnaryOp.text : UnaryOp → String
  | negate => "-"
  | not => "!"

/-- The binary operators. -/
inductive BinaryOp where
  | add
  | sub
  | mul
  | div
  | less
  | greater
  | equal
  | notEqual
  deriving DecidableEq, Repr

namespace BinaryOp

/-- The symbol of a binary operator. -/
def symbol : BinaryOp → Symbol
  | add => .plus
  | sub => .minus
  | mul => .asterisk
  | div => .slash
  | less => .less
  | greater => .greater
  | equal => .equal
  | notEqual => .notEqual

/-- The text of a binary operator. -/
def text (op : BinaryOp) : String := op.symbol.text

/-- The binary operator that a symbol denotes, if it denotes one. -/
def ofSymbol? : Symbol → Option BinaryOp
  | .plus => some add
  | .minus => some sub
  | .asterisk => some mul
  | .slash => some div
  | .less => some less
  | .greater => some greater
  | .equal => some equal
  | .notEqual => some notEqual
  | _ => none

/-- The binary operator that tokens of a kind denote, if they denote one. -/
def ofKind? : Kind → Option BinaryOp
  | .symbol s => ofSymbol? s
  | _ => none

theorem ofSymbol?_eq_some_iff {s : Symbol} {op : BinaryOp} :
    ofSymbol? s = some op ↔ s = op.symbol := by
  cases s <;> cases op <;> decide

/-- Whether the operator compares for equality or inequality. -/
def isEquality : BinaryOp → Bool
  | equal | notEqual => true
  | _ => false

end BinaryOp

/-! ## Precedence -/

/-- The levels of precedence, from loosest to tightest. -/
inductive Precedence where
  | lowest
  | equality
  | comparison
  | sum
  | product
  | unary
  | call
  | index
  deriving DecidableEq, Repr

namespace Precedence

/-- The position of a level in the order from loosest to tightest. -/
def rank : Precedence → Nat
  | lowest => 0
  | equality => 1
  | comparison => 2
  | sum => 3
  | product => 4
  | unary => 5
  | call => 6
  | index => 7

/-- A level is below another if it binds more loosely. -/
instance : LT Precedence := ⟨fun a b => a.rank < b.rank⟩

instance (a b : Precedence) : Decidable (a < b) :=
  inferInstanceAs (Decidable (a.rank < b.rank))

end Precedence

/-- The level at which a binary operator binds. -/
def BinaryOp.precedence : BinaryOp → Precedence
  | equal | notEqual => .equality
  | less | greater => .comparison
  | add | sub => .sum
  | mul | div => .product

end ConstScript
