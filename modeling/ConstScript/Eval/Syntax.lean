import ConstScript.Eval.Builtin
import ConstScript.Eval.Operator

set_option autoImplicit false

/-! # Evaluating syntax trees

Evaluation goes strictly from left to right, and stops at once when a part stops. Only calls
open scopes: the blocks of an `if` bind in the scope around them. Each evaluation of an array,
map or function literal creates a new object.

The functions here recurse on the syntax tree and leave open what a call of a function value
does: that is the parameter `call`, which `Closure.call` supplies. -/

namespace ConstScript

/-- What a callee does with its arguments, where `call` says what function values do. -/
def Value.apply (call : Closure → List Value → Eval Value) (callee : Value) (args : List Value) :
    Eval Value :=
  match callee with
  | .function f => call f args
  | .builtin b => b.apply args
  | v => Eval.fail (.notAFunction v.kind)

/-- A value as a key of a map. -/
def Eval.asKey (v : Value) : Eval Key :=
  match v.toKey? with
  | some key => pure key
  | none => fail (.unusableKey v.kind)

section

variable [Hashing] (call : Closure → List Value → Eval Value) (scope : ScopeId)

mutual

/-- The value of an expression in a scope. -/
def Expr.eval : Expr → Eval Value
  | .name n => Eval.resolve scope n
  | .int value => return .int (Int64.ofNat value)
  | .str contents => return .str contents
  | .bool value => return .bool value
  | .unary op operand => do
    let v ← operand.eval
    Eval.ofExcept (op.apply v)
  | .binary op left right => do
    let v ← left.eval
    let w ← right.eval
    Eval.ofExcept (op.apply v w)
  | .cond condition thenBlock elseBlock => do
    let c ← condition.eval
    if c.isTruthy then
      Stmt.evalAll .null thenBlock
    else
      match elseBlock with
      | some block => Stmt.evalAll .null block
      | none => return .null
  | .fn params body => Eval.newFunction params body scope
  | .call callee args => do
    let f ← callee.eval
    let vs ← Expr.evalAll args
    f.apply call vs
  | .array items => do
    let vs ← Expr.evalAll items
    Eval.newArray vs
  | .map pairs => do
    let puts ← Expr.evalPairs [] pairs
    Eval.newMap puts
  | .index collection position => do
    let v ← collection.eval
    let w ← position.eval
    Eval.ofExcept (v.index w)

/-- The values of expressions, from left to right. -/
def Expr.evalAll : List Expr → Eval (List Value)
  | [] => return []
  | e :: es => do
    let v ← e.eval
    let vs ← Expr.evalAll es
    return v :: vs

/-- What the pairs of a map literal put into its table, after what was put there already. A key is
    checked before its value is evaluated. -/
def Expr.evalPairs (puts : List (Entry Value)) : List (Expr × Expr) → Eval (List (Entry Value))
  | [] => return puts
  | (key, value) :: pairs => do
    let k ← key.eval
    let k ← Eval.asKey k
    let v ← value.eval
    Expr.evalPairs (puts ++ [Table.entry k v]) pairs

/-- Executes a statement. -/
def Stmt.eval : Stmt → Eval Value
  | .const name value => do
    let v ← value.eval
    Eval.define scope name v
    return .null
  | .ret value => do
    let v ← value.eval
    throw (.returned v)
  | .expr e => e.eval

/-- Executes statements in order. The result is the value of the last one, or `last` if there is
    no statement. -/
def Stmt.evalAll (last : Value) : List Stmt → Eval Value
  | [] => return last
  | s :: ss => do
    let v ← s.eval
    Stmt.evalAll v ss

end

end

end ConstScript
