import ConstScript.Syntax.Operator
import ConstScript.Value.Kind

set_option autoImplicit false

/-! # Runtime errors

The causes for which the evaluation of a program fails, and the text that reports each. -/

namespace ConstScript

/-- Why an evaluation failed. -/
inductive RuntimeError where
  /-- A name is neither bound nor that of a built-in function. -/
  | notFound (name : String)
  /-- A name is bound already in the scope that was to bind it. -/
  | alreadyDeclared (name : String)
  /-- A prefix operator does not apply to values of this kind. -/
  | unknownUnary (op : UnaryOp) (operand : ValueKind)
  /-- A binary operator does not apply to values of these kinds. -/
  | unknownBinary (left : ValueKind) (op : BinaryOp) (right : ValueKind)
  /-- A binary operator other than `==` and `!=` has operands of different kinds. -/
  | typeMismatch (left : ValueKind) (op : BinaryOp) (right : ValueKind)
  /-- A divisor is zero. -/
  | divisionByZero
  /-- A value that is no function is called. -/
  | notAFunction (kind : ValueKind)
  /-- A value that cannot be a key of a map is used as one. -/
  | unusableKey (kind : ValueKind)
  /-- A value cannot be indexed, or not by this kind of value. -/
  | cannotIndex (collection position : ValueKind)
  /-- A function is called with a wrong number of arguments. -/
  | wrongArgumentCount (got want : Nat)
  /-- A built-in function does not take arguments of this kind. -/
  | unsupportedArgument (builtin : Builtin) (got : ValueKind)
  /-- The argument of a built-in function has to be of another kind. -/
  | wrongArgument (builtin : Builtin) (expected got : ValueKind)
  /-- The first argument of a built-in function has to be of another kind. -/
  | wrongFirstArgument (builtin : Builtin) (expected got : ValueKind)
  /-- A length exceeds the largest integer. -/
  | lengthOverflow
  deriving DecidableEq, Repr

/-- The text that reports a runtime error. -/
def RuntimeError.message : RuntimeError → String
  | notFound name => "identifier not found: " ++ name
  | alreadyDeclared name => "identifier already declared: " ++ name
  | unknownUnary op operand => "unknown operator: " ++ op.text ++ operand.name
  | unknownBinary left op right =>
    "unknown operator: " ++ left.name ++ " " ++ op.text ++ " " ++ right.name
  | typeMismatch left op right =>
    "type mismatch: " ++ left.name ++ " " ++ op.text ++ " " ++ right.name
  | divisionByZero => "division by zero"
  | notAFunction kind => "not a function: " ++ kind.name
  | unusableKey kind => "unusable as map key: " ++ kind.name
  | cannotIndex collection position =>
    "index operator not supported: " ++ collection.name ++ "[" ++ position.name ++ "]"
  | wrongArgumentCount got want =>
    "wrong number of arguments. got=" ++ toString got ++ ", want=" ++ toString want
  | unsupportedArgument builtin got =>
    "argument to '" ++ builtin.name ++ "' is not supported, got " ++ got.name
  | wrongArgument builtin expected got =>
    "argument to '" ++ builtin.name ++ "' must be of type " ++ expected.name ++ ", got " ++ got.name
  | wrongFirstArgument builtin expected got =>
    "first argument to '" ++ builtin.name ++ "' must be of type " ++ expected.name ++ ", got " ++
      got.name
  | lengthOverflow => "integer overflow while converting a length"

end ConstScript
