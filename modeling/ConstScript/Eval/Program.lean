import ConstScript.Eval.Syntax

set_option autoImplicit false

/-! # Calls and programs

A call of a function value opens a scope inside the one the function was created in, binds the
parameters there and executes the body. A `return` ends the call that executes it; errors go
through.

Functions can call themselves without end, so evaluation takes a *depth*: how many calls may be
nested. Nothing else can make an evaluation go on forever. An evaluation that would exceed the
depth stops as `Stop.tooDeep`, which is neither a value nor an error of the program. -/

namespace ConstScript

variable [Hashing]

/-! ## Calls -/

/-- Binds names to values in a scope, in order. -/
def Eval.defineAll (scope : ScopeId) : List (String × Value) → Eval Unit
  | [] => return ()
  | (name, value) :: rest => do
    Eval.define scope name value
    Eval.defineAll scope rest

/-- Opens the scope in which the body of a function is executed and binds the parameters in it. -/
def Closure.enter (f : Closure) (args : List Value) : Eval ScopeId := do
  Eval.ofExcept (checkArgumentCount args.length f.params.length)
  let scope ← Eval.enclose f.scope
  Eval.defineAll scope (f.params.zip args)
  return scope

/-- Calls a function value, with calls nested at most as deeply as the first argument says, this one
    included. Its arguments are bound in any case, so a call that cannot bind them fails at every
    depth. -/
def Closure.call : Nat → Closure → List Value → Eval Value
  | 0, f, args => do
    let _ ← f.enter args
    throw .tooDeep
  | depth + 1, f, args => do
    let scope ← f.enter args
    Eval.catchReturn (Stmt.evalAll (Closure.call depth) scope .null f.body)

/-- Applies any value to arguments, with at most `depth` nested calls. -/
def Value.applyTo (depth : Nat) (callee : Value) (args : List Value) : Eval Value :=
  callee.apply (Closure.call depth) args

/-! ## Programs -/

/-- Executes a program in a scope. The value is that of the last statement or of the `return` that
    ends the program, or the runtime error that does; there is none if calls are nested more deeply
    than `depth`. -/
def Program.eval (depth : Nat) (scope : ScopeId) (p : Program) (st : Store) :
    Option Value × Store :=
  match Stmt.evalAll (Closure.call depth) scope .null p.statements st with
  | .ok v st' => (some v, st')
  | .error (.returned v) st' => (some v, st')
  | .error (.failed e) st' => (some (.error e), st')
  | .error .tooDeep st' => (none, st')

end ConstScript
