import ConstScript.Scope.Basic

set_option autoImplicit false

/-! # The evaluation monad

An evaluation reads and extends a store and either ends with a value or is *stopped*: by a
runtime error, by a `return`, or because calls are nested more deeply than was allowed. What was
done before it stopped stays done. -/

namespace ConstScript

/-- Why an evaluation stopped before it had a value. -/
inductive Stop where
  /-- A runtime error, which ends the program. -/
  | failed (e : RuntimeError)
  /-- A `return`, which ends the nearest call, or the program where there is no call. -/
  | returned (v : Value)
  /-- Calls are nested more deeply than was allowed. -/
  | tooDeep

/-- Evaluations with a result in `α`. -/
abbrev Eval (α : Type) := EStateM Stop Store α

namespace Eval

variable {α : Type}

/-- Stops with a runtime error. -/
def fail (e : RuntimeError) : Eval α := throw (.failed e)

/-- The result of a computation that needs no store. -/
def ofExcept : Except RuntimeError α → Eval α
  | .ok a => pure a
  | .error e => fail e

/-- Lets a `return` end here, with its value as the result. -/
def catchReturn (x : Eval Value) : Eval Value := fun st =>
  match x st with
  | .error (.returned v) st' => .ok v st'
  | result => result

/-- An identity that was not given out before. -/
def freshObject : Eval ObjectId := modifyGet Store.freshObject

/-- A new array. -/
def newArray (items : List Value) : Eval Value := do
  return .array (← freshObject) items

/-- A new map, with a table that entries were put into. -/
def newMap [Hashing] (puts : List (Entry Value)) : Eval Value := do
  return .map (← freshObject) (Table.ofPuts puts)

/-- A new function value. -/
def newFunction (params : List String) (body : List Stmt) (scope : ScopeId) : Eval Value := do
  return .function ⟨← freshObject, params, body, scope⟩

/-- A new scope inside another one. -/
def enclose (outer : ScopeId) : Eval ScopeId := modifyGet (Store.openScope · (some outer))

/-- Binds a name in a scope. -/
def define (scope : ScopeId) (name : String) (value : Value) : Eval Unit := do
  if (← get).binds scope name then fail (.alreadyDeclared name)
  else modify (Store.addBinding · scope name value)

theorem define_run (scope : ScopeId) (name : String) (value : Value) (st : Store) :
    (define scope name value).run st =
      match st.define scope name value with
      | .ok st' => .ok () st'
      | .error e => .error (.failed e) st := by
  show (if st.binds scope name then fail (.alreadyDeclared name)
    else modify (Store.addBinding · scope name value) : Eval Unit) st = _
  unfold Store.define
  split <;> rfl

/-- Prints a text and ends the line. -/
def printLine (text : String) : Eval Unit := modify (Store.print · (text ++ "\n"))

end Eval

/-- The value of a name: what it is bound to, else the built-in function of that name. -/
def Eval.resolve (scope : ScopeId) (name : String) : Eval Value := do
  match (← get).lookup scope name with
  | some value => return value
  | none =>
    match Builtin.ofName? name with
    | some b => return .builtin b
    | none => fail (.notFound name)

end ConstScript
