import ConstScript.Scope.Basic
import ConstScript.Syntax.Render
import ConstScript.Text.Quoted

set_option autoImplicit false

/-! # Descriptions of scopes

A scope is described by the names it binds, in increasing order and in quotes, and by the
description of the scope that encloses it. Values are left out: a function can be bound in the
very scope it refers to. -/

namespace ConstScript

/-- The names a scope binds, in increasing order. -/
def Scope.sortedNames (scope : Scope) : List String :=
  scope.names.mergeSort (fun a b => a ≤ b)

/-- The description of a scope, given that of the scope that encloses it. -/
def Scope.describe (scope : Scope) (outer : Option String) : String :=
  let outerText :=
    match outer with
    | some text => "Some(" ++ text ++ ")"
    | none => "None"
  "Environment \x7b bindings: [" ++ joinWith ", " (scope.sortedNames.map quoted) ++
    "], outer: " ++ outerText ++ " \x7d"

/-- The description of the first scope of a chain, if there is one. -/
def describeChain : List Scope → Option String
  | [] => none
  | scope :: outer => some (scope.describe (describeChain outer))

/-- The description of a scope in a store, nothing if there is no such scope. -/
def Store.describe (st : Store) (id : ScopeId) : String :=
  (describeChain (st.chain id)).getD ""

end ConstScript
