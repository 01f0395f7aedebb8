import ConstScript.Value.Basic

set_option autoImplicit false

/-! # Scopes

A scope binds names to values, each name at most once, and may be enclosed by an outer scope,
whose bindings it sees unless it has its own of the same name. Scopes are numbered in the order
of their creation and kept in a `Store`, together with what else an evaluation leaves behind:
the number of identities that were given out and the text that was printed.

A scope is always created inside one that exists already, so links to outer scopes lead to
smaller numbers. `Store.chain` follows no other links, which is why it ends. -/

namespace ConstScript

/-- A scope: its bindings, the newest first, and the scope that encloses it. -/
structure Scope where
  bindings : List (String × Value)
  outer : Option ScopeId

/-- The value that a scope itself binds a name to. -/
def Scope.get? (scope : Scope) (name : String) : Option Value :=
  scope.bindings.lookup name

/-- The names a scope binds, the newest first. -/
def Scope.names (scope : Scope) : List String :=
  scope.bindings.map Prod.fst

/-- All scopes, the number of identities given out, and the text printed so far. -/
structure Store where
  scopes : Array Scope
  objects : Nat
  output : String

namespace Store

/-- The store before any evaluation: nothing is in it. -/
def empty : Store := ⟨#[], 0, ""⟩

/-! ## Creating scopes and identities -/

/-- Creates a scope without bindings inside `outer`, or one without an outer scope. -/
def openScope (st : Store) (outer : Option ScopeId) : ScopeId × Store :=
  (st.scopes.size, { st with scopes := st.scopes.push ⟨[], outer⟩ })

/-- Gives out an identity that was not given out before. -/
def freshObject (st : Store) : ObjectId × Store :=
  (st.objects, { st with objects := st.objects + 1 })

/-- Appends text to what was printed. -/
def print (st : Store) (text : String) : Store :=
  { st with output := st.output ++ text }

/-! ## Bindings -/

/-- The value that a scope itself binds a name to, outer scopes aside. -/
def getOwn? (st : Store) (id : ScopeId) (name : String) : Option Value :=
  st.scopes[id]?.bind (fun scope => scope.get? name)

/-- Whether a scope itself binds a name. -/
def binds (st : Store) (id : ScopeId) (name : String) : Bool :=
  (st.getOwn? id name).isSome

/-- Adds a binding to a scope. -/
def addBinding (st : Store) (id : ScopeId) (name : String) (value : Value) : Store :=
  { st with
    scopes := st.scopes.modify id fun scope =>
      { scope with bindings := (name, value) :: scope.bindings } }

/-- Binds a name in a scope, unless that scope binds it already. -/
def define (st : Store) (id : ScopeId) (name : String) (value : Value) :
    Except RuntimeError Store :=
  if st.binds id name then .error (.alreadyDeclared name)
  else .ok (st.addBinding id name value)

/-- A scope and the scopes that enclose it, from the inside out. -/
def chain (st : Store) (id : ScopeId) : List Scope :=
  match st.scopes[id]? with
  | none => []
  | some scope =>
    scope ::
      match scope.outer with
      | none => []
      | some outer => if outer < id then st.chain outer else []
termination_by id

/-- The value a name has in a scope: the one that the innermost scope of its chain that binds the
    name binds it to. -/
def lookup (st : Store) (id : ScopeId) (name : String) : Option Value :=
  (st.chain id).findSome? (fun scope => scope.get? name)

end Store

end ConstScript
