import ConstScript.Syntax.Basic

set_option autoImplicit false

/-! # What a phrase is made of

A *vocabulary* says what may occur in a phrase and in the values that its evaluation handles: which
names are looked up and bound, whether there are function literals, and whether a runtime error is
ever a value. What two evaluations have in common can depend on that: a binding matters only to
phrases that mention its name. -/

namespace ConstScript

/-- What phrases and values are made of. -/
structure Vocabulary where
  /-- The names that may be looked up or bound. -/
  names : String → Prop
  /-- Whether there may be functions other than the built-in ones. -/
  functions : Prop
  /-- Whether runtime errors may be values. -/
  errors : Prop

/-- The vocabulary of all phrases and values. -/
def Vocabulary.full : Vocabulary := ⟨fun _ => True, True, True⟩

/-- The vocabulary of all phrases without function literals. -/
def Vocabulary.withoutFunctions : Vocabulary := ⟨fun _ => True, False, True⟩

section

variable (voc : Vocabulary)

mutual

/-- An expression is made of what the vocabulary has. -/
def Expr.Uses : Expr → Prop
  | .name n => voc.names n
  | .int _ | .str _ | .bool _ => True
  | .unary _ operand => operand.Uses
  | .binary _ left right => left.Uses ∧ right.Uses
  | .cond condition thenBlock none => condition.Uses ∧ Stmt.AllUse thenBlock
  | .cond condition thenBlock (some elseBlock) =>
    condition.Uses ∧ Stmt.AllUse thenBlock ∧ Stmt.AllUse elseBlock
  | .fn params body => voc.functions ∧ (∀ p ∈ params, voc.names p) ∧ Stmt.AllUse body
  | .call callee args => callee.Uses ∧ Expr.AllUse args
  | .array items => Expr.AllUse items
  | .map pairs => Expr.PairsUse pairs
  | .index collection position => collection.Uses ∧ position.Uses

/-- Expressions are made of what the vocabulary has. -/
def Expr.AllUse : List Expr → Prop
  | [] => True
  | e :: es => e.Uses ∧ Expr.AllUse es

/-- The pairs of a map literal are made of what the vocabulary has. -/
def Expr.PairsUse : List (Expr × Expr) → Prop
  | [] => True
  | (key, value) :: pairs => key.Uses ∧ value.Uses ∧ Expr.PairsUse pairs

/-- A statement is made of what the vocabulary has. -/
def Stmt.Uses : Stmt → Prop
  | .const name value => voc.names name ∧ value.Uses
  | .ret value => value.Uses
  | .expr e => e.Uses

/-- Statements are made of what the vocabulary has. -/
def Stmt.AllUse : List Stmt → Prop
  | [] => True
  | s :: ss => s.Uses ∧ Stmt.AllUse ss

end

end

mutual

/-- The full vocabulary is enough for every expression. -/
theorem Expr.uses_full : (e : Expr) → e.Uses .full
  | .name _ | .int _ | .str _ | .bool _ => trivial
  | .unary _ operand => Expr.uses_full operand
  | .binary _ left right => ⟨Expr.uses_full left, Expr.uses_full right⟩
  | .cond condition thenBlock none =>
      ⟨Expr.uses_full condition, Stmt.allUse_full thenBlock⟩
  | .cond condition thenBlock (some elseBlock) =>
      ⟨Expr.uses_full condition, Stmt.allUse_full thenBlock, Stmt.allUse_full elseBlock⟩
  | .fn _ body => ⟨trivial, fun _ _ => trivial, Stmt.allUse_full body⟩
  | .call callee args => ⟨Expr.uses_full callee, Expr.allUse_full args⟩
  | .array items => Expr.allUse_full items
  | .map pairs => Expr.pairsUse_full pairs
  | .index collection position => ⟨Expr.uses_full collection, Expr.uses_full position⟩

theorem Expr.allUse_full : (es : List Expr) → Expr.AllUse .full es
  | [] => trivial
  | e :: es => ⟨Expr.uses_full e, Expr.allUse_full es⟩

theorem Expr.pairsUse_full : (pairs : List (Expr × Expr)) → Expr.PairsUse .full pairs
  | [] => trivial
  | (key, value) :: pairs =>
      ⟨Expr.uses_full key, Expr.uses_full value, Expr.pairsUse_full pairs⟩

theorem Stmt.uses_full : (s : Stmt) → s.Uses .full
  | .const _ value => ⟨trivial, Expr.uses_full value⟩
  | .ret value => Expr.uses_full value
  | .expr e => Expr.uses_full e

theorem Stmt.allUse_full : (ss : List Stmt) → Stmt.AllUse .full ss
  | [] => trivial
  | s :: ss => ⟨Stmt.uses_full s, Stmt.allUse_full ss⟩

end

section

variable {voc : Vocabulary}

theorem Expr.allUse_append {es es' : List Expr} :
    Expr.AllUse voc (es ++ es') ↔ Expr.AllUse voc es ∧ Expr.AllUse voc es' := by
  induction es with
  | nil => simp [Expr.AllUse]
  | cons e es ih => rw [List.cons_append, Expr.AllUse, ih, Expr.AllUse, and_assoc]

theorem Expr.pairsUse_append {pairs pairs' : List (Expr × Expr)} :
    Expr.PairsUse voc (pairs ++ pairs') ↔ Expr.PairsUse voc pairs ∧ Expr.PairsUse voc pairs' := by
  induction pairs with
  | nil => simp [Expr.PairsUse]
  | cons p pairs ih =>
      rw [List.cons_append, Expr.PairsUse, ih, Expr.PairsUse, and_assoc, and_assoc]

theorem Stmt.allUse_append {ss ss' : List Stmt} :
    Stmt.AllUse voc (ss ++ ss') ↔ Stmt.AllUse voc ss ∧ Stmt.AllUse voc ss' := by
  induction ss with
  | nil => simp [Stmt.AllUse]
  | cons s ss ih => rw [List.cons_append, Stmt.AllUse, ih, Stmt.AllUse, and_assoc]

end

end ConstScript
