import ConstScript.Syntax.Basic

set_option autoImplicit false

/-! # Equality of syntax trees

Two trees are equal exactly when `Expr.beq` (for programs: `Program.beq`) says so; this makes
equality of trees decidable. -/

namespace ConstScript

mutual

/-- Whether two expressions are the same tree. -/
def Expr.beq : Expr → Expr → Bool
  | .name n, .name n' => n == n'
  | .int i, .int i' => i == i'
  | .str s, .str s' => s == s'
  | .bool b, .bool b' => b == b'
  | .unary op e, .unary op' e' => op == op' && e.beq e'
  | .binary op l r, .binary op' l' r' => op == op' && l.beq l' && r.beq r'
  | .cond c t none, .cond c' t' none => c.beq c' && Stmt.beqs t t'
  | .cond c t (some e), .cond c' t' (some e') => c.beq c' && Stmt.beqs t t' && Stmt.beqs e e'
  | .fn ps b, .fn ps' b' => ps == ps' && Stmt.beqs b b'
  | .call f as, .call f' as' => f.beq f' && Expr.beqs as as'
  | .array es, .array es' => Expr.beqs es es'
  | .map ps, .map ps' => Expr.beqPairs ps ps'
  | .index c p, .index c' p' => c.beq c' && p.beq p'
  | _, _ => false

/-- Whether two lists of expressions are the same. -/
def Expr.beqs : List Expr → List Expr → Bool
  | [], [] => true
  | e :: es, e' :: es' => e.beq e' && Expr.beqs es es'
  | _, _ => false

/-- Whether two lists of pairs of expressions are the same. -/
def Expr.beqPairs : List (Expr × Expr) → List (Expr × Expr) → Bool
  | [], [] => true
  | (k, v) :: ps, (k', v') :: ps' => k.beq k' && v.beq v' && Expr.beqPairs ps ps'
  | _, _ => false

/-- Whether two statements are the same tree. -/
def Stmt.beq : Stmt → Stmt → Bool
  | .const n e, .const n' e' => n == n' && e.beq e'
  | .ret e, .ret e' => e.beq e'
  | .expr e, .expr e' => e.beq e'
  | _, _ => false

/-- Whether two lists of statements are the same. -/
def Stmt.beqs : List Stmt → List Stmt → Bool
  | [], [] => true
  | s :: ss, s' :: ss' => s.beq s' && Stmt.beqs ss ss'
  | _, _ => false

end

mutual

theorem Expr.beq_iff_eq : (a b : Expr) → (a.beq b = true ↔ a = b)
  | .name n, b => by cases b <;> simp [Expr.beq]
  | .int n, b => by cases b <;> simp [Expr.beq]
  | .str n, b => by cases b <;> simp [Expr.beq]
  | .bool n, b => by cases b <;> simp [Expr.beq]
  | .unary op e, b => by cases b <;> simp [Expr.beq, Expr.beq_iff_eq e]
  | .binary op l r, b => by
    cases b <;> simp [Expr.beq, Expr.beq_iff_eq l, Expr.beq_iff_eq r, and_assoc]
  | .cond c t none, b => by
    cases b with
    | cond c' t' e' => cases e' <;> simp [Expr.beq, Expr.beq_iff_eq c, Stmt.beqs_iff_eq t]
    | _ => simp [Expr.beq]
  | .cond c t (some e), b => by
    cases b with
    | cond c' t' e' =>
      cases e' <;>
        simp [Expr.beq, Expr.beq_iff_eq c, Stmt.beqs_iff_eq t, Stmt.beqs_iff_eq e, and_assoc]
    | _ => simp [Expr.beq]
  | .fn ps body, b => by cases b <;> simp [Expr.beq, Stmt.beqs_iff_eq body]
  | .call f as, b => by cases b <;> simp [Expr.beq, Expr.beq_iff_eq f, Expr.beqs_iff_eq as]
  | .array es, b => by cases b <;> simp [Expr.beq, Expr.beqs_iff_eq es]
  | .map ps, b => by cases b <;> simp [Expr.beq, Expr.beqPairs_iff_eq ps]
  | .index c p, b => by cases b <;> simp [Expr.beq, Expr.beq_iff_eq c, Expr.beq_iff_eq p]

theorem Expr.beqs_iff_eq : (as bs : List Expr) → (Expr.beqs as bs = true ↔ as = bs)
  | [], bs => by cases bs <;> simp [Expr.beqs]
  | a :: as, bs => by cases bs <;> simp [Expr.beqs, Expr.beq_iff_eq a, Expr.beqs_iff_eq as]

theorem Expr.beqPairs_iff_eq :
    (ps qs : List (Expr × Expr)) → (Expr.beqPairs ps qs = true ↔ ps = qs)
  | [], qs => by cases qs <;> simp [Expr.beqPairs]
  | _ :: _, [] => by simp [Expr.beqPairs]
  | (k, v) :: ps, (k', v') :: qs => by
    simp [Expr.beqPairs, Expr.beq_iff_eq k, Expr.beq_iff_eq v, Expr.beqPairs_iff_eq ps]

theorem Stmt.beq_iff_eq : (a b : Stmt) → (a.beq b = true ↔ a = b)
  | .const n e, b => by cases b <;> simp [Stmt.beq, Expr.beq_iff_eq e]
  | .ret e, b => by cases b <;> simp [Stmt.beq, Expr.beq_iff_eq e]
  | .expr e, b => by cases b <;> simp [Stmt.beq, Expr.beq_iff_eq e]

theorem Stmt.beqs_iff_eq : (as bs : List Stmt) → (Stmt.beqs as bs = true ↔ as = bs)
  | [], bs => by cases bs <;> simp [Stmt.beqs]
  | a :: as, bs => by cases bs <;> simp [Stmt.beqs, Stmt.beq_iff_eq a, Stmt.beqs_iff_eq as]

end

instance : DecidableEq Expr := fun a b => decidable_of_iff _ (Expr.beq_iff_eq a b)

instance : DecidableEq Stmt := fun a b => decidable_of_iff _ (Stmt.beq_iff_eq a b)

/-- Whether two programs are the same tree. -/
def Program.beq (p q : Program) : Bool :=
  Stmt.beqs p.statements q.statements

theorem Program.beq_iff_eq (p q : Program) : p.beq q = true ↔ p = q := by
  cases p
  cases q
  simp [Program.beq, Stmt.beqs_iff_eq]

instance : DecidableEq Program := fun p q => decidable_of_iff _ (Program.beq_iff_eq p q)

end ConstScript
