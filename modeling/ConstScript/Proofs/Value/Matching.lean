import ConstScript.Eval.Operator
import ConstScript.Proofs.Syntax.Vocabulary
import ConstScript.Proofs.Value.Table
import ConstScript.Value.Render
import Mathlib.Data.List.Forall2
import Mathlib.Data.Option.Basic
import Mathlib.Logic.Relator
import Mathlib.Order.Basic

set_option autoImplicit false

/-! # Values that differ in their identities only

Two evaluations that do the same things create the same objects and scopes, but may give them
different numbers. A *matching* says which number of the one evaluation stands for which of the
other, one to one; values *match* if they are the same up to that. Nothing that a program can do
with values tells matching ones apart: they have the same text, they compare alike, and operators
take them to matching results. -/

theorem List.Forall₂.map_eq_map {α β γ : Type} {r : α → β → Prop} {f : α → γ} {g : β → γ}
    {xs : List α} {ys : List β} (h : List.Forall₂ r xs ys) (hfg : ∀ a b, r a b → f a = g b) :
    xs.map f = ys.map g := by
  rw [← List.forall₂_eq_eq_eq, List.forall₂_map_left_iff, List.forall₂_map_right_iff]
  exact h.imp hfg

namespace Option.Rel

variable {α β γ δ : Type} {r r' : α → β → Prop} {x x' : Option α} {y y' : Option β}

theorem mono (h : Option.Rel r x y) (hr : ∀ a b, r a b → r' a b) : Option.Rel r' x y := by
  cases h with
  | some h => exact .some (hr _ _ h)
  | none => exact .none

theorem left {q : α → α → Prop} (h : Option.Rel r x y) (hr : ∀ a b, r a b → q a a) :
    Option.Rel q x x := by
  cases h with
  | some h => exact .some (hr _ _ h)
  | none => exact .none

theorem isSome_eq (h : Option.Rel r x y) : x.isSome = y.isSome := by
  cases h <;> rfl

theorem eq_none_iff (h : Option.Rel r x y) : x = .none ↔ y = .none := by
  cases h <;> simp

theorem or (h : Option.Rel r x y) (h' : Option.Rel r x' y') : Option.Rel r (x.or x') (y.or y') := by
  cases h with
  | some h => exact .some h
  | none => exact h'

theorem bind {f : α → Option γ} {g : β → Option δ} {s : γ → δ → Prop} (h : Option.Rel r x y)
    (hfg : ∀ a ∈ x, ∀ b, r a b → Option.Rel s (f a) (g b)) :
    Option.Rel s (x.bind f) (y.bind g) := by
  cases h with
  | some h => exact hfg _ rfl _ h
  | none => exact .none

theorem map {f : α → γ} {g : β → δ} {s : γ → δ → Prop} (h : Option.Rel r x y)
    (hfg : ∀ a b, r a b → s (f a) (g b)) : Option.Rel s (x.map f) (y.map g) := by
  cases h with
  | some h => exact .some (hfg _ _ h)
  | none => exact .none

theorem getD {a : α} {b : β} (h : Option.Rel r x y) (hab : r a b) : r (x.getD a) (y.getD b) := by
  cases h with
  | some h => exact h
  | none => exact hab

end Option.Rel

namespace ConstScript

/-! ## Matchings -/

/-- A one-to-one correspondence between the identities and scopes of two evaluations. The
    vocabulary is what the values that match are made of. -/
structure Matching (voc : Vocabulary) where
  objects : ObjectId → ObjectId → Prop
  scopes : ScopeId → ScopeId → Prop
  biUnique_objects : Relator.BiUnique objects
  biUnique_scopes : Relator.BiUnique scopes

namespace Matching

variable {voc : Vocabulary}

/-- A matching is extended by one that has its pairs and others. -/
instance : Preorder (Matching voc) where
  le m m' := (∀ a b, m.objects a b → m'.objects a b) ∧ ∀ i j, m.scopes i j → m'.scopes i j
  le_refl _ := ⟨fun _ _ h => h, fun _ _ h => h⟩
  le_trans _ _ _ h h' :=
    ⟨fun a b hab => h'.1 a b (h.1 a b hab), fun i j hij => h'.2 i j (h.2 i j hij)⟩

/-! ### New pairs -/

/-- A relation with one more pair of numbers. -/
def withPair (r : Nat → Nat → Prop) (a b : Nat) (x y : Nat) : Prop :=
  r x y ∨ x = a ∧ y = b

/-- A one-to-one relation stays so with a pair of numbers that it has on neither side. -/
theorem biUnique_withPair {r : Nat → Nat → Prop} (hr : Relator.BiUnique r) {a b : Nat}
    (ha : ∀ y, ¬ r a y) (hb : ∀ x, ¬ r x b) : Relator.BiUnique (withPair r a b) := by
  constructor
  · intro x x' y h h'
    rcases h with h | ⟨rfl, rfl⟩ <;> rcases h' with h' | ⟨rfl, hy⟩
    · exact hr.1 h h'
    · exact absurd (hy ▸ h) (hb x)
    · exact absurd h' (hb x')
    · rfl
  · intro x y y' h h'
    rcases h with h | ⟨rfl, rfl⟩ <;> rcases h' with h' | ⟨hx, rfl⟩
    · exact hr.2 h h'
    · exact absurd (hx ▸ h) (ha y)
    · exact absurd h' (ha y')
    · rfl

/-- Two one-to-one relations make one, if a number separates them on both sides. -/
theorem biUnique_or {r s : Nat → Nat → Prop} (hr : Relator.BiUnique r) (hs : Relator.BiUnique s)
    {n : Nat} (hlt : ∀ a b, r a b → a < n ∧ b < n) (hle : ∀ a b, s a b → n ≤ a ∧ n ≤ b) :
    Relator.BiUnique fun a b => r a b ∨ s a b := by
  constructor
  · rintro a a' b (h | h) (h' | h')
    · exact hr.1 h h'
    · exact absurd (hle _ _ h').2 (Nat.not_le_of_lt (hlt _ _ h).2)
    · exact absurd (hle _ _ h).2 (Nat.not_le_of_lt (hlt _ _ h').2)
    · exact hs.1 h h'
  · rintro a b b' (h | h) (h' | h')
    · exact hr.2 h h'
    · exact absurd (hle _ _ h').1 (Nat.not_le_of_lt (hlt _ _ h).1)
    · exact absurd (hle _ _ h).1 (Nat.not_le_of_lt (hlt _ _ h').1)
    · exact hs.2 h h'

/-- A matching with one more pair of identities. -/
def addObject (m : Matching voc) (a b : ObjectId) (ha : ∀ y, ¬ m.objects a y)
    (hb : ∀ x, ¬ m.objects x b) : Matching voc :=
  { m with
    objects := withPair m.objects a b
    biUnique_objects := biUnique_withPair m.biUnique_objects ha hb }

/-- A matching with one more pair of scopes. -/
def addScope (m : Matching voc) (i j : ScopeId) (hi : ∀ y, ¬ m.scopes i y)
    (hj : ∀ x, ¬ m.scopes x j) : Matching voc :=
  { m with
    scopes := withPair m.scopes i j
    biUnique_scopes := biUnique_withPair m.biUnique_scopes hi hj }

variable {m : Matching voc}

theorem le_addObject (a b : ObjectId) (ha : ∀ y, ¬ m.objects a y) (hb : ∀ x, ¬ m.objects x b) :
    m ≤ m.addObject a b ha hb :=
  ⟨fun _ _ h => .inl h, fun _ _ h => h⟩

theorem le_addScope (i j : ScopeId) (hi : ∀ y, ¬ m.scopes i y) (hj : ∀ x, ¬ m.scopes x j) :
    m ≤ m.addScope i j hi hj :=
  ⟨fun _ _ h => h, fun _ _ h => .inl h⟩

end Matching

/-! ## Matching values -/

mutual

/-- Two values are the same but for their identities and scopes, which correspond. -/
inductive Value.Matches {voc : Vocabulary} (m : Matching voc) : Value → Value → Prop where
  | int (n : Int64) : Value.Matches m (.int n) (.int n)
  | bool (b : Bool) : Value.Matches m (.bool b) (.bool b)
  | str (s : String) : Value.Matches m (.str s) (.str s)
  | null : Value.Matches m .null .null
  | array {a b : ObjectId} {vs ws : List Value} : m.objects a b →
      List.Forall₂ (Value.Matches m) vs ws → Value.Matches m (.array a vs) (.array b ws)
  | map {a b : ObjectId} {es fs : List (Entry Value)} : m.objects a b →
      List.Forall₂ (Value.EntryMatches m) es fs → Value.Matches m (.map a es) (.map b fs)
  | function {a b : ObjectId} {i j : ScopeId} {params : List String} {body : List Stmt} :
      m.objects a b → m.scopes i j → (Expr.fn params body).Uses voc →
      Value.Matches m (.function ⟨a, params, body, i⟩) (.function ⟨b, params, body, j⟩)
  | builtin (b : Builtin) : Value.Matches m (.builtin b) (.builtin b)
  | error (e : RuntimeError) : voc.errors → Value.Matches m (.error e) (.error e)

/-- Two entries of tables have the same key, under the same hashed key, and matching values. -/
inductive Value.EntryMatches {voc : Vocabulary} (m : Matching voc) :
    Entry Value → Entry Value → Prop where
  | mk (hashed : HashedKey) (k : Key) {v w : Value} : Value.Matches m v w →
      Value.EntryMatches m ⟨hashed, k, v⟩ ⟨hashed, k, w⟩

end

namespace Value

variable {voc : Vocabulary} {m m' : Matching voc}

/-! ### Changing the matching -/

mutual

/-- Values that match still do when the matching is extended. -/
theorem Matches.mono (hle : m ≤ m') : {v w : Value} → v.Matches m w → v.Matches m' w
  | .int _, _, .int n => .int n
  | .bool _, _, .bool b => .bool b
  | .str _, _, .str s => .str s
  | .null, _, .null => .null
  | .array .., _, .array hobj h => .array (hle.1 _ _ hobj) (all_mono hle h)
  | .map .., _, .map hobj h => .map (hle.1 _ _ hobj) (entries_mono hle h)
  | .function _, _, .function hobj hscope huses =>
      .function (hle.1 _ _ hobj) (hle.2 _ _ hscope) huses
  | .builtin _, _, .builtin b => .builtin b
  | .error _, _, .error e h => .error e h

theorem all_mono (hle : m ≤ m') : {vs ws : List Value} →
    List.Forall₂ (Matches m) vs ws → List.Forall₂ (Matches m') vs ws
  | [], _, .nil => .nil
  | _ :: _, _, .cons h hs => .cons (h.mono hle) (all_mono hle hs)

theorem entries_mono (hle : m ≤ m') : {es fs : List (Entry Value)} →
    List.Forall₂ (EntryMatches m) es fs → List.Forall₂ (EntryMatches m') es fs
  | [], _, .nil => .nil
  | ⟨_, _, _⟩ :: _, _, .cons (.mk hashed k h) hs =>
      .cons (.mk hashed k (h.mono hle)) (entries_mono hle hs)

end

section

variable (hobjects : ∀ a b, m.objects a b → m'.objects a a)
  (hscopes : ∀ i j, m.scopes i j → m'.scopes i i)

include hobjects hscopes

set_option linter.unusedSectionVars false in
mutual

/-- What matches anything matches itself, where its identities and scopes do. -/
theorem Matches.self : {v w : Value} → v.Matches m w → v.Matches m' v
  | .int _, _, .int n => .int n
  | .bool _, _, .bool b => .bool b
  | .str _, _, .str s => .str s
  | .null, _, .null => .null
  | .array .., _, .array hobj h => .array (hobjects _ _ hobj) (all_self h)
  | .map .., _, .map hobj h => .map (hobjects _ _ hobj) (entries_self h)
  | .function _, _, .function hobj hscope huses =>
      .function (hobjects _ _ hobj) (hscopes _ _ hscope) huses
  | .builtin _, _, .builtin b => .builtin b
  | .error _, _, .error e h => .error e h

theorem all_self : {vs ws : List Value} →
    List.Forall₂ (Matches m) vs ws → List.Forall₂ (Matches m') vs vs
  | [], _, .nil => .nil
  | _ :: _, _, .cons h hs => .cons h.self (all_self hs)

theorem entries_self : {es fs : List (Entry Value)} →
    List.Forall₂ (EntryMatches m) es fs → List.Forall₂ (EntryMatches m') es es
  | [], _, .nil => .nil
  | ⟨_, _, _⟩ :: _, _, .cons (.mk hashed k h) hs =>
      .cons (.mk hashed k h.self) (entries_self hs)

end

end

/-! ### What matching values have in common -/

mutual

/-- Matching values have the same text. -/
theorem Matches.text_eq : {v w : Value} → v.Matches m w → v.text = w.text
  | .int _, _, .int _ | .bool _, _, .bool _ | .str _, _, .str _ | .null, _, .null
  | .function _, _, .function .. | .builtin _, _, .builtin _ | .error _, _, .error .. => rfl
  | .array .., _, .array _ h => by rw [text, text, texts_eq h]
  | .map .., _, .map _ h => by rw [text, text, entryTexts_eq h]

theorem texts_eq : {vs ws : List Value} →
    List.Forall₂ (Matches m) vs ws → texts vs = texts ws
  | [], _, .nil => rfl
  | _ :: _, _, .cons h hs => by rw [texts, texts, h.text_eq, texts_eq hs]

theorem entryTexts_eq : {es fs : List (Entry Value)} →
    List.Forall₂ (EntryMatches m) es fs → entryTexts es = entryTexts fs
  | [], _, .nil => rfl
  | ⟨_, _, _⟩ :: _, _, .cons (.mk _ _ h) hs => by
      rw [entryTexts, entryTexts, h.text_eq, entryTexts_eq hs]

end

variable {v v' w w' : Value}

theorem Matches.kind_eq (h : v.Matches m w) : v.kind = w.kind := by
  cases h <;> rfl

theorem Matches.isTruthy_eq (h : v.Matches m w) : v.isTruthy = w.isTruthy := by
  cases h <;> rfl

theorem Matches.toKey?_eq (h : v.Matches m w) : v.toKey? = w.toKey? := by
  cases h <;> rfl

theorem Matches.hashedKey?_eq [Hashing] (h : v.Matches m w) : v.hashedKey? = w.hashedKey? := by
  rw [hashedKey?, hashedKey?, h.toKey?_eq]

/-- Whether two values are the same object is a matter of whether those that match them are. -/
theorem Matches.identical_eq (h : v.Matches m w) (h' : v'.Matches m w') :
    v.identical v' = w.identical w' := by
  have hids : ∀ {a b a' b' : ObjectId}, m.objects a b → m.objects a' b' →
      (a == a') = (b == b') := by
    intro a b a' b' ha ha'
    rw [Bool.eq_iff_iff, beq_iff_eq, beq_iff_eq]
    exact Relator.rel_eq m.biUnique_objects ha ha'
  cases h with
  | array hobj _ =>
      cases h' with
      | array hobj' _ => exact hids hobj hobj'
      | _ => rfl
  | map hobj _ =>
      cases h' with
      | map hobj' _ => exact hids hobj hobj'
      | _ => rfl
  | function hobj _ _ =>
      cases h' with
      | function hobj' _ _ => exact hids hobj hobj'
      | _ => rfl
  | int | bool | str | null | builtin | error => cases h' <;> rfl

/-! ### Tables -/

theorem EntryMatches.hashed_eq {e f : Entry Value} (h : EntryMatches m e f) :
    e.hashed = f.hashed := by
  cases h
  rfl

theorem EntryMatches.value {e f : Entry Value} (h : EntryMatches m e f) :
    e.value.Matches m f.value := by
  cases h with
  | mk _ _ hvalue => exact hvalue

theorem entries_map_hashed_eq {es fs : List (Entry Value)}
    (hs : List.Forall₂ (EntryMatches m) es fs) : es.map Entry.hashed = fs.map Entry.hashed :=
  hs.map_eq_map fun _ _ => EntryMatches.hashed_eq

/-- In matching entries the same is found, or matching entries are. -/
theorem entries_find? {es fs : List (Entry Value)} (hashed : HashedKey)
    (hs : List.Forall₂ (EntryMatches m) es fs) :
    Option.Rel (EntryMatches m) (Table.find? hashed es) (Table.find? hashed fs) := by
  induction hs with
  | nil => exact .none
  | @cons e f es fs hentry hs ih =>
      by_cases hkey : e.hashed = hashed
      · subst hkey
        rw [Table.find?_cons_self, hentry.hashed_eq, Table.find?_cons_self]
        exact .some hentry
      · rw [Table.find?_cons_of_ne hkey, Table.find?_cons_of_ne (hentry.hashed_eq ▸ hkey)]
        exact ih

/-- Tables that matching entries are put into match. -/
theorem entries_ofPuts [Hashing] {es fs : List (Entry Value)}
    (hs : List.Forall₂ (EntryMatches m) es fs) :
    List.Forall₂ (EntryMatches m) (Table.ofPuts es) (Table.ofPuts fs) := by
  rw [Table.ofPuts, Table.ofPuts, entries_map_hashed_eq hs]
  exact List.rel_filterMap (fun hashed _ heq => heq ▸ entries_find? hashed (List.rel_reverse hs))
    (List.forall₂_same.2 fun _ _ => rfl)

theorem all_getElem? {vs ws : List Value} (hs : List.Forall₂ (Matches m) vs ws) (i : Nat) :
    Option.Rel (Matches m) vs[i]? ws[i]? := by
  induction hs generalizing i with
  | nil => exact .none
  | cons h hs ih =>
      cases i with
      | zero => exact .some h
      | succ i => exact ih i

end Value

/-! ## Operators on matching values -/

/-- Two computations that need no store come to related results, or fail for the same cause. -/
inductive ExceptRel {α β : Type} (r : α → β → Prop) :
    Except RuntimeError α → Except RuntimeError β → Prop where
  | ok {a : α} {b : β} : r a b → ExceptRel r (.ok a) (.ok b)
  | error (e : RuntimeError) : ExceptRel r (.error e) (.error e)

theorem ExceptRel.bind {α β γ δ : Type} {r : α → β → Prop} {s : γ → δ → Prop}
    {x : Except RuntimeError α} {y : Except RuntimeError β} {f : α → Except RuntimeError γ}
    {g : β → Except RuntimeError δ} (h : ExceptRel r x y)
    (hfg : ∀ a b, r a b → ExceptRel s (f a) (g b)) : ExceptRel s (x >>= f) (y >>= g) := by
  cases h with
  | ok hab => exact hfg _ _ hab
  | error e => exact .error e

section

open Value

variable {voc : Vocabulary} {m : Matching voc} {v v' w w' : Value}

theorem UnaryOp.apply_matches (op : UnaryOp) (h : v.Matches m w) :
    ExceptRel (Matches m) (op.apply v) (op.apply w) := by
  cases op with
  | not =>
      rw [UnaryOp.apply, UnaryOp.apply, h.isTruthy_eq]
      exact .ok (.bool _)
  | negate =>
      cases h with
      | int n => exact .ok (.int _)
      | _ => exact .error _

namespace BinaryOp

theorem applyInt_matches (op : BinaryOp) (a b : Int64) :
    ExceptRel (Matches m) (op.applyInt a b) (op.applyInt a b) := by
  cases op with
  | add | sub | mul => exact .ok (.int _)
  | less | greater | equal | notEqual => exact .ok (.bool _)
  | div =>
      rw [applyInt]
      split
      · exact .error _
      · exact .ok (.int _)

theorem applyStr_matches (op : BinaryOp) (s t : String) :
    ExceptRel (Matches m) (op.applyStr s t) (op.applyStr s t) := by
  cases op with
  | add => exact .ok (.str _)
  | equal | notEqual => exact .ok (.bool _)
  | _ => exact .error _

theorem applyIdentity_matches (op : BinaryOp) (h : v.Matches m w) (h' : v'.Matches m w') :
    ExceptRel (Matches m) (op.applyIdentity v v') (op.applyIdentity w w') := by
  unfold applyIdentity
  rw [h.identical_eq h', h.kind_eq, h'.kind_eq]
  cases op with
  | equal | notEqual => exact .ok (.bool _)
  | _ => exact .error _

/-- A binary operator other than between two integers or two strings. -/
def applyKinds (op : BinaryOp) (v w : Value) : Except RuntimeError Value :=
  if v.kind = w.kind then op.applyIdentity v w
  else if op.isEquality then .error (.unknownBinary v.kind op w.kind)
  else .error (.typeMismatch v.kind op w.kind)

theorem applyKinds_matches (op : BinaryOp) (h : v.Matches m w) (h' : v'.Matches m w') :
    ExceptRel (Matches m) (op.applyKinds v v') (op.applyKinds w w') := by
  unfold applyKinds
  rw [h.kind_eq, h'.kind_eq]
  split
  · exact op.applyIdentity_matches h h'
  · split
    · exact .error _
    · exact .error _

theorem apply_matches (op : BinaryOp) (h : v.Matches m w) (h' : v'.Matches m w') :
    ExceptRel (Matches m) (op.apply v v') (op.apply w w') := by
  have hkinds := op.applyKinds_matches h h'
  cases h with
  | int a =>
      cases h' with
      | int b => exact op.applyInt_matches a b
      | _ => exact hkinds
  | str s =>
      cases h' with
      | str t => exact op.applyStr_matches s t
      | _ => exact hkinds
  | _ => exact hkinds

end BinaryOp

theorem Value.index_matches [Hashing] (h : v.Matches m w) (h' : v'.Matches m w') :
    ExceptRel (Matches m) (v.index v') (w.index w') := by
  cases h with
  | array hobj hs =>
      cases h' with
      | int n =>
          refine .ok (Option.Rel.getD ?_ .null)
          cases positionOfInteger n with
          | none => exact .none
          | some i => exact all_getElem? hs i
      | _ => exact .error _
  | @map _ _ es fs hobj hs =>
      rw [Value.index, Value.index, h'.hashedKey?_eq, h'.kind_eq]
      cases w'.hashedKey? with
      | none => exact .error _
      | some hashed =>
          have hvalues : Option.Rel (Matches m) ((Table.find? hashed es).map Entry.value)
              ((Table.find? hashed fs).map Entry.value) :=
            (entries_find? hashed hs).map fun _ _ => EntryMatches.value
          exact .ok (hvalues.getD .null)
  | _ => cases h' <;> exact .error _

end

end ConstScript
