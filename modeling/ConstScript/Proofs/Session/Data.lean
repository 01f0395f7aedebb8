import ConstScript.Proofs.Eval.MapLiteral
import ConstScript.Proofs.Grammar.RoundTrip
import ConstScript.Proofs.Session.Concatenation
import ConstScript.Proofs.Value.Data
import ConstScript.Proofs.Value.Equality
import ConstScript.Proofs.Value.Parts

set_option autoImplicit false

/-! # Running the texts of data

The text of a value that is made of integers, booleans, arrays and maps is an expression, and
running it makes the same value again. There is one exception: the least integer is shown with a
minus sign in front of a number that is out of range, so that a text in which it occurs is rejected.

Both halves go by the way in which the value is made. For the first one, the text of each part is
that of an expression which makes this part (`Value.IsData.exists_written`). For the second one,
the text is cut into tokens (`Value.IsData.faultyIf`), since there is no expression. -/

theorem List.mem_intercalate {α : Type} {separator : List α} {xss : List (List α)} {xs : List α}
    {x : α} (hxs : xs ∈ xss) (hx : x ∈ xs) : x ∈ separator.intercalate xss := by
  cases xss with
  | nil => exact absurd hxs List.not_mem_nil
  | cons ys xss =>
      rw [List.intercalate_cons_flatMap, List.mem_append, List.mem_flatMap]
      rcases List.mem_cons.1 hxs with rfl | hxs
      · exact .inl hx
      · exact .inr ⟨xs, hxs, List.mem_append_right _ hx⟩

theorem List.Forall₂.imp_of_mem {α β : Type} {r q : α → β → Prop} {xs : List α} {ys : List β}
    (h : List.Forall₂ r xs ys) (hq : ∀ x ∈ xs, ∀ y, r x y → q x y) : List.Forall₂ q xs ys :=
  ((List.forall₂_and_left _ _).2 ⟨hq, h⟩).imp fun _ y hxy => hxy.1 y hxy.2

namespace ConstScript

variable [Hashing]

open Eval Grammar

/-- A table that entries are put into has the same structure as one that lists their counterparts in
    any order. -/
theorem Value.equal_map_ofPuts {id id' : ObjectId} {puts shown entries : List (Entry Value)}
    (hentries : (entries.map Entry.hashed).Nodup) (hperm : shown.Perm entries)
    (h : List.Forall₂ (fun p q => p.hashed = q.hashed ∧ p.key = q.key ∧
      p.value.equal q.value = true) puts shown) :
    (map id (Table.ofPuts puts)).equal (map id' entries) = true := by
  have hhashed : puts.map Entry.hashed = shown.map Entry.hashed :=
    h.map_eq_map fun _ _ hpq => hpq.1
  have hputs : (puts.map Entry.hashed).Nodup := by
    rw [hhashed]
    exact (hperm.map Entry.hashed).nodup_iff.2 hentries
  refine equal_map.2 ⟨?_, fun p hp => ?_⟩
  · exact ((Table.ofPuts_perm hputs).length_eq.trans h.length_eq).trans hperm.length_eq
  · obtain ⟨q, hq, heq, hequal⟩ := h.exists_of_mem (Table.mem_of_mem_ofPuts hp)
    refine ⟨q, ?_, hequal⟩
    exact (Table.find?_eq_some_iff hentries).2 ⟨hperm.mem_iff.1 hq, heq.symm⟩

/-! ## Expressions that make a value -/

namespace Expr

/-- Wherever the expression is evaluated, this gives the value. -/
def IsLiteral (e : Expr) (v : Value) : Prop :=
  ∀ (call : Closure → List Value → Eval Value) (scope : ScopeId) (st : Store),
    e.eval call scope st = .ok v st

/-- Wherever the expression is evaluated, this makes a value of the same structure. -/
def Makes (e : Expr) (v : Value) : Prop :=
  ∀ (call : Closure → List Value → Eval Value) (scope : ScopeId) (st : Store),
    ∃ w st', e.eval call scope st = .ok w st' ∧ w.equal v = true

variable {v : Value} {id : ObjectId}

theorem IsLiteral.makes {e : Expr} (h : e.IsLiteral v) (hv : v.WellFormed) : e.Makes v :=
  fun call scope st => ⟨v, st, h call scope st, Value.equal_refl hv⟩

theorem makes_array {es : List Expr} {items : List Value} (h : List.Forall₂ Makes es items) :
    (Expr.array es).Makes (.array id items) := by
  intro call scope st
  have hitems : ∃ ws st', Expr.evalAll call scope es st = .ok ws st' ∧
      List.Forall₂ (fun w v => w.equal v = true) ws items := by
    induction h generalizing st with
    | nil => exact ⟨[], st, rfl, .nil⟩
    | cons he _ ih =>
        obtain ⟨w, mid, heval, hw⟩ := he call scope st
        obtain ⟨ws, st', hrest, hws⟩ := ih mid
        exact ⟨w :: ws, st', (bind_of_ok heval).trans (bind_of_ok hrest), .cons hw hws⟩
  obtain ⟨ws, st', hws, hequal⟩ := hitems
  exact ⟨_, _, bind_of_ok hws, Value.equal_array.2 hequal⟩

/-- The pairs of a literal can stand in any order. -/
theorem makes_map {pairs : List (Expr × Expr)} {shown entries : List (Entry Value)}
    (hentries : (entries.map Entry.hashed).Nodup) (hperm : shown.Perm entries)
    (h : List.Forall₂ (fun p q => q.hashed = q.key.hashed ∧ p.1.IsLiteral q.key.toValue ∧
      p.2.Makes q.value) pairs shown) : (Expr.map pairs).Makes (.map id entries) := by
  intro call scope st
  have hpairs : ∃ values mid, PairValues call scope pairs st values mid ∧
      List.Forall₂ (fun p q => p.hashed = q.hashed ∧ p.key = q.key ∧
        p.value.equal q.value = true) (Table.entries values) shown := by
    clear hperm
    induction h generalizing st with
    | nil => exact ⟨[], st, .nil, .nil⟩
    | @cons p q _ _ hpq _ ih =>
        obtain ⟨hhashed, hkey, hmakes⟩ := hpq
        obtain ⟨w, mid, heval, hw⟩ := hmakes call scope st
        obtain ⟨values, st', hrest, hvalues⟩ := ih mid
        exact ⟨(q.key, w) :: values, st',
          .cons (hkey call scope st) (Key.toKey?_toValue q.key) heval hrest,
          .cons ⟨hhashed.symm, rfl, hw⟩ hvalues⟩
  obtain ⟨values, mid, hvalues, hequal⟩ := hpairs
  exact ⟨_, _, hvalues.eval_map, Value.equal_map_ofPuts hentries hperm hequal⟩

end Expr

/-! ## Integers and keys -/

section

omit [Hashing]

theorem integerText_of_nonneg {n : Int64} (h : 0 ≤ n.toInt) :
    integerText n = toString n.toInt.natAbs := by
  rw [integerText]
  generalize n.toInt = i at h
  lift i to Nat using h
  rfl

theorem integerText_of_neg {n : Int64} (h : n.toInt < 0) :
    integerText n = "-" ++ toString n.toInt.natAbs := by
  rw [integerText]
  generalize n.toInt = i at h
  obtain ⟨m, rfl⟩ := Int.eq_negSucc_of_lt_zero h
  rfl

theorem natAbs_le_maxInteger {n : Int64} (h : n ≠ Int64.minValue) :
    n.toInt.natAbs ≤ maxInteger := by
  have hmin : n.toInt ≠ -9223372036854775808 := fun heq => h (Int64.toInt_inj.1 heq)
  have hle := n.le_toInt
  have hlt := n.toInt_lt
  unfold maxInteger
  omega

end

/-- An integer other than the least one is shown as a literal, or as one with a minus sign. -/
theorem exists_written_int {n : Int64} (h : n ≠ Int64.minValue) :
    ∃ e : Expr, Written .unary e (integerText n) ∧ e.IsLiteral (.int n) := by
  have hwritten := (Written.int (natAbs_le_maxInteger h)).bare
  by_cases hsign : 0 ≤ n.toInt
  · have hvalue : Int64.ofNat n.toInt.natAbs = n := by
      rw [← Int64.ofInt_eq_ofNat, Int.natAbs_of_nonneg hsign, Int64.ofInt_toInt]
    rw [integerText_of_nonneg hsign]
    refine ⟨_, hwritten, fun call scope st => ?_⟩
    show EStateM.Result.ok (Value.int _) st = _
    rw [hvalue]
  · have hneg : n.toInt < 0 := Int.not_le.1 hsign
    have hvalue : -Int64.ofNat n.toInt.natAbs = n := by
      rw [← Int64.ofInt_eq_ofNat, ← Int64.ofInt_neg, Int.ofNat_natAbs_of_nonpos hneg.le,
        Int.neg_neg, Int64.ofInt_toInt]
    rw [integerText_of_neg hneg]
    refine ⟨_, hwritten.signed .negate, fun call scope st => ?_⟩
    show EStateM.Result.ok (Value.int _) st = _
    rw [hvalue]

theorem exists_written_bool (b : Bool) :
    ∃ e : Expr, Written .unary e (toString b) ∧ e.IsLiteral (.bool b) :=
  ⟨.bool b, (Written.bool b).bare, fun _ _ _ => rfl⟩

theorem Key.exists_written {k : Key} (hdata : k.isData) (h : k ≠ .int Int64.minValue) :
    ∃ e : Expr, Written .unary e k.text ∧ e.IsLiteral k.toValue := by
  cases k with
  | int n => exact exists_written_int fun heq => h (congrArg Key.int heq)
  | bool b => exact exists_written_bool b
  | str s => cases hdata

/-! ## Values without the least integer -/

/-- The text of a value is that of an expression which makes this value. -/
theorem Value.IsData.exists_written {v : Value} (hv : v.IsData)
    (hmin : ¬ v.Mentions Int64.minValue) {text : String} (h : v.Shows text) :
    ∃ e : Expr, Written .unary e text ∧ e.Makes v := by
  induction hv generalizing text with
  | int n =>
      cases h
      obtain ⟨e, he, hliteral⟩ := exists_written_int fun heq => hmin (heq ▸ .self)
      exact ⟨e, he, hliteral.makes (Value.wellFormed_of_objectId? rfl)⟩
  | bool b =>
      cases h
      obtain ⟨e, he, hliteral⟩ := exists_written_bool b
      exact ⟨e, he, hliteral.makes (Value.wellFormed_of_objectId? rfl)⟩
  | @array id items _ ih =>
      cases h with
      | other harray _ => exact absurd rfl harray
      | @array _ _ texts htexts =>
          have hall : List.Forall₂
              (fun v text => ∃ e : Expr, Written .expression e text ∧ e.Makes v) items texts := by
            refine htexts.imp_of_mem fun v hv text hshows => ?_
            obtain ⟨e, he, hmakes⟩ := ih v hv (fun hm => hmin (.item hv hm)) hshows
            exact ⟨e, he.expression, hmakes⟩
          obtain ⟨es, hes, hmakes⟩ := hall.exists_between
          exact ⟨_, (Written.array (written_items hes.flip)).bare, Expr.makes_array hmakes.flip⟩
  | @map id entries hnodup hhashed hkeys _ ih =>
      cases h with
      | other _ hmap => exact absurd rfl hmap
      | @map _ _ shown texts hperm htexts =>
          have hall : List.Forall₂ (fun q text => ∃ p : Expr × Expr, PairWritten p text ∧
              q.hashed = q.key.hashed ∧ p.1.IsLiteral q.key.toValue ∧ p.2.Makes q.value)
              shown texts := by
            refine htexts.imp_of_mem ?_
            rintro ⟨hashed, k, v⟩ hshown text ⟨_, _, hshows⟩
            have hq := hperm.mem_iff.1 hshown
            have hkey : k ≠ .int Int64.minValue := by
              rintro rfl
              exact hmin (.key hq rfl)
            obtain ⟨e, he, hliteral⟩ := k.exists_written (hkeys _ hq) hkey
            obtain ⟨e', he', hmakes⟩ := ih _ hq (fun hm => hmin (.entry hq hm)) hshows
            exact ⟨(e, e'), he.expression.pair he'.expression, hhashed _ hq, hliteral, hmakes⟩
          obtain ⟨pairs, hpairs, hmakes⟩ := hall.exists_between
          exact ⟨_, (Written.map (written_pairs hpairs.flip)).bare,
            Expr.makes_map hnodup hperm hmakes.flip⟩

/-! ## Values with the least integer -/

/-- The text can be cut into tokens, and if the condition holds, there is one among them that is
    part of no phrase. -/
def FaultyIf (condition : Prop) (text : String) : Prop :=
  ∃ ts, Spells text ts ∧ (condition → ∃ t ∈ ts, ¬ isUsable t)

section

omit [Hashing]

variable {p q : Prop} {text text' : String}

theorem FaultyIf.of_imp (h : FaultyIf p text) (hpq : q → p) : FaultyIf q text := by
  obtain ⟨ts, hts, hfaulty⟩ := h
  exact ⟨ts, hts, fun hq => hfaulty (hpq hq)⟩

/-- A text with such a token is not read without an error. -/
theorem FaultyIf.errors_ne (h : FaultyIf p text) (hp : p) : (Program.parse text).errors ≠ [] := by
  intro hnone
  obtain ⟨ts, hts, hfaulty⟩ := h
  obtain ⟨t, ht, hunusable⟩ := hfaulty hp
  have hderives := Program.derives_of_errors_eq_nil hnone
  rw [hts.scan_eq] at hderives
  exact hunusable (hderives.isUsable t ht)

theorem faultyIf_bool (b : Bool) (hp : ¬ p) : FaultyIf p (toString b) := by
  obtain ⟨ts, hts, -⟩ := Written.bool b
  exact ⟨ts, hts, fun h => absurd h hp⟩

theorem faultyIf_int (n : Int64) : FaultyIf (n = Int64.minValue) (integerText n) := by
  by_cases hsign : 0 ≤ n.toInt
  · rw [integerText_of_nonneg hsign]
    exact ⟨_, spells_nat _, fun hmin => absurd (hmin ▸ hsign) (by decide)⟩
  · rw [integerText_of_neg (Int.not_le.1 hsign)]
    have hminus := (delimits_symbol .minus (by decide)).append_spells (spells_nat n.toInt.natAbs)
    refine ⟨_, hminus, fun hmin => ⟨.int (toString n.toInt.natAbs), by simp, ?_⟩⟩
    subst hmin
    decide +kernel

theorem Key.faultyIf {k : Key} (hdata : k.isData) : FaultyIf (k = .int Int64.minValue) k.text := by
  cases k with
  | int n => exact (faultyIf_int n).of_imp Key.int.inj
  | bool b => exact faultyIf_bool b (by simp)
  | str s => cases hdata

theorem FaultyIf.pair (hk : FaultyIf p text) (hv : FaultyIf q text') :
    FaultyIf (p ∨ q) (text ++ ": " ++ text') := by
  obtain ⟨ts, hts, hkey⟩ := hk
  obtain ⟨us, hus, hvalue⟩ := hv
  have hpair := (hts.append (delimits_separator .colon) rfl).append_spells hus
  refine ⟨_, hpair, fun hpq => ?_⟩
  rcases hpq with hp | hq
  · obtain ⟨t, ht, hunusable⟩ := hkey hp
    exact ⟨t, List.mem_append_left _ (List.mem_append_left _ ht), hunusable⟩
  · obtain ⟨t, ht, hunusable⟩ := hvalue hq
    exact ⟨t, List.mem_append_right _ ht, hunusable⟩

/-- A list in brackets has the tokens of all its items. -/
theorem faultyIf_list {α : Type} {bad : α → Prop} {items : List α} {texts : List String}
    (opening closing : Symbol) (hopening : opening.opens) (hclosing : closing.closes)
    (h : List.Forall₂ (fun a text => FaultyIf (bad a) text) items texts) :
    FaultyIf (∃ a ∈ items, bad a) (opening.text ++ joinWith ", " texts ++ closing.text) := by
  obtain ⟨tss, htexts, htokens⟩ := h.exists_between
  have hlist := spells_joinWith (s := .comma) rfl htexts
  refine ⟨_, (hlist.between opening closing hopening hclosing).spells, fun hbad => ?_⟩
  obtain ⟨a, ha, hbad⟩ := hbad
  obtain ⟨ts, hts, hfaulty⟩ := htokens.exists_of_mem ha
  obtain ⟨t, ht, hunusable⟩ := hfaulty hbad
  have hmem : t ∈ [Token.symbol .comma].intercalate tss := List.mem_intercalate hts ht
  exact ⟨t, List.mem_cons_of_mem _ (List.mem_append_left _ hmem), hunusable⟩

end

/-- The least integer in a value is out of range in its text. -/
theorem Value.IsData.faultyIf {v : Value} (hv : v.IsData) {text : String} (h : v.Shows text) :
    FaultyIf (v.Mentions Int64.minValue) text := by
  induction hv generalizing text with
  | int n =>
      cases h
      exact (faultyIf_int n).of_imp Value.mentions_int.1
  | bool b =>
      cases h
      exact faultyIf_bool b Value.not_mentions_bool
  | @array id items _ ih =>
      cases h with
      | other harray _ => exact absurd rfl harray
      | array htexts =>
          have hitems := htexts.imp_of_mem fun v hv _ hshows => ih v hv hshows
          exact (faultyIf_list .leftBracket .rightBracket rfl rfl hitems).of_imp
            Value.mentions_array.1
  | @map id entries _ _ hkeys _ ih =>
      cases h with
      | other _ hmap => exact absurd rfl hmap
      | @map _ _ shown texts hperm htexts =>
          have hpairs : List.Forall₂ (fun p text =>
              FaultyIf (p.key = .int Int64.minValue ∨ p.value.Mentions Int64.minValue) text)
              shown texts := by
            refine htexts.imp_of_mem ?_
            rintro ⟨hashed, k, v⟩ hshown text ⟨_, _, hshows⟩
            have hp := hperm.mem_iff.1 hshown
            exact (k.faultyIf (hkeys _ hp)).pair (ih _ hp hshows)
          refine (faultyIf_list .leftBrace .rightBrace rfl rfl hpairs).of_imp fun hm => ?_
          obtain ⟨p, hp, hm⟩ := Value.mentions_map.1 hm
          exact ⟨p, hperm.mem_iff.2 hp, hm⟩

/-! ## Running -/

namespace Session

/-- **The text of data makes the data again.** Let a value be made of integers, booleans, arrays and
    maps with integers and booleans as keys, and let it be shown with the pairs of each map in any
    order. Running the text ends with a value of the same structure iff the least integer does not
    occur in the value. If it does, the text is rejected. -/
theorem run_data {v : Value} (hv : v.IsData) :
    v.Shows v.text ∧
    ∀ text, v.Shows text → ∀ (depth : Nat) (scope : ScopeId) (st : Store),
      ((∃ w st', run depth scope text st = (.finished w, st') ∧ w.equal v = true) ↔
        ¬ v.Mentions Int64.minValue) ∧
      (v.Mentions Int64.minValue →
        ∃ errors, errors ≠ [] ∧ run depth scope text st = (.rejected errors, st)) := by
  refine ⟨v.shows_text, fun text htext depth scope st => ?_⟩
  by_cases hmin : v.Mentions Int64.minValue
  · have herrors : (Program.parse text).errors ≠ [] := (hv.faultyIf htext).errors_ne hmin
    have hrun : run depth scope text st = (.rejected (Program.parse text).errors, st) :=
      run_rejected herrors
    refine ⟨iff_of_false ?_ (not_not_intro hmin), fun _ => ⟨_, herrors, hrun⟩⟩
    rintro ⟨w, st', hfinished, -⟩
    rw [hrun] at hfinished
    cases hfinished
  · obtain ⟨e, he, hmakes⟩ := hv.exists_written hmin htext
    obtain ⟨w, st', heval, hw⟩ := hmakes (Closure.call depth) scope st
    have hrun : run depth scope text st = (.finished w, st') := by
      rw [run_expr he.expression.parse_expr, heval]
      rfl
    exact ⟨iff_of_true ⟨w, st', hrun, hw⟩ hmin, fun hm => absurd hm hmin⟩

omit [Hashing] in
/-- A map in a map, with its pairs out of order and negative integers, and an array with the least
    integer. -/
theorem run_data_nested :
    let _ : Hashing := .inOrder fun _ => 0
    let negatives : Value := .array 1 [.int (-5), .map 2 []]
    let v : Value :=
      .map 0 [Table.entry (.int (-1)) negatives, Table.entry (.bool true) (.bool false)]
    let w : Value := .array 0 [.bool true, .int Int64.minValue]
    v.IsData ∧ v.Shows "\x7btrue: false, -1: [-5, \x7b\x7d]\x7d" ∧
    w.IsData ∧ w.Mentions Int64.minValue ∧ w.Shows "[true, -9223372036854775808]" ∧
    ∀ (depth : Nat) (scope : ScopeId) (st : Store),
      (∃ u st', run depth scope "\x7btrue: false, -1: [-5, \x7b\x7d]\x7d" st
        = (.finished u, st') ∧ u.equal v = true) ∧
      ∃ errors, errors ≠ [] ∧
        run depth scope "[true, -9223372036854775808]" st = (.rejected errors, st) := by
  intro _ negatives v w
  have hv : v.IsData := by
    refine .map (by decide) (by simp [Table.entry]) (by simp [Table.entry, Key.isData])
      (List.forall_mem_cons.2 ⟨.array ?_, ?_⟩)
    · exact List.forall_mem_cons.2
        ⟨.int _, List.forall_mem_singleton.2 (.map .nil nofun nofun nofun)⟩
    · exact List.forall_mem_singleton.2 (.bool _)
  have hmin : ¬ v.Mentions Int64.minValue := by
    have hone : (-1 : Int64) ≠ Int64.minValue := by decide
    have hfive : (-5 : Int64) ≠ Int64.minValue := by decide
    simp [v, negatives, Table.entry, hone, hfive]
  have htext : v.Shows "\x7btrue: false, -1: [-5, \x7b\x7d]\x7d" := by
    let shown : Value :=
      .map 0 [Table.entry (.bool true) (.bool false), Table.entry (.int (-1)) negatives]
    have heq : shown.text = "\x7btrue: false, -1: [-5, \x7b\x7d]\x7d" := by decide +kernel
    exact heq ▸ Value.shows_of_perm (.swap ..)
  have hw : w.IsData :=
    .array (List.forall_mem_cons.2 ⟨.bool _, List.forall_mem_singleton.2 (.int _)⟩)
  have hmentions : w.Mentions Int64.minValue :=
    .item (List.mem_of_mem_tail List.mem_cons_self) .self
  have htext' : w.Shows "[true, -9223372036854775808]" := by
    have heq : w.text = "[true, -9223372036854775808]" := by decide +kernel
    exact heq ▸ w.shows_text
  refine ⟨hv, htext, hw, hmentions, htext', fun depth scope st => ⟨?_, ?_⟩⟩
  · exact ((run_data hv).2 _ htext depth scope st).1.2 hmin
  · exact ((run_data hw).2 _ htext' depth scope st).2 hmentions

end Session

end ConstScript
