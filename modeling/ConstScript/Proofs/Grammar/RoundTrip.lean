import ConstScript.Proofs.Grammar.Language
import ConstScript.Proofs.Syntax.WellFormed
import ConstScript.Syntax.Render

set_option autoImplicit false

/-! # Reading canonical texts

The canonical text of a tree spells tokens from which the grammar derives the tree. `Written` says
this of a phrase, there is one rule for every way of putting a text together, and the rules follow
the functions that write the texts. Since the grammar is what the parser reads, the text of a
program is read as that program. -/

/-- What lies between the items of two lists can be listed, too. -/
theorem List.Forall₂.exists_between {α β γ : Type} {r : γ → β → Prop} {q : α → β → Prop}
    {xs : List α} {zs : List γ} (h : List.Forall₂ (fun x z => ∃ y, r z y ∧ q x y) xs zs) :
    ∃ ys, List.Forall₂ r zs ys ∧ List.Forall₂ q xs ys := by
  induction h with
  | nil => exact ⟨[], .nil, .nil⟩
  | cons hxz _ ih =>
      obtain ⟨y, hr, hq⟩ := hxz
      obtain ⟨ys, hrs, hqs⟩ := ih
      exact ⟨y :: ys, .cons hr hrs, .cons hq hqs⟩

/-- After the first list there is a separator before each. -/
theorem List.intercalate_cons_flatMap {α : Type} (separator xs : List α) (xss : List (List α)) :
    separator.intercalate (xs :: xss) = xs ++ xss.flatMap fun ys => separator ++ ys := by
  induction xss generalizing xs with
  | nil => simp
  | cons ys xss ih => rw [List.intercalate_cons_cons, ih, List.flatMap_cons]; simp

namespace ConstScript

namespace Grammar

/-- The text spells a phrase that denotes the tree. -/
def Written (n : Phrase) (tree : n.Tree) (text : String) : Prop :=
  ∃ ts, Spells text ts ∧ Derives n tree ts

theorem Written.ofDelimits {n : Phrase} {tree : n.Tree} {text : String} {ts us : List Token}
    (h : Delimits text ts) (hts : ts = us) (htree : Derives n tree us) : Written n tree text :=
  ⟨us, hts ▸ h.spells, htree⟩

theorem Derives.binary (op : BinaryOp) {l r : Expr} {ts us : List Token} (hl : Derives .unary l ts)
    (hr : Derives .unary r us) :
    Derives .expression (.binary op l r) (ts ++ .symbol op.symbol :: us) := by
  have hnest : nest l [⟨op, r⟩] = .binary op l r := by
    rw [nest_cons l (by simp), nest_nil]
  rw [← hnest]
  simpa using Derives.expression hl (.link op hr .noLinks)

/-! ## Lists -/

/-- Texts with a separator between neighbours spell their tokens with one between neighbours. -/
theorem spells_joinWith {s : Symbol} (hs : (s.text ++ " ").toList.head?.any isApart)
    {texts : List String} {tss : List (List Token)} (h : List.Forall₂ Spells texts tss) :
    Spells (joinWith (s.text ++ " ") texts) ([Token.symbol s].intercalate tss) := by
  induction h with
  | nil => exact fun _ _ => rfl
  | cons htext htexts ih =>
      cases htexts with
      | nil => rwa [List.intercalate_singleton]
      | cons _ _ =>
          rw [List.intercalate_cons_cons]
          exact (htext.append (delimits_separator s) hs).append_spells ih

theorem spells_parameters {params : List String} (h : ∀ p ∈ params, isName p) :
    Spells (joinWith ", " params) (parameterTokens params) := by
  have hnames : List.Forall₂ Spells params (params.map fun p => [.ident p]) :=
    List.forall₂_map_right_iff.2 (List.forall₂_same.2 fun p hp => spells_name (h p hp))
  have hspells := spells_joinWith (s := .comma) rfl hnames
  cases params with
  | nil => exact hspells
  | cons p ps =>
      rw [List.map_cons, List.intercalate_cons_flatMap, List.flatMap_map] at hspells
      exact hspells

theorem derives_moreItems {es : List Expr} {tss : List (List Token)}
    (h : List.Forall₂ (Derives .expression) es tss) :
    Derives .moreItems es (tss.flatMap fun ts => [.symbol .comma] ++ ts) := by
  induction h with
  | nil => exact .noMoreItems
  | cons he _ ih => exact .moreItems he ih

theorem written_items {es : List Expr} {texts : List String}
    (h : List.Forall₂ (Written .expression) es texts) :
    Written .items es (joinWith ", " texts) := by
  obtain ⟨tss, htexts, hes⟩ := h.exists_between
  refine ⟨_, spells_joinWith (s := .comma) rfl htexts, ?_⟩
  cases hes with
  | nil => exact .noItems
  | cons he hes =>
      rw [List.intercalate_cons_flatMap]
      exact .items he (derives_moreItems hes)

/-- The tokens of a pair in a map literal. -/
def PairDerives (p : Expr × Expr) (ts : List Token) : Prop :=
  ∃ us vs, Derives .expression p.1 us ∧ Derives .expression p.2 vs ∧ ts = us ++ .symbol .colon :: vs

/-- The text spells a pair of a map literal. -/
def PairWritten (p : Expr × Expr) (text : String) : Prop :=
  ∃ ts, Spells text ts ∧ PairDerives p ts

theorem Written.pair {k v : Expr} {text text' : String} (hk : Written .expression k text)
    (hv : Written .expression v text') : PairWritten (k, v) (text ++ ": " ++ text') := by
  obtain ⟨us, hus, hk⟩ := hk
  obtain ⟨vs, hvs, hv⟩ := hv
  have hpair := (hus.append (delimits_separator .colon) rfl).append_spells hvs
  rw [List.append_assoc] at hpair
  exact ⟨_, hpair, us, vs, hk, hv, rfl⟩

theorem written_pairs {ps : List (Expr × Expr)} {texts : List String}
    (h : List.Forall₂ PairWritten ps texts) : Written .pairs ps (joinWith ", " texts) := by
  obtain ⟨tss, htexts, hps⟩ := h.exists_between
  refine ⟨_, spells_joinWith (s := .comma) rfl htexts, ?_⟩
  clear h htexts
  induction hps with
  | nil => exact .noPairs
  | cons hpair hpairs ih =>
      obtain ⟨us, vs, hk, hv, rfl⟩ := hpair
      cases hpairs with
      | nil =>
          rw [List.intercalate_singleton]
          exact .lastPair hk hv
      | cons _ _ =>
          rw [List.intercalate_cons_cons]
          simpa using Derives.pair hk hv ih

theorem written_statements {ss : List Stmt} {texts : List String}
    (h : List.Forall₂ (Written .statement) ss texts) :
    Written .statements ss (joinWith "; " texts) := by
  obtain ⟨tss, htexts, hss⟩ := h.exists_between
  refine ⟨_, spells_joinWith (s := .semicolon) rfl htexts, ?_⟩
  clear h htexts
  induction hss with
  | nil => exact .noStatements
  | cons hs hrest ih =>
      cases hrest with
      | nil => simpa using Derives.unclosed hs .noStatements (by simp)
      | cons _ _ =>
          rw [List.intercalate_cons_cons]
          simpa using Derives.closed hs ih

/-- A block is written between braces, and followed by anything. -/
theorem delimits_block {ss : List Stmt} {texts : List String}
    (h : List.Forall₂ (Written .statement) ss texts) :
    ∃ ts, Derives .statements ss ts ∧
      Delimits (blockText texts) (enclosed .leftBrace .rightBrace ts) := by
  have hclosing := delimits_symbol .rightBrace (by decide)
  obtain ⟨ts, hts, hss⟩ := written_statements h
  refine ⟨ts, hss, ?_⟩
  cases h with
  | nil =>
      cases hss
      exact (delimits_separator .leftBrace).append hclosing
  | cons _ _ =>
      have hfront := (delimits_separator .leftBrace).append_spells hts
      have hwhole := hfront.append (delimits_space.append hclosing) rfl
      exact hwhole

/-! ## Expressions -/

/-- An expression is not empty, and does not start with a `=`. -/
theorem Written.head_ne {n : Phrase} {tree : n.Tree} {text : String} (h : Written n tree text)
    (hn : n ∈ [.primary, .chained, .unary, .expression]) :
    text ≠ "" ∧ ∀ c ∈ text.toList.head?, c ≠ '=' := by
  obtain ⟨ts, hts, he⟩ := h
  obtain ⟨t, us, rfl, hstarts⟩ := he.exists_head hn
  have hscan := hts.scan_eq
  constructor
  · rintro rfl
    exact absurd hscan (by simp [Token.scan_nil])
  · rintro c hc rfl
    obtain ⟨cs, hcs⟩ := List.head?_eq_some_iff.1 hc
    obtain ⟨s, hs, rest, hequals⟩ := Token.exists_scan_equals cs
    rw [hcs, hequals] at hscan
    obtain ⟨rfl, -⟩ := List.cons.inj hscan
    have hnot : ∀ s ∈ [Symbol.assign, .equal], ¬ startsOperand (.symbol s) := by decide
    exact hnot s hs hstarts

/-- A prefix operator is written in front of its operand. -/
theorem Written.signed (op : UnaryOp) {e : Expr} {text : String} (h : Written .unary e text) :
    Written .unary (.unary op e) (op.text ++ text) := by
  obtain ⟨hne, hhead⟩ := h.head_ne (by simp)
  obtain ⟨ts, hts, he⟩ := h
  have hop : op.text = op.symbol.text := by cases op <;> rfl
  rw [hop]
  exact ⟨_, hts.signed hne hhead, .signed op he⟩

theorem Written.bare {e : Expr} {text : String} (h : Written .chained e text) :
    Written .unary e text := by
  obtain ⟨ts, hts, he⟩ := h
  exact ⟨ts, hts, .bare he⟩

theorem Written.expression {e : Expr} {text : String} (h : Written .unary e text) :
    Written .expression e text := by
  obtain ⟨ts, hts, he⟩ := h
  exact ⟨ts, hts, .ofUnary he⟩

theorem Written.unary (op : UnaryOp) {e : Expr} {text : String} (h : Written .chained e text) :
    Written .chained (.unary op e) ("(" ++ op.text ++ text ++ ")") := by
  obtain ⟨ts, hts, he⟩ := h.bare.signed op
  have hwhole := (hts.between .leftParen .rightParen rfl rfl).spells
  rw [← String.append_assoc] at hwhole
  exact ⟨_, hwhole, .chainHead (.group (.ofUnary he))⟩

theorem delimits_binaryOp (op : BinaryOp) : Delimits op.text [.symbol op.symbol] :=
  delimits_symbol op.symbol (by cases op <;> decide)

theorem Written.binary (op : BinaryOp) {l r : Expr} {text text' : String}
    (hl : Written .chained l text) (hr : Written .chained r text') :
    Written .chained (.binary op l r)
      ("(" ++ text ++ " " ++ op.text ++ " " ++ text' ++ ")") := by
  obtain ⟨ts, hts, hl⟩ := hl
  obtain ⟨us, hus, hr⟩ := hr
  have hleft := ((delimits_opening (s := .leftParen) rfl).append_spells hts).append
    delimits_space rfl
  have hright := ((hleft.append (delimits_binaryOp op)).append delimits_space).append_spells hus
  have hwhole := hright.append (delimits_closing (s := .rightParen) rfl) rfl
  exact .ofDelimits hwhole (by simp [enclosed])
    (.chainHead (.group (.binary op (.bare hl) (.bare hr))))

theorem Written.index {c p : Expr} {text text' : String} (hc : Written .chained c text)
    (hp : Written .chained p text') :
    Written .chained (.index c p) ("(" ++ text ++ "[" ++ text' ++ "])") := by
  obtain ⟨ts, hts, hc⟩ := hc
  obtain ⟨us, hus, hp⟩ := hp
  have hfront := ((delimits_opening (s := .leftParen) rfl).append_spells hts).append
    (delimits_opening (s := .leftBracket) rfl) rfl
  have hend : Delimits "])" [.symbol .rightBracket, .symbol .rightParen] :=
    (delimits_closing (s := .rightBracket) rfl).append (delimits_closing (s := .rightParen) rfl)
  have hwhole := (hfront.append_spells hus).append hend rfl
  exact .ofDelimits hwhole (by simp [enclosed])
    (.chainHead (.group (.ofUnary (.bare (.index hc (.ofUnary (.bare hp)))))))

theorem Written.call {f : Expr} {args : List Expr} {text text' : String}
    (hf : Written .chained f text) (hargs : Written .items args text') :
    Written .chained (.call f args) (text ++ "(" ++ text' ++ ")") := by
  obtain ⟨ts, hts, hf⟩ := hf
  obtain ⟨us, hus, hargs⟩ := hargs
  have hfront := hts.append (delimits_opening (s := .leftParen) rfl) rfl
  have hwhole := (hfront.append_spells hus).append (delimits_closing (s := .rightParen) rfl) rfl
  exact .ofDelimits hwhole (by simp [enclosed]) (.call hf hargs)

theorem Written.array {es : List Expr} {text : String} (h : Written .items es text) :
    Written .chained (.array es) ("[" ++ text ++ "]") := by
  obtain ⟨ts, hts, hes⟩ := h
  exact .ofDelimits (hts.between .leftBracket .rightBracket rfl rfl) rfl (.chainHead (.array hes))

theorem Written.map {ps : List (Expr × Expr)} {text : String} (h : Written .pairs ps text) :
    Written .chained (.map ps) ("\x7b" ++ text ++ "\x7d") := by
  obtain ⟨ts, hts, hps⟩ := h
  exact .ofDelimits (hts.between .leftBrace .rightBrace rfl rfl) rfl (.chainHead (.map hps))

theorem Written.fn {params : List String} {body : List Stmt} {texts : List String}
    (hparams : ∀ p ∈ params, isName p) (hbody : List.Forall₂ (Written .statement) body texts) :
    Written .chained (.fn params body)
      ("fn(" ++ joinWith ", " params ++ ") " ++ blockText texts) := by
  obtain ⟨ts, hts, hblock⟩ := delimits_block hbody
  have hword : Delimits "fn(" [.keyword .fn, .symbol .leftParen] :=
    (spells_keyword .fn).append (delimits_opening (s := .leftParen) rfl) rfl
  have hfront := (hword.append_spells (spells_parameters hparams)).append
    (delimits_separator .rightParen) rfl
  exact .ofDelimits (hfront.append hblock) (by simp [enclosed]) (.chainHead (.fn params hts))

theorem Written.cond {c : Expr} {t : List Stmt} {text : String} {texts : List String}
    (hc : Written .chained c text) (ht : List.Forall₂ (Written .statement) t texts) :
    Written .chained (.cond c t none) ("if " ++ text ++ " " ++ blockText texts) := by
  obtain ⟨ts, hts, hc⟩ := hc
  obtain ⟨us, hus, hblock⟩ := delimits_block ht
  have hfront := ((delimits_keyword .ifWord).append_spells hts).append delimits_space rfl
  exact .ofDelimits (hfront.append hblock) (by simp)
    (.chainHead (.cond (.ofUnary (.bare hc)) hus))

theorem Written.condElse {c : Expr} {t e : List Stmt} {text : String} {texts texts' : List String}
    (hc : Written .chained c text) (ht : List.Forall₂ (Written .statement) t texts)
    (he : List.Forall₂ (Written .statement) e texts') :
    Written .chained (.cond c t (some e))
      ("if " ++ text ++ " " ++ blockText texts ++ " else " ++ blockText texts') := by
  obtain ⟨ts, hts, hc⟩ := hc
  obtain ⟨us, hus, hthen⟩ := delimits_block ht
  obtain ⟨vs, hvs, helse⟩ := delimits_block he
  have hfront := ((delimits_keyword .ifWord).append_spells hts).append delimits_space rfl
  have hword : Delimits " else " [.keyword .elseWord] :=
    delimits_space.append (delimits_keyword .elseWord)
  exact .ofDelimits (((hfront.append hthen).append hword).append helse) (by simp)
    (.chainHead (.condElse (.ofUnary (.bare hc)) hus hvs))

theorem Written.int {value : Nat} (h : value ≤ maxInteger) :
    Written .chained (.int value) (toString value) := by
  have hchars : (toString value).toList = Nat.toDigits 10 value := Nat.toList_repr
  have hvalue : Nat.ofDigitChars 10 (toString value).toList 0 = value := by
    rw [hchars, Nat.ofDigitChars_toDigits (by decide) (by decide)]
  have hint := Derives.int (toString value) (by rwa [hvalue])
  rw [hvalue] at hint
  exact ⟨_, spells_nat value, .chainHead hint⟩

theorem Written.bool (value : Bool) : Written .chained (.bool value) (toString value) := by
  cases value with
  | true => exact ⟨_, spells_keyword .trueWord, .chainHead .trueWord⟩
  | false => exact ⟨_, spells_keyword .falseWord, .chainHead .falseWord⟩

/-! ## Statements -/

theorem Written.const {name : String} {e : Expr} {text : String} (hname : isName name)
    (h : Written .chained e text) :
    Written .statement (.const name e) ("const " ++ name ++ " = " ++ text) := by
  obtain ⟨ts, hts, he⟩ := h
  have hassign : Delimits " = " [.symbol .assign] :=
    delimits_space.append (delimits_separator .assign)
  have hfront := ((delimits_keyword .const).append_spells (spells_name hname)).append hassign rfl
  exact ⟨_, hfront.append_spells hts, .const name (.ofUnary (.bare he))⟩

theorem Written.ret {e : Expr} {text : String} (h : Written .chained e text) :
    Written .statement (.ret e) ("return " ++ text) := by
  obtain ⟨ts, hts, he⟩ := h
  exact ⟨_, (delimits_keyword .returnWord).append_spells hts, .ret (.ofUnary (.bare he))⟩

theorem Written.expr {e : Expr} {text : String} (h : Written .chained e text) :
    Written .statement (.expr e) text := by
  obtain ⟨ts, hts, he⟩ := h
  exact ⟨ts, hts, .expr (.ofUnary (.bare he))⟩

end Grammar

/-! ## Trees -/

open Grammar

mutual

theorem Expr.written : (e : Expr) → e.isWellFormed → Written .chained e e.text
  | .name n, h => ⟨_, spells_name h, .chainHead (.name n)⟩
  | .int _, h => .int (of_decide_eq_true h)
  | .str contents, h =>
      .ofDelimits (delimits_quoted (by simpa [Expr.isWellFormed] using h)) rfl
        (.chainHead (.str contents))
  | .bool value, _ => .bool value
  | .unary op operand, h => .unary op (operand.written h)
  | .binary op left right, h =>
      have ⟨hl, hr⟩ := Bool.and_eq_true_iff.1 h
      .binary op (left.written hl) (right.written hr)
  | .cond condition thenBlock none, h =>
      have ⟨hc, ht⟩ := Bool.and_eq_true_iff.1 h
      .cond (condition.written hc) (Stmt.allWritten thenBlock ht)
  | .cond condition thenBlock (some elseBlock), h =>
      have ⟨hct, he⟩ := Bool.and_eq_true_iff.1 h
      have ⟨hc, ht⟩ := Bool.and_eq_true_iff.1 hct
      .condElse (condition.written hc) (Stmt.allWritten thenBlock ht)
        (Stmt.allWritten elseBlock he)
  | .fn params body, h =>
      have ⟨hparams, hbody⟩ := Bool.and_eq_true_iff.1 h
      .fn (List.all_eq_true.1 hparams) (Stmt.allWritten body hbody)
  | .call callee args, h =>
      have ⟨hf, hargs⟩ := Bool.and_eq_true_iff.1 h
      .call (callee.written hf) (written_items (Expr.allWritten args hargs))
  | .array items, h => .array (written_items (Expr.allWritten items h))
  | .map pairs, h => .map (written_pairs (Expr.pairsWritten pairs h))
  | .index collection position, h =>
      have ⟨hc, hp⟩ := Bool.and_eq_true_iff.1 h
      .index (collection.written hc) (position.written hp)

theorem Expr.allWritten : (es : List Expr) → Expr.areWellFormed es →
    List.Forall₂ (Written .expression) es (Expr.texts es)
  | [], _ => .nil
  | e :: es, h =>
      have ⟨he, hes⟩ := Bool.and_eq_true_iff.1 h
      .cons (e.written he).bare.expression (Expr.allWritten es hes)

theorem Expr.pairsWritten : (ps : List (Expr × Expr)) → Expr.pairsAreWellFormed ps →
    List.Forall₂ PairWritten ps (Expr.pairTexts ps)
  | [], _ => .nil
  | (key, value) :: ps, h =>
      have ⟨hpair, hps⟩ := Bool.and_eq_true_iff.1 h
      have ⟨hk, hv⟩ := Bool.and_eq_true_iff.1 hpair
      .cons ((key.written hk).bare.expression.pair (value.written hv).bare.expression)
        (Expr.pairsWritten ps hps)

theorem Stmt.written : (s : Stmt) → s.isWellFormed → Written .statement s s.text
  | .const _ value, h =>
      have ⟨hname, hvalue⟩ := Bool.and_eq_true_iff.1 h
      .const hname (value.written hvalue)
  | .ret value, h => .ret (value.written h)
  | .expr e, h => .expr (e.written h)

theorem Stmt.allWritten : (ss : List Stmt) → Stmt.areWellFormed ss →
    List.Forall₂ (Written .statement) ss (Stmt.texts ss)
  | [], _ => .nil
  | s :: ss, h =>
      have ⟨hs, hss⟩ := Bool.and_eq_true_iff.1 h
      .cons (s.written hs) (Stmt.allWritten ss hss)

end

theorem Program.written (p : Program) (h : p.isWellFormed) :
    Written .statements p.statements p.text :=
  written_statements (Stmt.allWritten p.statements h)

/-- A text that spells statements is read as them, without an error. -/
theorem Grammar.Written.parse_eq {ss : List Stmt} {text : String}
    (h : Written .statements ss text) : Program.parse text = ⟨⟨ss⟩, []⟩ := by
  obtain ⟨ts, hts, hss⟩ := h
  rw [Program.parse, hts.scan_eq]
  exact (Program.ofTokens_eq_iff ts ss).2 hss

/-- A text that spells an expression is read as the statement that it is, without an error. -/
theorem Grammar.Written.parse_expr {e : Expr} {text : String} (h : Written .expression e text) :
    Program.parse text = ⟨⟨[.expr e]⟩, []⟩ := by
  obtain ⟨ts, hts, he⟩ := h
  have hstatements : Derives .statements [.expr e] ts := by
    simpa using Derives.unclosed (.expr he) .noStatements (by simp)
  exact Written.parse_eq ⟨ts, hts, hstatements⟩

/-- **Reading undoes writing.** The canonical text of a program that can be written down is read as
    the same program, without an error. -/
theorem Program.parse_text (p : Program) (h : p.isWellFormed) :
    Program.parse p.text = ⟨p, []⟩ :=
  (p.written h).parse_eq

/-- An `if` that is called, inside the condition of another, next to a map at the start of a
    block. -/
theorem Program.parse_text_calledCondition :
    let called := Expr.call (.cond (.name "a") [.expr (.map [])] none) [.unary .not (.int 5)]
    let p : Program := ⟨[.const "x" (.cond called [.expr (.map [(.str "k", .fn ["y"] [])])] none)]⟩
    p.isWellFormed ∧ Program.parse p.text = ⟨p, []⟩ :=
  ⟨by decide, Program.parse_text _ (by decide)⟩

end ConstScript
