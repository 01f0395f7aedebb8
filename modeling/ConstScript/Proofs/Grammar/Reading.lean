import ConstScript.Proofs.Grammar.Phrase
import ConstScript.Grammar.Expression

set_option autoImplicit false

/-! # What the reading functions yield

One rule for each way in which a reading function can succeed, stated without the bounds on lengths
that its results carry. -/

namespace ConstScript.Grammar

/-- The result is the given value with the given tokens after it. -/
def Yields {α : Type} {bound : Nat} (r : Parse α bound) (value : α) (rest : List Token) : Prop :=
  ∃ h, r = .ok ⟨value, rest, h⟩

/-- No call or index follows. -/
def NoChain (rest : List Token) : Prop :=
  rest.head? ≠ some (.symbol .leftParen) ∧ rest.head? ≠ some (.symbol .leftBracket)

/-- No `else` follows. -/
def NoElse (rest : List Token) : Prop :=
  rest.head? ≠ some (.keyword .elseWord)

/-- Nothing follows that goes on with an expression at a level above `floor`. -/
def StopsAt (floor : Precedence) (rest : List Token) : Prop :=
  ∀ t ∈ rest.head?, ∀ c ∈ Continuation.ofToken? t, ¬ floor < c.precedence

/-! ## Tokens that go on with an expression -/

theorem ofToken?_binary (op : BinaryOp) :
    Continuation.ofToken? (.symbol op.symbol) = some (.binary op) := by
  cases op <;> rfl

theorem goesOn_iff_ofToken? (t : Token) : t.goesOn ↔ (Continuation.ofToken? t).isSome := by
  cases t with
  | symbol s => cases s <;> decide
  | _ => simp [Token.goesOn, BinaryOp.all, Continuation.ofToken?]

/-- The three forms of a token that goes on with an expression. -/
theorem ofToken?_eq_some {t : Token} {c : Continuation} (h : Continuation.ofToken? t = some c) :
    (t = .symbol .leftParen ∧ c = .call) ∨ (t = .symbol .leftBracket ∧ c = .index) ∨
      ∃ op : BinaryOp, t = .symbol op.symbol ∧ c = .binary op := by
  unfold Continuation.ofToken? at h
  split at h
  · exact .inl ⟨rfl, (Option.some.inj h).symm⟩
  · exact .inr (.inl ⟨rfl, (Option.some.inj h).symm⟩)
  · obtain ⟨op, hop, rfl⟩ := Option.map_eq_some_iff.1 h
    exact .inr (.inr ⟨op, by rw [BinaryOp.ofSymbol?_eq_some_iff.1 hop], rfl⟩)
  · exact absurd h (by simp)

theorem lowest_lt_precedence (c : Continuation) : .lowest < c.precedence := by
  cases c with
  | binary op => exact op.lowest_lt_precedence
  | call | index => decide

theorem stopsAt_of_not_goesOn {rest : List Token} (h : ∀ t ∈ rest.head?, ¬ t.goesOn)
    (floor : Precedence) : StopsAt floor rest := by
  intro t ht c hc
  refine absurd ?_ (h t ht)
  rw [goesOn_iff_ofToken?, Option.mem_def.1 hc]
  rfl

theorem not_goesOn_of_stopsAt {rest : List Token} (h : StopsAt .lowest rest) :
    ∀ t ∈ rest.head?, ¬ t.goesOn := by
  intro t ht hgo
  obtain ⟨c, hc⟩ := Option.isSome_iff_exists.1 ((goesOn_iff_ofToken? t).1 hgo)
  exact h t ht c hc (lowest_lt_precedence c)

/-- Calls and indexes bind more tightly than anything an operand is read at. -/
theorem noChain_of_stopsAt {floor : Precedence} {rest : List Token} (hfloor : ¬ .unary < floor)
    (h : StopsAt floor rest) : NoChain rest := by
  refine ⟨fun hhead => ?_, fun hhead => ?_⟩
  · exact h _ hhead .call rfl (Precedence.lt_of_not_lt_of_lt hfloor (by decide))
  · exact h _ hhead .index rfl (Precedence.lt_of_not_lt_of_lt hfloor (by decide))

theorem stopsAt_unary_of_noChain {rest : List Token} (h : NoChain rest) :
    StopsAt .unary rest := by
  intro t ht c hc
  rcases ofToken?_eq_some hc with ⟨rfl, rfl⟩ | ⟨rfl, rfl⟩ | ⟨op, rfl, rfl⟩
  · exact absurd ht h.1
  · exact absurd ht h.2
  · exact op.not_unary_lt_precedence

theorem stopsAt_link {floor : Precedence} {op : BinaryOp} (h : ¬ floor < op.precedence)
    (rest : List Token) : StopsAt floor (.symbol op.symbol :: rest) := by
  intro t ht c hc
  rw [List.head?_cons, Option.mem_some_iff] at ht
  subst ht
  rw [ofToken?_binary, Option.mem_some_iff] at hc
  subst hc
  exact h

theorem noChain_link (op : BinaryOp) (rest : List Token) :
    NoChain (.symbol op.symbol :: rest) := by
  cases op <;> exact ⟨by simp [BinaryOp.symbol], by simp [BinaryOp.symbol]⟩

/-! ## Single tokens and composition -/

/-- What is read first is passed on to what is read next. -/
theorem Yields.bind {α β : Type} {m n : Nat} {x : Parse α m} {f : Parsed α m → Parse β n}
    {a : α} {b : β} {us rest : List Token} (hx : Yields x a us)
    (hf : ∀ h, Yields (f ⟨a, us, h⟩) b rest) : Yields (x >>= f) b rest := by
  obtain ⟨h, rfl⟩ := hx
  exact hf h

theorem expect_yields (s : Symbol) (rest : List Token) :
    Yields (expect (.symbol s) (.symbol s :: rest)) () rest := by
  unfold Yields expect
  simp [Token.kind]

theorem expectName_yields (name : String) (rest : List Token) :
    Yields (expectName (.ident name :: rest)) name rest :=
  ⟨_, rfl⟩

/-! ## Operands -/

theorem expression_yields {floor : Precedence} {ts us rest : List Token} {left e : Expr}
    (hleft : Yields (operand ts) left us) (hwhole : Yields (continued floor left us) e rest) :
    Yields (expression floor ts) e rest := by
  rw [expression]
  exact hleft.bind fun _ => hwhole.bind fun _ => ⟨_, rfl⟩

theorem int_yields {digits : String} (h : Nat.ofDigitChars 10 digits.toList 0 ≤ maxInteger)
    (rest : List Token) :
    Yields (operand (.int digits :: rest)) (.int (Nat.ofDigitChars 10 digits.toList 0)) rest := by
  rw [operand]
  simp only [if_pos h]
  exact ⟨_, rfl⟩

theorem signed_yields (op : UnaryOp) {ts rest : List Token} {e : Expr}
    (h : Yields (expression .unary ts) e rest) :
    Yields (operand (.symbol op.symbol :: ts)) (.unary op e) rest := by
  cases op <;>
  · rw [UnaryOp.symbol, operand]
    exact h.bind fun _ => ⟨_, rfl⟩

theorem group_yields {ts rest : List Token} {e : Expr}
    (h : Yields (expression .lowest ts) e (.symbol .rightParen :: rest)) :
    Yields (operand (.symbol .leftParen :: ts)) e rest := by
  rw [operand]
  exact h.bind fun _ => (expect_yields _ _).bind fun _ => ⟨_, rfl⟩

theorem cond_yields {ts us vs rest : List Token} {c : Expr} {t : List Stmt}
    {e : Option (List Stmt)}
    (hc : Yields (expression .lowest ts) c (.symbol .leftBrace :: us)) (ht : Yields (block us) t vs)
    (he : Yields (alternative vs) e rest) :
    Yields (operand (.keyword .ifWord :: ts)) (.cond c t e) rest := by
  rw [operand]
  exact hc.bind fun _ => (expect_yields _ _).bind fun _ => ht.bind fun _ => he.bind fun _ =>
    ⟨_, rfl⟩

theorem noAlternative_yields {ts : List Token} (h : NoElse ts) :
    Yields (alternative ts) none ts := by
  rw [alternative.eq_def]
  split
  · exact absurd rfl h
  · exact ⟨_, rfl⟩

theorem alternative_yields {ts rest : List Token} {ss : List Stmt} (h : Yields (block ts) ss rest) :
    Yields (alternative (.keyword .elseWord :: .symbol .leftBrace :: ts)) (some ss) rest := by
  rw [alternative]
  exact (expect_yields _ _).bind fun _ => h.bind fun _ => ⟨_, rfl⟩

theorem fn_yields {ts us rest : List Token} {params : List String} {body : List Stmt}
    (hparams : Yields (parameters ts) params (.symbol .leftBrace :: us))
    (hbody : Yields (block us) body rest) :
    Yields (operand (.keyword .fn :: .symbol .leftParen :: ts)) (.fn params body) rest := by
  rw [operand]
  exact (expect_yields _ _).bind fun _ => hparams.bind fun _ => (expect_yields _ _).bind fun _ =>
    hbody.bind fun _ => ⟨_, rfl⟩

theorem array_yields {ts rest : List Token} {es : List Expr}
    (h : Yields (items .rightBracket ts) es rest) :
    Yields (operand (.symbol .leftBracket :: ts)) (.array es) rest := by
  rw [operand]
  exact h.bind fun _ => ⟨_, rfl⟩

theorem map_yields {ts rest : List Token} {ps : List (Expr × Expr)}
    (h : Yields (pairs ts) ps rest) :
    Yields (operand (.symbol .leftBrace :: ts)) (.map ps) rest := by
  rw [operand]
  exact h.bind fun _ => ⟨_, rfl⟩

/-! ## Parameters -/

theorem moreParameters_yields (ps : List String) (rest : List Token) :
    Yields (moreParameters (ps.flatMap (fun q => [.symbol .comma, .ident q]) ++
      .symbol .rightParen :: rest)) ps rest := by
  induction ps with
  | nil =>
      rw [List.flatMap_nil, List.nil_append, moreParameters.eq_def]
      exact (expect_yields _ _).bind fun _ => ⟨_, rfl⟩
  | cons p ps ih =>
      rw [List.flatMap_cons, List.append_assoc, List.cons_append, List.cons_append, List.nil_append,
        moreParameters.eq_def]
      exact (expectName_yields _ _).bind fun _ => ih.bind fun _ => ⟨_, rfl⟩

theorem parameters_yields (ps : List String) (rest : List Token) :
    Yields (parameters (parameterTokens ps ++ .symbol .rightParen :: rest)) ps rest := by
  cases ps with
  | nil => exact ⟨_, rfl⟩
  | cons p ps =>
      rw [parameterTokens, List.cons_append, parameters.eq_def]
      exact (expectName_yields _ _).bind fun _ => (moreParameters_yields ps rest).bind fun _ =>
        ⟨_, rfl⟩

/-! ## Continuations -/

theorem stop_yields {floor : Precedence} {ts : List Token} (left : Expr) (h : StopsAt floor ts) :
    Yields (continued floor left ts) left ts := by
  rw [continued.eq_def]
  split
  · exact ⟨_, rfl⟩
  · next t rest =>
    split
    · exact ⟨_, rfl⟩
    · next c hc =>
      rw [if_neg (h t rfl c hc)]
      exact ⟨_, rfl⟩

theorem binary_yields {floor : Precedence} {op : BinaryOp} (hop : floor < op.precedence)
    {left right e : Expr} {ts us rest : List Token}
    (hright : Yields (expression op.precedence ts) right us)
    (hwhole : Yields (continued floor (.binary op left right) us) e rest) :
    Yields (continued floor left (.symbol op.symbol :: ts)) e rest := by
  have hlt : floor < (Continuation.binary op).precedence := hop
  rw [continued, ofToken?_binary]
  simp only [if_pos hlt]
  exact hright.bind fun _ => hwhole.bind fun _ => ⟨_, rfl⟩

theorem call_yields {floor : Precedence} (hfloor : ¬ .unary < floor) {left e : Expr}
    {args : List Expr} {ts us rest : List Token} (hargs : Yields (items .rightParen ts) args us)
    (hwhole : Yields (continued floor (.call left args) us) e rest) :
    Yields (continued floor left (.symbol .leftParen :: ts)) e rest := by
  have hlt : floor < Continuation.call.precedence :=
    Precedence.lt_of_not_lt_of_lt hfloor (by decide)
  rw [continued, Continuation.ofToken?]
  simp only [if_pos hlt]
  exact hargs.bind fun _ => hwhole.bind fun _ => ⟨_, rfl⟩

theorem index_yields {floor : Precedence} (hfloor : ¬ .unary < floor) {left position e : Expr}
    {ts us rest : List Token}
    (hposition : Yields (expression .lowest ts) position (.symbol .rightBracket :: us))
    (hwhole : Yields (continued floor (.index left position) us) e rest) :
    Yields (continued floor left (.symbol .leftBracket :: ts)) e rest := by
  have hlt : floor < Continuation.index.precedence :=
    Precedence.lt_of_not_lt_of_lt hfloor (by decide)
  rw [continued, Continuation.ofToken?]
  simp only [if_pos hlt]
  exact hposition.bind fun _ => (expect_yields _ _).bind fun _ => hwhole.bind fun _ => ⟨_, rfl⟩

/-! ## Lists -/

theorem noMoreItems_yields {closing : Symbol} (h : closing ≠ .comma) (rest : List Token) :
    Yields (moreItems closing (.symbol closing :: rest)) [] rest := by
  generalize hts : Token.symbol closing :: rest = ts
  rw [moreItems.eq_def]
  split
  · simp only [List.cons.injEq, Token.symbol.injEq] at hts
    exact absurd hts.1 h
  · subst hts
    exact (expect_yields _ _).bind fun _ => ⟨_, rfl⟩

theorem moreItems_yields {closing : Symbol} {ts us rest : List Token} {e : Expr} {es : List Expr}
    (he : Yields (expression .lowest ts) e us) (hes : Yields (moreItems closing us) es rest) :
    Yields (moreItems closing (.symbol .comma :: ts)) (e :: es) rest := by
  rw [moreItems]
  exact he.bind fun _ => hes.bind fun _ => ⟨_, rfl⟩

theorem noItems_yields (closing : Symbol) (rest : List Token) :
    Yields (items closing (.symbol closing :: rest)) [] rest := by
  have hnext : Kind.ofNext (.symbol closing :: rest) = .symbol closing := rfl
  rw [items, if_pos hnext]
  exact (expect_yields _ _).bind fun _ => ⟨_, rfl⟩

theorem items_yields {closing : Symbol} {ts us rest : List Token} {e : Expr} {es : List Expr}
    (hts : Kind.ofNext ts ≠ .symbol closing) (he : Yields (expression .lowest ts) e us)
    (hes : Yields (moreItems closing us) es rest) : Yields (items closing ts) (e :: es) rest := by
  rw [items, if_neg hts]
  exact he.bind fun _ => hes.bind fun _ => ⟨_, rfl⟩

theorem noPairs_yields (rest : List Token) :
    Yields (pairs (.symbol .rightBrace :: rest)) [] rest := by
  rw [pairs]
  exact ⟨_, rfl⟩

theorem lastPair_yields {ts us rest : List Token} {k v : Expr}
    (hts : Kind.ofNext ts ≠ .symbol .rightBrace)
    (hk : Yields (expression .lowest ts) k (.symbol .colon :: us))
    (hv : Yields (expression .lowest us) v (.symbol .rightBrace :: rest)) :
    Yields (pairs ts) [(k, v)] rest := by
  rw [pairs.eq_def]
  split
  · exact absurd rfl hts
  · exact hk.bind fun _ => (expect_yields _ _).bind fun _ => hv.bind fun _ =>
      (expect_yields _ _).bind fun _ => ⟨_, rfl⟩

theorem pair_yields {ts us vs rest : List Token} {k v : Expr} {ps : List (Expr × Expr)}
    (hts : Kind.ofNext ts ≠ .symbol .rightBrace)
    (hk : Yields (expression .lowest ts) k (.symbol .colon :: us))
    (hv : Yields (expression .lowest us) v (.symbol .comma :: vs))
    (hps : Yields (pairs vs) ps rest) :
    Yields (pairs ts) ((k, v) :: ps) rest := by
  rw [pairs.eq_def]
  split
  · exact absurd rfl hts
  · exact hk.bind fun _ => (expect_yields _ _).bind fun _ => hv.bind fun _ =>
      (expect_yields _ _).bind fun _ => hps.bind fun _ => ⟨_, rfl⟩

/-! ## Statements -/

theorem skipSemicolon_cons {t : Token} (h : t ≠ .symbol .semicolon) (ts : List Token) :
    skipSemicolon (t :: ts) = t :: ts := by
  unfold skipSemicolon
  split
  · next heq => exact absurd (List.cons.inj heq).1 h
  · rfl

theorem noStatements_yields (rest : List Token) :
    Yields (block (.symbol .rightBrace :: rest)) [] rest := by
  rw [block]
  exact ⟨_, rfl⟩

theorem statements_yields {ts us rest : List Token} {s : Stmt} {ss : List Stmt}
    (hnil : ts ≠ []) (hclose : ts.head? ≠ some (.symbol .rightBrace))
    (hs : Yields (statement ts) s us) (hss : Yields (block us) ss rest) :
    Yields (block ts) (s :: ss) rest := by
  rw [block.eq_def]
  split
  · exact absurd rfl hnil
  · exact absurd rfl hclose
  · exact hs.bind fun _ => hss.bind fun _ => ⟨_, rfl⟩

theorem const_yields (name : String) {ts rest : List Token} {e : Expr}
    (h : Yields (expression .lowest ts) e rest) :
    Yields (statement (.keyword .const :: .ident name :: .symbol .assign :: ts)) (.const name e)
      (skipSemicolon rest) := by
  rw [statement]
  exact (expectName_yields _ _).bind fun _ => (expect_yields _ _).bind fun _ => h.bind fun _ =>
    ⟨_, rfl⟩

theorem ret_yields {ts rest : List Token} {e : Expr} (h : Yields (expression .lowest ts) e rest) :
    Yields (statement (.keyword .returnWord :: ts)) (.ret e) (skipSemicolon rest) := by
  rw [statement]
  exact h.bind fun _ => ⟨_, rfl⟩

theorem expr_yields {ts rest : List Token} {e : Expr} (hconst : Kind.ofNext ts ≠ .keyword .const)
    (hret : Kind.ofNext ts ≠ .keyword .returnWord) (h : Yields (expression .lowest ts) e rest) :
    Yields (statement ts) (.expr e) (skipSemicolon rest) := by
  rw [statement.eq_def]
  split
  · exact absurd rfl hconst
  · exact absurd rfl hret
  · exact h.bind fun _ => ⟨_, rfl⟩

end ConstScript.Grammar
