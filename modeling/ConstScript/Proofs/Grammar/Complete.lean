import ConstScript.Proofs.Grammar.Reading

set_option autoImplicit false

/-! # What the grammar derives is read

A phrase that the grammar derives is read, with the tree it denotes and up to its last token,
whatever follows it -- as long as that does not go on with the phrase. `Accepted` says this for
every sort of phrase, and `Derives.accepted` proves it by induction on the derivation.

The one step that is not local is the chain of operators of an expression. The grammar has the chain
as a whole, while reading takes an operator only if it binds more tightly than a floor:
`pieces_yield` shows that reading stops in front of the first link that does not. -/

namespace ConstScript.Grammar

/-! ## What may follow -/

/-- What follows neither goes on with an expression nor is an `else`. -/
structure Ends (rest : List Token) : Prop where
  stopsAt : ∀ floor, StopsAt floor rest
  noElse : NoElse rest

theorem Ends.noChain {rest : List Token} (h : Ends rest) : NoChain rest :=
  noChain_of_stopsAt (Precedence.lt_irrefl _) (h.stopsAt .unary)

theorem Ends.of_not_goesOn {rest : List Token} (h : ∀ t ∈ rest.head?, ¬ t.goesOn)
    (helse : NoElse rest) : Ends rest :=
  ⟨stopsAt_of_not_goesOn h, helse⟩

theorem Ends.nil : Ends [] :=
  .of_not_goesOn (by simp) (by simp [NoElse])

/-- A symbol that is none of those that go on ends an expression. -/
theorem Ends.symbol {s : Symbol} (h : ¬ (Token.symbol s).goesOn) (rest : List Token) :
    Ends (.symbol s :: rest) :=
  .of_not_goesOn (by simpa using h) (by simp [NoElse])

/-! ## Chains of operators -/

/-- The tokens are read as an operand, and everything after them as its continuation. -/
def AcceptedOperand (e : Expr) (ts : List Token) : Prop :=
  ∀ floor rest whole us, ¬ .unary < floor → NoElse rest → NoChain rest →
    Yields (continued floor e rest) whole us → Yields (expression floor (ts ++ rest)) whole us

/-- A link and the tokens of its operand. -/
structure Piece where
  link : Link
  operandTokens : List Token

/-- The tokens of a chain. -/
def Piece.tokens (ps : List Piece) : List Token :=
  ps.flatMap (fun p => .symbol p.link.op.symbol :: p.operandTokens)

@[simp] theorem Piece.tokens_nil : Piece.tokens [] = [] := rfl

@[simp] theorem Piece.tokens_cons (p : Piece) (ps : List Piece) :
    Piece.tokens (p :: ps) = .symbol p.link.op.symbol :: (p.operandTokens ++ Piece.tokens ps) := rfl

@[simp] theorem Piece.tokens_append (ps qs : List Piece) :
    Piece.tokens (ps ++ qs) = Piece.tokens ps ++ Piece.tokens qs :=
  List.flatMap_append

theorem noElse_pieces (ps : List Piece) {rest : List Token} (h : Ends rest) :
    NoElse (Piece.tokens ps ++ rest) := by
  cases ps with
  | nil => exact h.noElse
  | cons p ps => simp [NoElse]

theorem noChain_pieces (ps : List Piece) {rest : List Token} (h : Ends rest) :
    NoChain (Piece.tokens ps ++ rest) := by
  cases ps with
  | nil => exact h.noChain
  | cons p ps => exact noChain_link _ _

theorem stopsAt_pieces {floor : Precedence} {ps : List Piece}
    (hps : ∀ p ∈ ps.head?, ¬ floor < p.link.precedence) {rest : List Token} (h : Ends rest) :
    StopsAt floor (Piece.tokens ps ++ rest) := by
  cases ps with
  | nil => exact h.stopsAt floor
  | cons p ps => exact stopsAt_link (hps p rfl) _

/-- A chain falls into the links that bind more tightly than `floor` and those from the first one on
    that does not. -/
theorem exists_split_at (floor : Precedence) (ps : List Piece) :
    ∃ inner outer, ps = inner ++ outer ∧ (∀ q ∈ inner, floor < q.link.precedence) ∧
      ∀ q ∈ outer.head?, ¬ floor < q.link.precedence := by
  let tighter : Piece → Bool := fun q => floor < q.link.precedence
  refine ⟨ps.takeWhile tighter, ps.dropWhile tighter, List.takeWhile_append_dropWhile.symm, ?_, ?_⟩
  · intro q hq
    have htighter : tighter q := List.mem_takeWhile_imp hq
    simpa [tighter] using htighter
  · intro q hq
    have hnot := List.head?_dropWhile_not tighter ps
    rw [Option.mem_def.1 hq] at hnot
    simpa [tighter] using hnot

/-- **Reading a chain.** Of a chain of operators, reading above `floor` takes the links up to the
    first one that does not bind more tightly than `floor`, and nests them as `nest` says. -/
theorem pieces_yield (taken left : List Piece) {floor : Precedence} (hfloor : ¬ .unary < floor)
    (first : Expr) {rest : List Token} (hrest : Ends rest)
    (htaken : ∀ p ∈ taken, floor < p.link.precedence)
    (hleft : ∀ p ∈ left.head?, ¬ floor < p.link.precedence)
    (hoperands : ∀ p ∈ taken, AcceptedOperand p.link.operand p.operandTokens) :
    Yields (continued floor first (Piece.tokens taken ++ (Piece.tokens left ++ rest)))
      (nest first (taken.map Piece.link)) (Piece.tokens left ++ rest) := by
  cases taken with
  | nil =>
      rw [List.map_nil, nest_nil]
      exact stop_yields first (stopsAt_pieces hleft hrest)
  | cons p ps =>
      -- The right operand takes the links that bind more tightly than `p`, the loop the others.
      obtain ⟨inner, outer, rfl, hinner, houter⟩ := exists_split_at p.link.precedence ps
      obtain ⟨hp, hps⟩ := List.forall_mem_cons.1 htaken
      obtain ⟨hoperand, hoperands⟩ := List.forall_mem_cons.1 hoperands
      have hlater : ∀ q ∈ (outer ++ left).head?, ¬ p.link.precedence < q.link.precedence := by
        intro q hq
        cases outer with
        | nil => exact fun hlt => hleft q hq (Precedence.lt_trans hp hlt)
        | cons o outer => exact houter q hq
      have hunary : ¬ .unary < p.link.precedence := p.link.op.not_unary_lt_precedence
      have hright := pieces_yield inner (outer ++ left) hunary p.link.operand hrest hinner hlater
        (fun q hq => hoperands q (List.mem_append_left _ hq))
      have hwhole := pieces_yield outer left hfloor
        (.binary p.link.op first (nest p.link.operand (inner.map Piece.link))) hrest
        (fun q hq => hps q (List.mem_append_right _ hq)) hleft
        (fun q hq => hoperands q (List.mem_append_right _ hq))
      have hread := hoperand _ _ _ _ hunary (noElse_pieces (inner ++ (outer ++ left)) hrest)
        (noChain_pieces (inner ++ (outer ++ left)) hrest) (by
          rw [Piece.tokens_append, List.append_assoc]
          exact hright)
      have htokens : Piece.tokens (p :: (inner ++ outer)) ++ (Piece.tokens left ++ rest)
          = .symbol p.link.op.symbol ::
            (p.operandTokens ++ (Piece.tokens (inner ++ (outer ++ left)) ++ rest)) := by
        simp
      rw [htokens, List.map_cons, List.map_append, nest_absorb first p.link]
      · refine binary_yields hp hread ?_
        rw [Piece.tokens_append, List.append_assoc]
        exact hwhole
      · intro l hl
        obtain ⟨q, hq, rfl⟩ := List.mem_map.1 hl
        exact hinner q hq
      · intro l hl
        rw [List.head?_map, Option.mem_map] at hl
        obtain ⟨q, hq, rfl⟩ := hl
        exact houter q hq
termination_by taken.length
decreasing_by
  all_goals
    subst_vars
    simp only [List.length_cons, List.length_append]
    omega

/-! ## Phrases -/

/-- Every way of reading the sort of phrase reads the tokens as the tree. -/
def Accepted : (n : Phrase) → n.Tree → List Token → Prop
  | .primary, e, ts => ∀ rest, NoElse rest → Yields (operand (ts ++ rest)) e rest
  | .chained, e, ts => ∀ floor rest whole us, ¬ .unary < floor → NoElse rest →
      Yields (continued floor e rest) whole us → Yields (expression floor (ts ++ rest)) whole us
  | .unary, e, ts => AcceptedOperand e ts
  | .links, ls, ts => ∃ ps : List Piece, ls = ps.map Piece.link ∧ ts = Piece.tokens ps ∧
      ∀ p ∈ ps, AcceptedOperand p.link.operand p.operandTokens
  | .expression, e, ts => ∀ rest, Ends rest → Yields (expression .lowest (ts ++ rest)) e rest
  | .moreItems, es, ts => ∀ closing ∈ [Symbol.rightParen, .rightBracket], ∀ rest,
      Yields (moreItems closing (ts ++ .symbol closing :: rest)) es rest
  | .items, es, ts => ∀ closing ∈ [Symbol.rightParen, .rightBracket], ∀ rest,
      Yields (items closing (ts ++ .symbol closing :: rest)) es rest
  | .pairs, ps, ts => ∀ rest, Yields (pairs (ts ++ .symbol .rightBrace :: rest)) ps rest
  | .statement, s, ts => ∀ rest, Ends rest →
      Yields (statement (ts ++ rest)) s (skipSemicolon rest)
  | .statements, ss, ts => ∀ rest, Yields (block (ts ++ .symbol .rightBrace :: rest)) ss rest

/-- What comes after an item of a list ends the item. -/
theorem Derives.ends_moreItems {es : List Expr} {ts : List Token} (h : Derives .moreItems es ts)
    {closing : Symbol} (hclosing : closing ∈ [Symbol.rightParen, .rightBracket])
    (rest : List Token) : Ends (ts ++ .symbol closing :: rest) := by
  cases h with
  | noMoreItems =>
      have hgo : ¬ (Token.symbol closing).goesOn := by
        revert closing
        decide
      exact Ends.symbol hgo rest
  | moreItems => exact Ends.symbol (by decide) _

/-- What comes after a statement that is not closed ends it, and is no `;`. -/
theorem Derives.ends_statements {ss : List Stmt} {ts : List Token} (h : Derives .statements ss ts)
    (hts : ∀ t ∈ ts.head?, ¬ t.goesOn) {rest : List Token} (hrest : Ends rest)
    (hsemi : skipSemicolon rest = rest) :
    Ends (ts ++ rest) ∧ skipSemicolon (ts ++ rest) = ts ++ rest := by
  have hstarts := h.startsStatement_head
  cases ts with
  | nil => exact ⟨hrest, hsemi⟩
  | cons t us =>
      have ht := hstarts t rfl
      refine ⟨.of_not_goesOn hts ?_, ?_⟩
      · rintro heq
        obtain rfl : t = .keyword .elseWord := by simpa using heq
        exact absurd ht (by decide)
      · refine skipSemicolon_cons ?_ _
        rintro rfl
        exact absurd ht (by decide)

theorem Derives.block_yields {s : Stmt} {ss : List Stmt} {ts us rest vs : List Token}
    (h : Derives .statement s ts) (hs : Yields (statement (ts ++ us)) s vs)
    (hss : Yields (block vs) ss rest) : Yields (block (ts ++ us)) (s :: ss) rest := by
  obtain ⟨t, ts', rfl, ht⟩ := h.exists_head_statement
  refine statements_yields (by simp) ?_ hs hss
  intro heq
  obtain rfl : t = .symbol .rightBrace := by simpa using heq
  exact absurd ht (by decide)

/-- **What the grammar derives is read**, as the tree it denotes and up to its last token. -/
theorem Derives.accepted {n : Phrase} {tree : n.Tree} {ts : List Token} (h : Derives n tree ts) :
    Accepted n tree ts := by
  induction h with
  | int digits h => exact fun rest _ => int_yields h rest
  | name | str | trueWord | falseWord =>
      intro rest _
      rw [List.singleton_append]
      exact ⟨_, by rw [operand]⟩
  | group _ ih =>
      intro rest _
      rw [enclosed_append]
      exact group_yields (ih _ (Ends.symbol (by decide) rest))
  | cond _ _ ihc iht =>
      intro rest hrest
      rw [List.cons_append, List.append_assoc, enclosed_append]
      exact cond_yields (ihc _ (Ends.symbol (by decide) _)) (iht _) (noAlternative_yields hrest)
  | condElse _ _ _ ihc iht ihe =>
      intro rest _
      rw [List.cons_append, List.append_assoc, List.append_assoc, enclosed_append, List.cons_append,
        enclosed_append]
      exact cond_yields (ihc _ (Ends.symbol (by decide) _)) (iht _) (alternative_yields (ihe _))
  | fn params _ ih =>
      intro rest _
      rw [List.cons_append, List.append_assoc, enclosed_append, enclosed_append]
      exact fn_yields (parameters_yields params _) (ih _)
  | array _ ih =>
      intro rest _
      rw [enclosed_append]
      exact array_yields (ih _ (by simp) rest)
  | map _ ih =>
      intro rest _
      rw [enclosed_append]
      exact map_yields (ih rest)
  | chainHead _ ih =>
      intro floor rest whole us _ hrest hwhole
      exact expression_yields (ih rest hrest) hwhole
  | call _ _ ihf ihargs =>
      intro floor rest whole us hfloor hrest hwhole
      rw [List.append_assoc, enclosed_append]
      exact ihf _ _ _ _ hfloor (by simp [NoElse])
        (call_yields hfloor (ihargs _ (by simp) rest) hwhole)
  | index _ _ ihc ihp =>
      intro floor rest whole us hfloor hrest hwhole
      rw [List.append_assoc, enclosed_append]
      exact ihc _ _ _ _ hfloor (by simp [NoElse])
        (index_yields hfloor (ihp _ (Ends.symbol (by decide) rest)) hwhole)
  | bare _ ih =>
      intro floor rest whole us hfloor hrest _ hwhole
      exact ih floor rest whole us hfloor hrest hwhole
  | signed op _ ih =>
      intro floor rest whole us hfloor hrest hchain hwhole
      have hoperand := ih .unary rest _ _ (Precedence.lt_irrefl _) hrest hchain
        (stop_yields _ (stopsAt_unary_of_noChain hchain))
      exact expression_yields (signed_yields op hoperand) hwhole
  | noLinks => exact ⟨[], rfl, rfl, by simp⟩
  | @link op e ls ts us _ _ ihe ihls =>
      obtain ⟨ps, rfl, rfl, hps⟩ := ihls
      exact ⟨⟨⟨op, e⟩, ts⟩ :: ps, rfl, rfl, List.forall_mem_cons.2 ⟨ihe, hps⟩⟩
  | expression _ _ ihe ihls =>
      intro rest hrest
      obtain ⟨ps, rfl, rfl, hps⟩ := ihls
      rw [List.append_assoc]
      exact ihe _ _ _ _ (by decide) (noElse_pieces ps hrest) (noChain_pieces ps hrest)
        (pieces_yield ps [] (by decide) _ hrest (fun p _ => p.link.op.lowest_lt_precedence)
          (by simp) hps)
  | noMoreItems =>
      intro closing hclosing rest
      exact noMoreItems_yields (by rintro rfl; simp at hclosing) rest
  | moreItems _ hes ihe ihes =>
      intro closing hclosing rest
      rw [List.cons_append, List.append_assoc]
      exact moreItems_yields (ihe _ (hes.ends_moreItems hclosing rest)) (ihes _ hclosing rest)
  | noItems => exact fun closing _ rest => noItems_yields closing rest
  | items he hes ihe ihes =>
      intro closing hclosing rest
      have hnext : Kind.symbol closing ∈ [.symbol .rightParen, .symbol .rightBracket,
          .symbol .rightBrace, .keyword .const, .keyword .returnWord] := by
        revert closing
        decide
      rw [List.append_assoc]
      exact items_yields (he.ofNext_ne hnext _) (ihe _ (hes.ends_moreItems hclosing rest))
        (ihes _ hclosing rest)
  | noPairs => exact noPairs_yields
  | lastPair hk _ ihk ihv =>
      intro rest
      rw [List.append_assoc, List.cons_append]
      exact lastPair_yields (hk.ofNext_ne (by simp) _) (ihk _ (Ends.symbol (by decide) _))
        (ihv _ (Ends.symbol (by decide) _))
  | pair hk _ _ ihk ihv ihps =>
      intro rest
      rw [List.append_assoc, List.cons_append, List.append_assoc, List.cons_append]
      exact pair_yields (hk.ofNext_ne (by simp) _) (ihk _ (Ends.symbol (by decide) _))
        (ihv _ (Ends.symbol (by decide) _)) (ihps rest)
  | const name _ ih => exact fun rest hrest => const_yields name (ih rest hrest)
  | ret _ ih => exact fun rest hrest => ret_yields (ih rest hrest)
  | expr he ih =>
      intro rest hrest
      exact expr_yields (he.ofNext_ne (by simp) rest) (he.ofNext_ne (by simp) rest) (ih rest hrest)
  | noStatements => exact noStatements_yields
  | closed hs _ ihs ihss =>
      intro rest
      rw [List.append_assoc, List.cons_append]
      exact hs.block_yields (ihs _ (Ends.symbol (by decide) _)) (ihss rest)
  | unclosed hs hss hnext ihs ihss =>
      intro rest
      obtain ⟨hends, hskip⟩ := hss.ends_statements hnext
        (Ends.symbol (s := .rightBrace) (by decide) rest) rfl
      rw [List.append_assoc]
      exact hs.block_yields (ihs _ hends) (hskip.symm ▸ ihss rest)

end ConstScript.Grammar
