import ConstScript.Proofs.Grammar.Reading

set_option autoImplicit false

/-! # What is read is derived by the grammar

Each reading function either yields a phrase that the grammar derives, or gets *stuck*: the tokens
in front of the offending one can be completed to a phrase of that sort. One specification for each
function says both, and the proofs recurse as the functions do. -/

namespace ConstScript.Grammar

/-! ## Specifications of results -/

/-- A result is either a value of which `good` holds, with the tokens after it, or a fault of which
    `bad` holds. -/
def Meets {α : Type} {bound : Nat} (r : Parse α bound) (good : α → List Token → Prop)
    (bad : Fault → Prop) : Prop :=
  match r with
  | .ok p => good p.value p.rest
  | .error f => bad f

theorem Meets.bind {α β : Type} {m n : Nat} {x : Parse α m} {f : Parsed α m → Parse β n}
    {good₁ : α → List Token → Prop} {bad₁ : Fault → Prop} {good : β → List Token → Prop}
    {bad : Fault → Prop} (hx : Meets x good₁ bad₁) (hbad : ∀ fault, bad₁ fault → bad fault)
    (hf : ∀ a us h, good₁ a us → Meets (f ⟨a, us, h⟩) good bad) : Meets (x >>= f) good bad := by
  cases x with
  | ok p => exact hf _ _ _ hx
  | error fault => exact hbad fault hx

/-! ## Being stuck -/

/-- The tokens are the beginning of a phrase. -/
def Viable (n : Phrase) (ts : List Token) : Prop :=
  ∃ tree tail, Derives n tree (ts ++ tail)

/-- The tokens before the offending one are the beginning of a phrase. -/
def Stuck (n : Phrase) (ts : List Token) (fault : Fault) : Prop :=
  ∃ passed, ts = passed ++ fault.unread ∧ Viable n passed

/-- A part that is stuck leaves the whole stuck, if every completion of the part can be completed to
    a whole. -/
theorem Stuck.within {n m : Phrase} {ts whole : List Token} {fault : Fault} (h : Stuck n ts fault)
    (before after : List Token) (hwhole : whole = before ++ ts)
    (hcomplete : ∀ tree us, Derives n tree us →
      ∃ tree' vs, Derives m tree' vs ∧ vs = before ++ (us ++ after)) : Stuck m whole fault := by
  obtain ⟨passed, rfl, tree, tail, hpart⟩ := h
  obtain ⟨tree', _, hderives, rfl⟩ := hcomplete tree _ hpart
  subst hwhole
  exact ⟨before ++ passed, by simp, tree', tail ++ after, by simpa using hderives⟩

/-- Reading is stuck in front of what is missing. -/
theorem Stuck.at {m : Phrase} {tree : m.Tree} {us whole : List Token} {fault : Fault}
    (h : Derives m tree us) (before after : List Token) (hus : us = before ++ after)
    (hwhole : whole = before ++ fault.unread) : Stuck m whole fault := by
  subst hus hwhole
  exact ⟨before, rfl, tree, after, h⟩

/-- Any name completes a phrase that lacks an expression. -/
theorem derives_anyName : Derives .unary (.name "a") [.ident "a"] :=
  .bare (.chainHead (.name "a"))

/-! ## Single tokens -/

theorem expect_meets (s : Symbol) (ts : List Token) :
    Meets (expect (.symbol s) ts) (fun _ rest => ts = .symbol s :: rest)
      (fun fault => fault.unread = ts) := by
  unfold expect
  split
  · rfl
  · next t rest =>
    split
    · next hkind =>
      cases t with
      | symbol s' => exact congrArg₂ _ (congrArg _ (Kind.symbol.inj hkind)) rfl
      | _ => exact absurd hkind (by simp [Token.kind])
    · rfl

theorem expectName_meets (ts : List Token) :
    Meets (expectName ts) (fun name rest => ts = .ident name :: rest)
      (fun fault => fault.unread = ts) := by
  unfold expectName
  split <;> rfl

theorem moreParameters_meets (ts : List Token) :
    Meets (moreParameters ts)
      (fun ps rest => ts = ps.flatMap (fun q => [.symbol .comma, .ident q]) ++
        .symbol .rightParen :: rest)
      (fun fault => ∃ (passed tail : List Token) (ps : List String), ts = passed ++ fault.unread ∧
        ps.flatMap (fun q => [.symbol .comma, .ident q]) = passed ++ tail) := by
  rw [moreParameters.eq_def]
  split
  · next rest =>
    refine (expectName_meets rest).bind ?_ ?_
    · rintro fault rfl
      exact ⟨[.symbol .comma], [.ident "a"], ["a"], rfl, rfl⟩
    · rintro p us h rfl
      refine (moreParameters_meets us).bind ?_ ?_
      · rintro fault ⟨passed, tail, ps, rfl, htokens⟩
        exact ⟨.symbol .comma :: .ident p :: passed, tail, p :: ps, rfl, by simp [htokens]⟩
      · rintro ps vs _ rfl
        simp [Meets, pure, Except.pure]
  · refine (expect_meets _ _).bind ?_ ?_
    · rintro fault rfl
      exact ⟨[], [], [], rfl, rfl⟩
    · rintro _ us _ rfl
      rfl
termination_by ts.length

theorem parameters_meets (ts : List Token) :
    Meets (parameters ts)
      (fun ps rest => ts = parameterTokens ps ++ .symbol .rightParen :: rest)
      (fun fault => ∃ (passed tail : List Token) (ps : List String), ts = passed ++ fault.unread ∧
        parameterTokens ps = passed ++ tail) := by
  unfold parameters
  split
  · rfl
  · refine (expectName_meets _).bind ?_ ?_
    · rintro fault rfl
      exact ⟨[], [], [], rfl, rfl⟩
    · rintro p us _ rfl
      refine (moreParameters_meets us).bind ?_ ?_
      · rintro fault ⟨passed, tail, ps, rfl, htokens⟩
        exact ⟨.ident p :: passed, tail, p :: ps, rfl, congrArg _ htokens⟩
      · rintro ps vs _ rfl
        rfl

/-! ## What the functions read -/

/-- An expression read above a floor: an operand and the links that bind more tightly. -/
def ReadsExpression (floor : Precedence) (ts : List Token) (e : Expr)
    (rest : List Token) : Prop :=
  ∃ first us ls vs, ts = us ++ (vs ++ rest) ∧ Derives .unary first us ∧ Derives .links ls vs ∧
    e = nest first ls ∧ (∀ l ∈ ls, floor < l.precedence) ∧ StopsAt floor rest

theorem ReadsExpression.derives {floor : Precedence} {ts rest : List Token} {e : Expr}
    (h : ReadsExpression floor ts e rest) :
    ∃ us, ts = us ++ rest ∧ Derives .expression e us ∧ StopsAt floor rest := by
  obtain ⟨first, us, ls, vs, rfl, hfirst, hls, rfl, -, hstop⟩ := h
  exact ⟨us ++ vs, by simp, .expression hfirst hls, hstop⟩

theorem ReadsExpression.stopsAt {floor : Precedence} {ts rest : List Token} {e : Expr}
    (h : ReadsExpression floor ts e rest) : StopsAt floor rest := by
  obtain ⟨-, -, -, hstop⟩ := h.derives
  exact hstop

/-- Links that are read after an operand which no call or index follows. -/
def ReadsLinks (floor : Precedence) (left : Expr) (ts : List Token) (e : Expr)
    (rest : List Token) : Prop :=
  ∃ ls vs, ts = vs ++ rest ∧ Derives .links ls vs ∧ e = nest left ls ∧
    ∀ l ∈ ls, floor < l.precedence

/-- What is read after `left` depends on whether calls and indexes can still follow: they can if
    `left` is a chained phrase itself. -/
structure ReadsContinued (floor : Precedence) (left : Expr) (ts : List Token) (e : Expr)
    (rest : List Token) : Prop where
  ofChained : ∀ before, Derives .chained left before → ∃ us first vs, ts = us ++ vs ∧
    Derives .chained first (before ++ us) ∧ ReadsLinks floor first vs e rest
  ofNoChain : NoChain ts → ReadsLinks floor left ts e rest
  stopsAt : StopsAt floor rest

/-- A continuation is stuck in the links after the operand, or in its calls and indexes. -/
structure StuckContinued (left : Expr) (ts : List Token) (fault : Fault) : Prop where
  ofChained : ∀ before, Derives .chained left before → Stuck .expression (before ++ ts) fault
  ofNoChain : NoChain ts → Stuck .links ts fault

section

variable {floor : Precedence} {left next e : Expr} {part ts rest : List Token} {fault : Fault}

theorem ReadsContinued.stop (left : Expr) (h : StopsAt floor ts) :
    ReadsContinued floor left ts left ts where
  ofChained before hleft :=
    ⟨[], left, ts, rfl, by simpa using hleft, [], [], rfl, .noLinks, by simp, by simp⟩
  ofNoChain _ := ⟨[], [], rfl, .noLinks, by simp, by simp⟩
  stopsAt := h

theorem ReadsContinued.ofLinks (h : ReadsLinks floor left ts e rest) (hstop : StopsAt floor rest) :
    ReadsContinued floor left ts e rest where
  ofChained before hleft := ⟨[], left, ts, rfl, by simpa using hleft, h⟩
  ofNoChain _ := h
  stopsAt := hstop

theorem StuckContinued.ofLinks (h : Stuck .links ts fault) : StuckContinued left ts fault where
  ofChained before hleft := h.within before [] rfl fun ls us hls =>
    ⟨_, _, .expression (.bare hleft) hls, by simp⟩
  ofNoChain _ := h

/-- In front of a call or an index, being stuck is about chained phrases only. -/
theorem StuckContinued.ofChain (hchain : ¬ NoChain ts)
    (h : ∀ before, Derives .chained left before → Stuck .expression (before ++ ts) fault) :
    StuckContinued left ts fault where
  ofChained := h
  ofNoChain hno := absurd hno hchain

/-- Reading goes on after a call or an index. -/
theorem ReadsContinued.extend {whole : List Token} (h : ReadsContinued floor next ts e rest)
    (hpart : ∀ before, Derives .chained left before → Derives .chained next (before ++ part))
    (hwhole : whole = part ++ ts) (hchain : ¬ NoChain whole) :
    ReadsContinued floor left whole e rest where
  ofChained before hleft := by
    obtain ⟨us, first, vs, rfl, hfirst, hlinks⟩ := h.ofChained _ (hpart before hleft)
    exact ⟨part ++ us, first, vs, by simp [hwhole], by simpa using hfirst, hlinks⟩
  ofNoChain hno := absurd hno hchain
  stopsAt := h.stopsAt

theorem StuckContinued.extend {whole : List Token} (h : StuckContinued next ts fault)
    (hpart : ∀ before, Derives .chained left before → Derives .chained next (before ++ part))
    (hwhole : whole = part ++ ts) (hchain : ¬ NoChain whole) :
    StuckContinued left whole fault :=
  .ofChain hchain fun before hleft => by
    have hstuck := h.ofChained _ (hpart before hleft)
    rwa [List.append_assoc, ← hwhole] at hstuck

end

/-- If reading stopped in front of links, they do not bind more tightly than it read. -/
theorem Derives.head_not_tighter {floor : Precedence} {ls : List Link} {ts rest : List Token}
    (h : Derives .links ls ts) (hstop : StopsAt floor (ts ++ rest)) :
    ∀ l ∈ ls.head?, ¬ floor < l.precedence := by
  cases h with
  | noLinks => simp
  | link op he hls =>
      rintro l hl
      obtain rfl : _ = l := by simpa using hl
      exact hstop _ rfl _ (ofToken?_binary op)

/-- A statement that is read, with the `;` after it if there is one. -/
def ReadsStatement (ts : List Token) (s : Stmt) (rest : List Token) : Prop :=
  ∃ us, Derives .statement s us ∧
    (ts = us ++ .symbol .semicolon :: rest ∨ (ts = us ++ rest ∧ ∀ t ∈ rest.head?, ¬ t.goesOn))

theorem ReadsStatement.close {s : Stmt} {us rest : List Token} (h : Derives .statement s us)
    (hstop : StopsAt .lowest rest) : ReadsStatement (us ++ rest) s (skipSemicolon rest) := by
  unfold skipSemicolon
  split
  · exact ⟨us, h, .inl rfl⟩
  · exact ⟨us, h, .inr ⟨rfl, not_goesOn_of_stopsAt hstop⟩⟩

/-- Reading that is stuck after a statement is stuck in the statements. -/
theorem ReadsStatement.stuck {ts us : List Token} {s : Stmt} {fault : Fault}
    (h : ReadsStatement ts s us) (hstuck : Stuck .statements us fault) :
    Stuck .statements ts fault := by
  obtain ⟨vs, hs, rfl | ⟨rfl, hnext⟩⟩ := h
  · exact hstuck.within (vs ++ [.symbol .semicolon]) [] (by simp) fun ss us h =>
      ⟨_, _, .closed hs h, by simp⟩
  · obtain ⟨passed, rfl, ss, tail, hss⟩ := hstuck
    cases passed with
    | nil =>
        -- Nothing of a next statement was read, so what comes next is not restricted.
        exact Stuck.at (.unclosed hs .noStatements (by simp)) vs [] (by simp) rfl
    | cons t passed =>
        exact Stuck.at (.unclosed hs hss (by simpa using hnext)) (vs ++ t :: passed) tail
          (by simp) (by simp)

/-- An `else` block that is read, or none. -/
def ReadsAlternative (ts : List Token) (e : Option (List Stmt)) (rest : List Token) : Prop :=
  (e = none ∧ ts = rest) ∨ ∃ ss us, e = some ss ∧ Derives .statements ss us ∧
    ts = .keyword .elseWord :: (enclosed .leftBrace .rightBrace us ++ rest)

/-- An `else` block without its end. -/
def StuckAlternative (ts : List Token) (fault : Fault) : Prop :=
  ∃ passed tail ss us, ts = passed ++ fault.unread ∧ Derives .statements ss us ∧
    passed ++ tail = .keyword .elseWord :: enclosed .leftBrace .rightBrace us

/-- A phrase that is read up to and including a closing bracket. -/
def ReadsUpTo (closing : Symbol) (n : Phrase) (ts : List Token) (tree : n.Tree)
    (rest : List Token) : Prop :=
  ∃ us, ts = us ++ .symbol closing :: rest ∧ Derives n tree us

/-- An operand that is read, after which nothing chains if it starts with a prefix operator. -/
def ReadsOperand (ts : List Token) (e : Expr) (rest : List Token) : Prop :=
  ∃ us, ts = us ++ rest ∧ (Derives .primary e us ∨ Derives .unary e us ∧ NoChain rest)

/-! ## Specifications

Each says what the function reads and where it gets stuck. The functions call each other, so the
lemmas about single branches assume the specifications of what the branch calls. -/

/-- The specification of `expression`. -/
abbrev ExpressionMeets (floor : Precedence) (ts : List Token) : Prop :=
  Meets (expression floor ts) (ReadsExpression floor ts) (Stuck .expression ts)

/-- The specification of `operand`. -/
abbrev OperandMeets (ts : List Token) : Prop :=
  Meets (operand ts) (ReadsOperand ts) (Stuck .expression ts)

/-- The specification of `continued`. -/
abbrev ContinuedMeets (floor : Precedence) (left : Expr) (ts : List Token) : Prop :=
  Meets (continued floor left ts) (ReadsContinued floor left ts) (StuckContinued left ts)

/-- The specification of `items`. -/
abbrev ItemsMeet (closing : Symbol) (ts : List Token) : Prop :=
  Meets (items closing ts) (ReadsUpTo closing .items ts) (Stuck .items ts)

/-- The specification of `block`. -/
abbrev BlockMeets (ts : List Token) : Prop :=
  Meets (block ts) (ReadsUpTo .rightBrace .statements ts) (Stuck .statements ts)

/-- The specification of `alternative`. -/
abbrev AlternativeMeets (ts : List Token) : Prop :=
  Meets (alternative ts) (ReadsAlternative ts) (StuckAlternative ts)

/-! ## Operands -/

/-- A prefix operator takes an operand and no operator after it. -/
theorem signed_meets (op : UnaryOp) {rest : List Token} (h : ExpressionMeets .unary rest) :
    OperandMeets (.symbol op.symbol :: rest) := by
  have hbind : Meets
      (do
        let e ← expression .unary rest
        return ⟨.unary op e.value, e.rest, Nat.lt_succ_of_lt e.length_rest_lt⟩ :
          Parse Expr (rest.length + 1))
      (ReadsOperand (.symbol op.symbol :: rest))
      (Stuck .expression (.symbol op.symbol :: rest)) := by
    refine h.bind ?_ ?_
    · intro fault hstuck
      refine hstuck.within [.symbol op.symbol] [] rfl ?_
      rintro e us (hexpr : Derives .expression e us)
      cases hexpr with
      | expression hfirst hls => exact ⟨_, _, .expression (.signed op hfirst) hls, by simp⟩
    · rintro e us _ ⟨first, vs, ls, ws, rfl, hfirst, hls, rfl, htighter, hstop⟩
      cases hls with
      | noLinks =>
          rw [nest_nil]
          exact ⟨.symbol op.symbol :: vs, rfl, .inr ⟨.signed op hfirst,
            noChain_of_stopsAt (Precedence.lt_irrefl _) hstop⟩⟩
      | link op' =>
          -- No operator binds more tightly than a prefix operator, so none was taken.
          have hlt : .unary < op'.precedence := htighter _ List.mem_cons_self
          exact absurd hlt op'.not_unary_lt_precedence
  cases op with
  | not =>
      show Meets (operand (.symbol .bang :: rest)) _ _
      rw [operand]
      exact hbind
  | negate =>
      show Meets (operand (.symbol .minus :: rest)) _ _
      rw [operand]
      exact hbind

theorem name_meets (name : String) (rest : List Token) : OperandMeets (.ident name :: rest) := by
  unfold OperandMeets
  rw [operand]
  exact ⟨[.ident name], rfl, .inl (.name name)⟩

theorem int_meets (digits : String) (rest : List Token) : OperandMeets (.int digits :: rest) := by
  unfold OperandMeets
  rw [operand]
  split
  · next h => exact ⟨[.int digits], rfl, .inl (.int digits h)⟩
  · exact Stuck.at derives_anyName.ofUnary [] _ rfl rfl

theorem str_meets (contents : String) (rest : List Token) :
    OperandMeets (.str contents :: rest) := by
  unfold OperandMeets
  rw [operand]
  exact ⟨[.str contents], rfl, .inl (.str contents)⟩

theorem trueWord_meets (rest : List Token) : OperandMeets (.keyword .trueWord :: rest) := by
  unfold OperandMeets
  rw [operand]
  exact ⟨[.keyword .trueWord], rfl, .inl .trueWord⟩

theorem falseWord_meets (rest : List Token) : OperandMeets (.keyword .falseWord :: rest) := by
  unfold OperandMeets
  rw [operand]
  exact ⟨[.keyword .falseWord], rfl, .inl .falseWord⟩

/-- A token that starts no operand is where reading one is stuck. -/
theorem noOperand_meets {ts : List Token}
    (h : operand ts = .error ⟨.noOperand (Kind.ofNext ts), ts⟩) : OperandMeets ts := by
  unfold OperandMeets
  rw [h]
  exact Stuck.at derives_anyName.ofUnary [] _ rfl rfl

theorem group_meets {rest : List Token} (h : ExpressionMeets .lowest rest) :
    OperandMeets (.symbol .leftParen :: rest) := by
  unfold OperandMeets
  rw [operand]
  refine h.bind ?_ ?_
  · intro fault hstuck
    exact hstuck.within [.symbol .leftParen] [.symbol .rightParen] rfl fun e us h =>
      ⟨e, _, Derives.ofPrimary (.group h), rfl⟩
  · rintro e us _ hread
    obtain ⟨vs, rfl, he, -⟩ := hread.derives
    refine (expect_meets .rightParen us).bind ?_ ?_
    · rintro fault rfl
      exact Stuck.at (.ofPrimary (.group he)) (.symbol .leftParen :: vs) [.symbol .rightParen]
        rfl rfl
    · rintro _ us _ rfl
      exact ⟨enclosed .leftParen .rightParen vs, by simp [enclosed], .inl (.group he)⟩

theorem cond_meets {rest : List Token} (h : ExpressionMeets .lowest rest)
    (hblock : ∀ us, us.length < rest.length → BlockMeets us)
    (halternative : ∀ us, us.length < rest.length → AlternativeMeets us) :
    OperandMeets (.keyword .ifWord :: rest) := by
  unfold OperandMeets
  rw [operand]
  refine h.bind ?_ ?_
  · intro fault hstuck
    exact hstuck.within [.keyword .ifWord] [.symbol .leftBrace, .symbol .rightBrace] rfl
      fun c us h => ⟨_, _, Derives.ofPrimary (.cond h .noStatements), rfl⟩
  · rintro c us _ hread
    obtain ⟨vs, rfl, hc, -⟩ := hread.derives
    refine (expect_meets .leftBrace us).bind ?_ ?_
    · rintro fault rfl
      exact Stuck.at (.ofPrimary (.cond hc .noStatements)) (.keyword .ifWord :: vs)
        [.symbol .leftBrace, .symbol .rightBrace] rfl rfl
    · rintro _ us _ rfl
      refine (hblock us (by simp only [List.length_append, List.length_cons]; omega)).bind ?_ ?_
      · intro fault hstuck
        exact hstuck.within (.keyword .ifWord :: (vs ++ [.symbol .leftBrace]))
          [.symbol .rightBrace] (by simp) fun t us h =>
            ⟨_, _, Derives.ofPrimary (.cond hc h), by simp [enclosed]⟩
      · rintro t us _ ⟨ws, rfl, ht⟩
        refine (halternative us ?_).bind ?_ ?_
        · simp only [List.length_append, List.length_cons]
          omega
        · rintro fault ⟨passed, tail, ss, xs, rfl, hss, htokens⟩
          exact Stuck.at (.ofPrimary (.condElse hc ht hss))
            (.keyword .ifWord :: (vs ++ enclosed .leftBrace .rightBrace ws ++ passed)) tail
            (by simp [htokens]) (by simp [enclosed])
        · rintro e rest _ hread
          rcases hread with ⟨rfl, rfl⟩ | ⟨ss, xs, rfl, hss, rfl⟩
          · exact ⟨_, by simp [enclosed], .inl (.cond hc ht)⟩
          · exact ⟨_, by simp [enclosed], .inl (.condElse hc ht hss)⟩

theorem fn_meets {rest : List Token} (hblock : ∀ us, us.length < rest.length → BlockMeets us) :
    OperandMeets (.keyword .fn :: rest) := by
  unfold OperandMeets
  rw [operand]
  refine (expect_meets .leftParen rest).bind ?_ ?_
  · rintro fault rfl
    exact Stuck.at (.ofPrimary (.fn [] .noStatements)) [.keyword .fn]
      [.symbol .leftParen, .symbol .rightParen, .symbol .leftBrace, .symbol .rightBrace] rfl rfl
  · rintro _ us _ rfl
    refine (parameters_meets us).bind ?_ ?_
    · rintro fault ⟨passed, tail, ps, rfl, htokens⟩
      exact Stuck.at (.ofPrimary (.fn ps .noStatements))
        (.keyword .fn :: .symbol .leftParen :: passed)
        (tail ++ [.symbol .rightParen, .symbol .leftBrace, .symbol .rightBrace])
        (by simp [htokens, enclosed]) rfl
    · rintro ps us _ rfl
      refine (expect_meets .leftBrace us).bind ?_ ?_
      · rintro fault rfl
        exact Stuck.at (.ofPrimary (.fn ps .noStatements))
          (.keyword .fn :: enclosed .leftParen .rightParen (parameterTokens ps))
          [.symbol .leftBrace, .symbol .rightBrace] rfl (by simp)
      · rintro _ us _ rfl
        refine (hblock us (by simp only [List.length_append, List.length_cons]; omega)).bind ?_ ?_
        · intro fault hstuck
          exact hstuck.within
            (.keyword .fn :: (enclosed .leftParen .rightParen (parameterTokens ps) ++
              [.symbol .leftBrace]))
            [.symbol .rightBrace] (by simp) fun body us h =>
              ⟨_, _, Derives.ofPrimary (.fn ps h), by simp [enclosed]⟩
        · rintro body rest _ ⟨ws, rfl, hbody⟩
          exact ⟨_, by simp [enclosed], .inl (.fn ps hbody)⟩

theorem array_meets {rest : List Token} (h : ItemsMeet .rightBracket rest) :
    OperandMeets (.symbol .leftBracket :: rest) := by
  unfold OperandMeets
  rw [operand]
  refine h.bind ?_ ?_
  · intro fault hstuck
    exact hstuck.within [.symbol .leftBracket] [.symbol .rightBracket] rfl fun es us h =>
      ⟨_, _, Derives.ofPrimary (.array h), rfl⟩
  · rintro es us _ ⟨vs, rfl, hes⟩
    exact ⟨_, by simp [enclosed], .inl (.array hes)⟩

theorem map_meets {rest : List Token}
    (h : Meets (pairs rest) (ReadsUpTo .rightBrace .pairs rest) (Stuck .pairs rest)) :
    OperandMeets (.symbol .leftBrace :: rest) := by
  unfold OperandMeets
  rw [operand]
  refine h.bind ?_ ?_
  · intro fault hstuck
    exact hstuck.within [.symbol .leftBrace] [.symbol .rightBrace] rfl fun ps us h =>
      ⟨_, _, Derives.ofPrimary (.map h), rfl⟩
  · rintro ps us _ ⟨vs, rfl, hps⟩
    exact ⟨_, by simp [enclosed], .inl (.map hps)⟩

/-! ## Continuations -/

section

variable {floor : Precedence} {rest : List Token}

theorem call_meets (hlt : floor < Continuation.call.precedence) (left : Expr)
    (hitems : ItemsMeet .rightParen rest)
    (hcontinued : ∀ e us, us.length < rest.length → ContinuedMeets floor e us) :
    ContinuedMeets floor left (.symbol .leftParen :: rest) := by
  unfold ContinuedMeets
  rw [continued, Continuation.ofToken?]
  simp only [if_pos hlt]
  refine hitems.bind ?_ ?_
  · intro fault hstuck
    refine .ofChain (by simp [NoChain]) fun before hleft => ?_
    exact hstuck.within (before ++ [.symbol .leftParen]) [.symbol .rightParen] (by simp)
      fun args us h => ⟨_, _, .ofUnary (.bare (.call hleft h)), by simp [enclosed]⟩
  · rintro args us hshorter ⟨vs, rfl, hargs⟩
    have hcall : ∀ before, Derives .chained left before →
        Derives .chained (.call left args) (before ++ enclosed .leftParen .rightParen vs) :=
      fun before hleft => .call hleft hargs
    exact (hcontinued (.call left args) us hshorter).bind
      (fun fault h => h.extend hcall (by simp) (by simp [NoChain]))
      (fun e rest _ h => h.extend hcall (by simp) (by simp [NoChain]))

theorem index_meets (hlt : floor < Continuation.index.precedence) (left : Expr)
    (hposition : ExpressionMeets .lowest rest)
    (hcontinued : ∀ e us, us.length < rest.length → ContinuedMeets floor e us) :
    ContinuedMeets floor left (.symbol .leftBracket :: rest) := by
  unfold ContinuedMeets
  rw [continued, Continuation.ofToken?]
  simp only [if_pos hlt]
  refine hposition.bind ?_ ?_
  · intro fault hstuck
    refine .ofChain (by simp [NoChain]) fun before hleft => ?_
    exact hstuck.within (before ++ [.symbol .leftBracket]) [.symbol .rightBracket] (by simp)
      fun p us h => ⟨_, _, .ofUnary (.bare (.index hleft h)), by simp [enclosed]⟩
  · rintro p us _ hread
    obtain ⟨vs, rfl, hp, -⟩ := hread.derives
    have hindex : ∀ before, Derives .chained left before → Derives .chained (.index left p)
        (before ++ enclosed .leftBracket .rightBracket vs) :=
      fun before hleft => .index hleft hp
    refine (expect_meets .rightBracket us).bind ?_ ?_
    · rintro fault rfl
      refine .ofChain (by simp [NoChain]) fun before hleft => ?_
      exact Stuck.at (.ofUnary (.bare (hindex before hleft)))
        (before ++ .symbol .leftBracket :: vs) [.symbol .rightBracket]
        (by simp [enclosed]) (by simp)
    · rintro _ us _ rfl
      have hshorter : us.length < (vs ++ .symbol .rightBracket :: us).length := by
        simp only [List.length_append, List.length_cons]
        omega
      exact (hcontinued (.index left p) us hshorter).bind
        (fun fault h => h.extend hindex (by simp) (by simp [NoChain]))
        (fun e rest _ h => h.extend hindex (by simp) (by simp [NoChain]))

theorem binary_meets {op : BinaryOp} (hlt : floor < (Continuation.binary op).precedence)
    (left : Expr) (hright : ExpressionMeets op.precedence rest)
    (hcontinued : ∀ e us, us.length < rest.length → ContinuedMeets floor e us) :
    ContinuedMeets floor left (.symbol op.symbol :: rest) := by
  unfold ContinuedMeets
  rw [continued, ofToken?_binary]
  simp only [if_pos hlt]
  refine hright.bind ?_ ?_
  · intro fault hstuck
    refine .ofLinks (hstuck.within [.symbol op.symbol] [] rfl ?_)
    rintro e us (h : Derives .expression e us)
    cases h with
    | expression hfirst hls => exact ⟨_, _, .link op hfirst hls, by simp⟩
  · rintro right us hshorter hread
    have hchain := noChain_of_stopsAt op.not_unary_lt_precedence hread.stopsAt
    obtain ⟨first, vs, inner, ws, rfl, hfirst, hinner, rfl, htighter, hstop⟩ := hread
    have hlink := Derives.link op hfirst hinner
    refine (hcontinued _ us hshorter).bind ?_ ?_
    · intro fault hstuck
      exact .ofLinks ((hstuck.ofNoChain hchain).within
        (.symbol op.symbol :: (vs ++ ws)) [] (by simp) fun ls zs h =>
          ⟨_, _, hlink.links_append h, by simp⟩)
    · intro e rest _ hread
      obtain ⟨outer, zs, rfl, houter, rfl, hlower⟩ := hread.ofNoChain hchain
      show ReadsContinued floor left _ (nest (.binary op left (nest first inner)) outer) rest
      -- The right operand took the links that bind more tightly, and the rest is one chain with
      -- them.
      refine .ofLinks ⟨_, _, by simp, hlink.links_append houter, ?_, ?_⟩ hread.stopsAt
      · exact (nest_absorb left ⟨op, first⟩ inner outer htighter
          (houter.head_not_tighter hstop)).symm
      · intro l hl
        rw [List.mem_append, List.mem_cons] at hl
        rcases hl with (rfl | hl) | hl
        · exact hlt
        · exact Precedence.lt_trans hlt (htighter l hl)
        · exact hlower l hl

end

/-! ## The functions -/

mutual

theorem expression_meets {floor : Precedence} (hfloor : ¬ .unary < floor) (ts : List Token) :
    ExpressionMeets floor ts := by
  unfold ExpressionMeets
  rw [expression]
  refine (operand_meets ts).bind (fun fault h => h) ?_
  rintro left us hlt ⟨vs, rfl, hleft⟩
  -- A call or an index can only follow an operand without prefix operators.
  refine (continued_meets hfloor left us).bind ?_ ?_
  · intro fault hstuck
    rcases hleft with hprimary | ⟨hunary, hchain⟩
    · exact hstuck.ofChained vs (.chainHead hprimary)
    · exact (hstuck.ofNoChain hchain).within vs [] rfl fun ls ws h =>
        ⟨nest left ls, _, .expression hunary h, by simp⟩
  · rintro e rest _ hread
    show ReadsExpression floor (vs ++ us) e rest
    rcases hleft with hprimary | ⟨hunary, hchain⟩
    · obtain ⟨xs, first, ws, rfl, hfirst, ls, zs, rfl, hls, rfl, htighter⟩ :=
        hread.ofChained vs (.chainHead hprimary)
      exact ⟨first, vs ++ xs, ls, zs, by simp, .bare hfirst, hls, rfl, htighter, hread.stopsAt⟩
    · obtain ⟨ls, zs, rfl, hls, rfl, htighter⟩ := hread.ofNoChain hchain
      exact ⟨left, vs, ls, zs, rfl, hunary, hls, rfl, htighter, hread.stopsAt⟩
termination_by 4 * ts.length + 1
decreasing_by
  all_goals
    subst_vars
    omega

theorem operand_meets (ts : List Token) : OperandMeets ts := by
  cases ts with
  | nil => exact noOperand_meets (by rw [operand] <;> simp)
  | cons t rest =>
      cases t with
      | ident name => exact name_meets name rest
      | int digits => exact int_meets digits rest
      | str contents => exact str_meets contents rest
      | illegal c => exact noOperand_meets (by rw [operand] <;> simp)
      | keyword k =>
          cases k with
          | trueWord => exact trueWord_meets rest
          | falseWord => exact falseWord_meets rest
          | ifWord =>
              exact cond_meets (expression_meets (by decide) rest) (fun us _ => block_meets us)
                (fun us _ => alternative_meets us)
          | fn => exact fn_meets fun us _ => block_meets us
          | const | elseWord | returnWord => exact noOperand_meets (by rw [operand] <;> simp)
      | symbol s =>
          cases s with
          | bang => exact signed_meets .not (expression_meets (Precedence.lt_irrefl _) rest)
          | minus => exact signed_meets .negate (expression_meets (Precedence.lt_irrefl _) rest)
          | leftParen => exact group_meets (expression_meets (by decide) rest)
          | leftBracket => exact array_meets (items_meets (by decide) rest)
          | leftBrace => exact map_meets (pairs_meets rest)
          | _ => exact noOperand_meets (by rw [operand] <;> simp)
termination_by 4 * ts.length
decreasing_by
  all_goals
    subst_vars
    simp only [List.length_cons] at *
    omega

theorem continued_meets {floor : Precedence} (hfloor : ¬ .unary < floor) (left : Expr)
    (ts : List Token) : ContinuedMeets floor left ts := by
  cases ts with
  | nil =>
      unfold ContinuedMeets
      rw [continued]
      exact .stop left (by simp [StopsAt])
  | cons t rest =>
      cases hc : Continuation.ofToken? t with
      | none =>
          unfold ContinuedMeets
          rw [continued, hc]
          exact .stop left (by simp [StopsAt, hc])
      | some c =>
          by_cases hlt : floor < c.precedence
          · rcases ofToken?_eq_some hc with ⟨rfl, rfl⟩ | ⟨rfl, rfl⟩ | ⟨op, rfl, rfl⟩
            · exact call_meets hlt left (items_meets (by decide) rest)
                fun e us _ => continued_meets hfloor e us
            · exact index_meets hlt left (expression_meets (by decide) rest)
                fun e us _ => continued_meets hfloor e us
            · exact binary_meets hlt left (expression_meets op.not_unary_lt_precedence rest)
                fun e us _ => continued_meets hfloor e us
          · unfold ContinuedMeets
            rw [continued, hc]
            simp only [if_neg hlt]
            refine .stop left ?_
            intro t' ht' c' hc'
            obtain rfl : t = t' := by simpa using ht'
            obtain rfl : c = c' := by simpa [hc] using hc'
            exact hlt
termination_by 4 * ts.length
decreasing_by
  all_goals
    subst_vars
    simp only [List.length_cons] at *
    omega

theorem alternative_meets (ts : List Token) : AlternativeMeets ts := by
  unfold AlternativeMeets
  rw [alternative.eq_def]
  split
  · next rest =>
    refine (expect_meets .leftBrace rest).bind ?_ ?_
    · rintro fault rfl
      exact ⟨[.keyword .elseWord], [.symbol .leftBrace, .symbol .rightBrace], [], [], rfl,
        .noStatements, rfl⟩
    · rintro _ us _ rfl
      refine (block_meets us).bind ?_ ?_
      · rintro fault ⟨passed, rfl, ss, tail, hss⟩
        exact ⟨.keyword .elseWord :: .symbol .leftBrace :: passed, tail ++ [.symbol .rightBrace],
          ss, _, rfl, hss, by simp [enclosed]⟩
      · rintro ss rest _ ⟨vs, rfl, hss⟩
        exact .inr ⟨ss, vs, rfl, hss, by simp⟩
  · exact .inl ⟨rfl, rfl⟩
termination_by 4 * ts.length
decreasing_by
  all_goals
    subst_vars
    simp only [List.length_cons] at *
    omega

theorem items_meets {closing : Symbol} (hclosing : closing ≠ .comma) (ts : List Token) :
    ItemsMeet closing ts := by
  unfold ItemsMeet
  rw [items]
  split
  · refine (expect_meets closing ts).bind ?_ ?_
    · rintro fault rfl
      exact Stuck.at .noItems [] [] rfl rfl
    · rintro _ us _ rfl
      exact ⟨[], rfl, .noItems⟩
  · refine (expression_meets (by decide) ts).bind ?_ ?_
    · intro fault hstuck
      exact hstuck.within [] [] rfl fun e us h => ⟨_, _, .items h .noMoreItems, rfl⟩
    · rintro e us _ hread
      obtain ⟨vs, rfl, he, -⟩ := hread.derives
      refine (moreItems_meets hclosing us).bind ?_ ?_
      · intro fault hstuck
        exact hstuck.within vs [] rfl fun es us h => ⟨_, _, .items he h, by simp⟩
      · rintro es rest _ ⟨ws, rfl, hes⟩
        exact ⟨vs ++ ws, by simp, .items he hes⟩
termination_by 4 * ts.length + 2
decreasing_by
  all_goals
    subst_vars
    omega

theorem moreItems_meets {closing : Symbol} (hclosing : closing ≠ .comma) (ts : List Token) :
    Meets (moreItems closing ts) (ReadsUpTo closing .moreItems ts) (Stuck .moreItems ts) := by
  rw [moreItems.eq_def]
  split
  · next rest =>
    refine (expression_meets (by decide) rest).bind ?_ ?_
    · intro fault hstuck
      exact hstuck.within [.symbol .comma] [] rfl fun e us h =>
        ⟨_, _, .moreItems h .noMoreItems, rfl⟩
    · rintro e us _ hread
      obtain ⟨vs, rfl, he, -⟩ := hread.derives
      refine (moreItems_meets hclosing us).bind ?_ ?_
      · intro fault hstuck
        exact hstuck.within (.symbol .comma :: vs) [] rfl fun es us h =>
          ⟨_, _, .moreItems he h, by simp⟩
      · rintro es rest _ ⟨ws, rfl, hes⟩
        exact ⟨.symbol .comma :: (vs ++ ws), by simp, .moreItems he hes⟩
  · refine (expect_meets closing _).bind ?_ ?_
    · rintro fault rfl
      exact Stuck.at .noMoreItems [] [] rfl rfl
    · rintro _ us _ rfl
      exact ⟨[], rfl, .noMoreItems⟩
termination_by 4 * ts.length
decreasing_by
  all_goals
    subst_vars
    simp only [List.length_cons, List.length_append] at *
    omega

theorem pairs_meets (ts : List Token) :
    Meets (pairs ts) (ReadsUpTo .rightBrace .pairs ts) (Stuck .pairs ts) := by
  rw [pairs.eq_def]
  split
  · next rest => exact ⟨[], rfl, .noPairs⟩
  · refine (expression_meets (by decide) _).bind ?_ ?_
    · intro fault hstuck
      exact hstuck.within [] [.symbol .colon, .ident "a"] rfl fun k us h =>
        ⟨_, _, .lastPair h derives_anyName.ofUnary, rfl⟩
    · rintro k us _ hread
      obtain ⟨xs, rfl, hk, -⟩ := hread.derives
      refine (expect_meets .colon us).bind ?_ ?_
      · rintro fault rfl
        exact Stuck.at (.lastPair hk derives_anyName.ofUnary) xs [.symbol .colon, .ident "a"]
          rfl rfl
      · rintro _ us _ rfl
        refine (expression_meets (by decide) us).bind ?_ ?_
        · intro fault hstuck
          exact hstuck.within (xs ++ [.symbol .colon]) [] (by simp) fun v us h =>
            ⟨_, _, .lastPair hk h, by simp⟩
        · rintro v us _ hread
          obtain ⟨ys, rfl, hv, -⟩ := hread.derives
          dsimp only
          split
          · refine (expect_meets .rightBrace us).bind ?_ ?_
            · rintro fault rfl
              exact Stuck.at (.lastPair hk hv) (xs ++ .symbol .colon :: ys) [] (by simp) (by simp)
            · rintro _ us _ rfl
              exact ⟨_, by simp, .lastPair hk hv⟩
          · refine (expect_meets .comma us).bind ?_ ?_
            · rintro fault rfl
              exact Stuck.at (.lastPair hk hv) (xs ++ .symbol .colon :: ys) [] (by simp) (by simp)
            · rintro _ us _ rfl
              refine (pairs_meets us).bind ?_ ?_
              · intro fault hstuck
                exact hstuck.within (xs ++ .symbol .colon :: (ys ++ [.symbol .comma])) []
                  (by simp) fun ps us h => ⟨_, _, .pair hk hv h, by simp⟩
              · rintro ps rest _ ⟨zs, rfl, hps⟩
                exact ⟨_, by simp, .pair hk hv hps⟩
termination_by 4 * ts.length + 2
decreasing_by
  all_goals
    subst_vars
    simp only [List.length_cons, List.length_append] at *
    omega

theorem block_meets (ts : List Token) : BlockMeets ts := by
  unfold BlockMeets
  rw [block.eq_def]
  split
  · exact Stuck.at .noStatements [] [] rfl rfl
  · next rest => exact ⟨[], rfl, .noStatements⟩
  · refine (statement_meets _).bind ?_ ?_
    · intro fault hstuck
      exact hstuck.within [] [] rfl fun s us h =>
        ⟨_, _, .unclosed h .noStatements (by simp), rfl⟩
    · rintro s us _ hread
      refine (block_meets us).bind (fun fault hstuck => hread.stuck hstuck) ?_
      rintro ss rest _ ⟨ws, rfl, hss⟩
      obtain ⟨vs, hs, rfl | ⟨rfl, hnext⟩⟩ := hread
      · exact ⟨_, by simp, .closed hs hss⟩
      · refine ⟨_, by simp, .unclosed hs hss ?_⟩
        cases ws with
        | nil => simp
        | cons t ws => simpa using hnext
termination_by 4 * ts.length + 3
decreasing_by
  all_goals
    subst_vars
    omega

theorem statement_meets (ts : List Token) :
    Meets (statement ts) (ReadsStatement ts) (Stuck .statement ts) := by
  rw [statement.eq_def]
  split
  · next rest =>
    refine (expectName_meets rest).bind ?_ ?_
    · rintro fault rfl
      exact Stuck.at (.const "a" derives_anyName.ofUnary) [.keyword .const]
        [.ident "a", .symbol .assign, .ident "a"] rfl rfl
    · rintro name us _ rfl
      refine (expect_meets .assign us).bind ?_ ?_
      · rintro fault rfl
        exact Stuck.at (.const name derives_anyName.ofUnary) [.keyword .const, .ident name]
          [.symbol .assign, .ident "a"] rfl rfl
      · rintro _ us _ rfl
        refine (expression_meets (by decide) us).bind ?_ ?_
        · intro fault hstuck
          exact hstuck.within [.keyword .const, .ident name, .symbol .assign] [] rfl fun e us h =>
            ⟨_, _, .const name h, by simp⟩
        · rintro e us _ hread
          obtain ⟨vs, rfl, he, hstop⟩ := hread.derives
          exact .close (.const name he) hstop
  · next rest =>
    refine (expression_meets (by decide) rest).bind ?_ ?_
    · intro fault hstuck
      exact hstuck.within [.keyword .returnWord] [] rfl fun e us h => ⟨_, _, .ret h, by simp⟩
    · rintro e us _ hread
      obtain ⟨vs, rfl, he, hstop⟩ := hread.derives
      exact .close (.ret he) hstop
  · refine (expression_meets (by decide) _).bind ?_ ?_
    · intro fault hstuck
      exact hstuck.within [] [] rfl fun e us h => ⟨_, _, .expr h, by simp⟩
    · rintro e us _ hread
      obtain ⟨vs, rfl, he, hstop⟩ := hread.derives
      exact .close (.expr he) hstop
termination_by 4 * ts.length + 2
decreasing_by
  all_goals
    subst_vars
    simp only [List.length_cons] at *
    omega

end

end ConstScript.Grammar
