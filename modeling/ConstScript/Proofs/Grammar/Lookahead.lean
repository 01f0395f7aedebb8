import ConstScript.Proofs.Grammar.Reading

set_option autoImplicit false

/-! # One token of lookahead

A reading function decides what to do by the kind of the next token alone, and by its value where
this is an integer that it reads. So what it comes to depends on the tokens that it reads and on the
kind of the first one that it leaves unread, but on nothing further on: in front of whatever starts
with the same kind of token it reads the same construct, or fails for the same cause at the same
place. And where it fails, its error names the token that comes next.

The functions are looked at as maps from tokens to an `Outcome`, without the bounds on lengths that
their results carry. There is one equation for each way in which a function goes on, and `LocalAt`
is proved along these equations. -/

namespace ConstScript

/-- The error names the token that comes next, where there is none at the end of the input. -/
def SyntaxError.Names : SyntaxError → Option Token → Prop
  | unexpected _ found, t => (Token.report t).1 = found
  | noOperand found, t => (Token.report t).1 = found
  | integerTooLarge digits, t => t = some (.int digits)

namespace Grammar

variable {α β : Type}

/-! ## The next token -/

theorem ofNext_eq (ts : List Token) : Kind.ofNext ts = (Token.report ts.head?).1 := by
  cases ts <;> rfl

theorem ofNext_congr {ts ts' : List Token} (h : ts'.head? = ts.head?) :
    Kind.ofNext ts' = Kind.ofNext ts := by
  rw [ofNext_eq, ofNext_eq, h]

theorem eq_nil_of_ofNext {ts : List Token} (h : Kind.ofNext ts = Kind.ofNext []) : ts = [] := by
  cases ts with
  | nil => rfl
  | cons t rest => exact absurd h t.kind_ne_endOfInput

theorem head?_eq_symbol_iff {ts : List Token} {s : Symbol} :
    ts.head? = some (.symbol s) ↔ Kind.ofNext ts = .symbol s := by
  rcases ts with _ | ⟨_ | _ | _ | _ | _ | _, _⟩ <;> simp [Kind.ofNext, Token.kind]

theorem head?_eq_keyword_iff {ts : List Token} {k : Keyword} :
    ts.head? = some (.keyword k) ↔ Kind.ofNext ts = .keyword k := by
  rcases ts with _ | ⟨_ | _ | _ | _ | _ | _, _⟩ <;> simp [Kind.ofNext, Token.kind]

theorem head?_ne_symbol {ts ts' : List Token} {s : Symbol} (h : ts.head? ≠ some (.symbol s))
    (hts' : Kind.ofNext ts' = Kind.ofNext ts) : ts'.head? ≠ some (.symbol s) := by
  rwa [Ne, head?_eq_symbol_iff, hts', ← head?_eq_symbol_iff]

theorem head?_ne_keyword {ts ts' : List Token} {k : Keyword} (h : ts.head? ≠ some (.keyword k))
    (hts' : Kind.ofNext ts' = Kind.ofNext ts) : ts'.head? ≠ some (.keyword k) := by
  rwa [Ne, head?_eq_keyword_iff, hts', ← head?_eq_keyword_iff]

/-- The error is about the token that comes next, and if it says that this is too large, it is. -/
structure Blames (e : SyntaxError) (next : Option Token) : Prop where
  names : e.Names next
  tooLarge : ∀ digits, e = .integerTooLarge digits → ¬ isUsable (.int digits)

/-! ## Outcomes -/

/-- What was read or why this failed, and the tokens from there on. -/
abbrev Outcome (α : Type) := Except SyntaxError α × List Token

/-- The outcome of a reading function. -/
def outcome {n : Nat} : Parse α n → Outcome α
  | .ok p => (.ok p.value, p.rest)
  | .error fault => (.error fault.error, fault.unread)

/-- Goes on after what was read, and not at all after a failure. -/
def Outcome.andThen (o : Outcome α) (f : α → List Token → Outcome β) : Outcome β :=
  match o with
  | (.ok a, rest) => f a rest
  | (.error e, rest) => (.error e, rest)

theorem outcome_bind {m n : Nat} {x : Parse α m} {k : Parsed α m → Parse β n}
    {f : α → List Token → Outcome β} (hk : ∀ a rest h, outcome (k ⟨a, rest, h⟩) = f a rest) :
    outcome (x >>= k) = (outcome x).andThen f := by
  cases x with
  | ok p => exact hk p.value p.rest p.length_rest_lt
  | error fault => rfl

/-- What was read out of a list is read out of a longer one with the same outcome. -/
theorem outcome_widen {m n : Nat} {x : Parse α m} (h : m ≤ n) :
    outcome (x >>= fun p => (return p.widen h : Parse α n)) = outcome x := by
  cases x <;> rfl

theorem yields_iff {n : Nat} {r : Parse α n} {a : α} {rest : List Token} :
    Yields r a rest ↔ outcome r = (.ok a, rest) := by
  constructor
  · rintro ⟨h, rfl⟩
    rfl
  · intro h
    cases r with
    | ok p =>
        obtain ⟨rfl, rfl⟩ : p.value = a ∧ p.rest = rest := by simpa [outcome] using h
        exact ⟨p.length_rest_lt, rfl⟩
    | error fault => simp [outcome] at h

theorem error_iff {n : Nat} {r : Parse α n} {fault : Fault} :
    r = .error fault ↔ outcome r = (.error fault.error, fault.unread) := by
  constructor
  · rintro rfl
    rfl
  · intro h
    cases r with
    | ok p => simp [outcome] at h
    | error fault' =>
        obtain ⟨herror, hunread⟩ : fault'.error = fault.error ∧ fault'.unread = fault.unread := by
          simpa [outcome] using h
        exact congrArg Except.error (by cases fault; cases fault'; simp_all)

/-! ## Local reading -/

/-- The same kind of token comes next, and the very same one if it was its value that failed. -/
def SameNext (o : Except SyntaxError α) (rest rest' : List Token) : Prop :=
  Kind.ofNext rest' = Kind.ofNext rest ∧
    ∀ digits, o = .error (.integerTooLarge digits) → rest'.head? = rest.head?

theorem SameNext.of_head? {o : Except SyntaxError α} {rest rest' : List Token}
    (h : rest'.head? = rest.head?) : SameNext o rest rest' :=
  ⟨ofNext_congr h, fun _ _ => h⟩

/-- What `F` makes of the tokens is decided by those that it reads and the kind of the one that
    it leaves unread, and that is the one that its error is about. -/
def LocalAt (F : List Token → Outcome α) (ts : List Token) : Prop :=
  ∃ used rest o, ts = used ++ rest ∧ (∀ e, o = .error e → Blames e rest.head?) ∧
    ∀ rest', SameNext o rest rest' → F (used ++ rest') = (o, rest')

namespace LocalAt

variable {F G : List Token → Outcome α} {ts : List Token}

/-- Reading ends in front of the next token. -/
theorem stop (a : α) (hF : ∀ ts', Kind.ofNext ts' = Kind.ofNext ts → F ts' = (.ok a, ts')) :
    LocalAt F ts :=
  ⟨[], ts, .ok a, rfl, by simp, fun rest' h => hF rest' h.1⟩

/-- Nothing more is read. -/
theorem done (a : α) : LocalAt (fun ts => ((.ok a, ts) : Outcome α)) ts :=
  .stop a fun _ _ => rfl

/-- Reading fails in front of the next token. -/
theorem fail {e : SyntaxError} (he : Blames e ts.head?)
    (hF : ∀ ts', SameNext (.error e : Except SyntaxError α) ts ts' → F ts' = (.error e, ts')) :
    LocalAt F ts :=
  ⟨[], ts, .error e, rfl, by rintro _ ⟨⟩; exact he, hF⟩

/-- Reading does not expect the next token, because of its kind. -/
theorem unexpected (k : Kind)
    (hF : ∀ ts', Kind.ofNext ts' = Kind.ofNext ts →
      F ts' = (.error (.unexpected k (Kind.ofNext ts')), ts')) : LocalAt F ts := by
  have hblames : Blames (.unexpected k (Kind.ofNext ts)) ts.head? := ⟨(ofNext_eq ts).symm, by simp⟩
  refine .fail hblames fun ts' hts' => ?_
  rw [hF ts' hts'.1, hts'.1]

/-- The next token is read whatever follows it. -/
theorem one (t : Token) (a : α) (hF : ∀ ts', F (t :: ts') = (.ok a, ts')) :
    LocalAt F (t :: ts) :=
  ⟨[t], ts, .ok a, rfl, by simp, fun ts' _ => hF ts'⟩

/-- The next token decides how to go on after it. -/
theorem cons {t : Token} (h : LocalAt G ts) (hF : ∀ ts', F (t :: ts') = G ts') :
    LocalAt F (t :: ts) := by
  obtain ⟨used, rest, o, rfl, ho, hG⟩ := h
  exact ⟨t :: used, rest, o, rfl, ho, fun rest' hrest' => (hF _).trans (hG rest' hrest')⟩

theorem head?_append {us rest rest' : List Token} (h : rest'.head? = rest.head?) :
    (us ++ rest').head? = (us ++ rest).head? := by
  cases us with
  | nil => exact h
  | cons t us => rfl

theorem ofNext_append {us rest rest' : List Token} (h : Kind.ofNext rest' = Kind.ofNext rest) :
    Kind.ofNext (us ++ rest') = Kind.ofNext (us ++ rest) := by
  cases us with
  | nil => exact h
  | cons t us => rfl

/-- The kind of the next token decides how to go on from it. -/
theorem look (h : LocalAt G ts) (hF : ∀ ts', Kind.ofNext ts' = Kind.ofNext ts → F ts' = G ts') :
    LocalAt F ts := by
  obtain ⟨used, rest, o, rfl, ho, hG⟩ := h
  exact ⟨used, rest, o, rfl, ho, fun rest' hrest' =>
    (hF _ (ofNext_append hrest'.1)).trans (hG rest' hrest')⟩

/-- One construct is read after another. -/
theorem andThen {n : List Token → Nat} {X : ∀ ts, Parse β (n ts)} {f : β → List Token → Outcome α}
    (hX : LocalAt (fun ts => outcome (X ts)) ts)
    (hf : ∀ b us, us.length < n ts → LocalAt (f b) us) :
    LocalAt (fun ts => (outcome (X ts)).andThen f) ts := by
  obtain ⟨used, rest, o, rfl, ho, hfirst⟩ := hX
  dsimp only at hfirst
  have hrun := hfirst rest (.of_head? rfl)
  cases o with
  | error e =>
      refine ⟨used, rest, .error e, rfl, fun e' he' => ?_, fun rest' hrest' => ?_⟩
      · obtain rfl : e = e' := by simpa using he'
        exact ho e rfl
      · show (outcome (X (used ++ rest'))).andThen f = _
        have hnext : SameNext (.error e : Except SyntaxError β) rest rest' :=
          ⟨hrest'.1, fun digits he => hrest'.2 digits (congrArg _ (Except.error.inj he))⟩
        rw [hfirst rest' hnext, Outcome.andThen]
  | ok b =>
      obtain ⟨hlt, -⟩ := yields_iff.2 hrun
      obtain ⟨used', rest', o', rfl, ho', hsecond⟩ := hf b rest hlt
      -- If the second construct reads nothing, the first one sees the token after both.
      refine ⟨used ++ used', rest', o', by simp, ho', fun rest'' hrest'' => ?_⟩
      show (outcome (X (used ++ used' ++ rest''))).andThen f = _
      rw [List.append_assoc, hfirst _ ⟨ofNext_append hrest''.1, by simp⟩, Outcome.andThen,
        hsecond rest'' hrest'']

end LocalAt

/-! ## Single tokens -/

theorem expect_local (kind : Kind) (ts : List Token) :
    LocalAt (fun ts => outcome (expect kind ts)) ts := by
  cases ts with
  | nil =>
      refine .unexpected kind fun ts' hts' => ?_
      rw [eq_nil_of_ofNext hts']
      rfl
  | cons t rest =>
      by_cases hkind : t.kind = kind
      · refine .one t () fun ts' => ?_
        rw [expect, if_pos hkind, outcome]
      · refine .unexpected kind fun ts' hts' => ?_
        cases ts' with
        | nil => rfl
        | cons t' rest' =>
            have hkind' : ¬ t'.kind = kind := fun heq => hkind (hts'.symm.trans heq)
            rw [expect, if_neg hkind']
            rfl

theorem outcome_noName {ts : List Token} (h : Kind.ofNext ts ≠ .ident) :
    outcome (expectName ts) = (.error (.unexpected .ident (Kind.ofNext ts)), ts) := by
  unfold expectName
  split
  · exact absurd rfl h
  · rfl

theorem expectName_local (ts : List Token) :
    LocalAt (fun ts => outcome (expectName ts)) ts := by
  by_cases hname : Kind.ofNext ts = .ident
  · rcases ts with _ | ⟨_ | _ | _ | _ | _ | _, _⟩ <;> cases hname
    exact .one _ _ fun _ => rfl
  · exact .unexpected .ident fun ts' hts' => outcome_noName (by rwa [hts'])

/-- A `;` is skipped by the next token alone. -/
theorem closed_local (s : Stmt) (ts : List Token) :
    LocalAt (fun ts => ((.ok s, skipSemicolon ts) : Outcome Stmt)) ts := by
  by_cases hnext : ts.head? = some (.symbol .semicolon)
  · obtain ⟨rest, rfl⟩ := List.head?_eq_some_iff.1 hnext
    exact .one _ s fun _ => rfl
  · refine .look (.done s) fun ts' hts' => ?_
    have hnext' := head?_ne_symbol hnext hts'
    cases ts' with
    | nil => rfl
    | cons t rest =>
        have ht : t ≠ .symbol .semicolon := by
          rintro rfl
          exact hnext' rfl
        rw [skipSemicolon_cons ht]

/-! ## Parameters -/

theorem outcome_moreParameters (ts : List Token) :
    outcome (moreParameters (.symbol .comma :: ts)) =
      (outcome (expectName ts)).andThen fun p us =>
        (outcome (moreParameters us)).andThen fun ps us => (.ok (p :: ps), us) := by
  rw [moreParameters]
  exact outcome_bind fun _ _ _ => outcome_bind fun _ _ _ => rfl

theorem outcome_noMoreParameters {ts : List Token} (h : ts.head? ≠ some (.symbol .comma)) :
    outcome (moreParameters ts) =
      (outcome (expect (.symbol .rightParen) ts)).andThen fun _ us => (.ok [], us) := by
  rw [moreParameters.eq_def]
  split
  · exact absurd rfl h
  · exact outcome_bind fun _ _ _ => rfl

theorem moreParameters_local (ts : List Token) :
    LocalAt (fun ts => outcome (moreParameters ts)) ts := by
  by_cases hnext : ts.head? = some (.symbol .comma)
  · obtain ⟨rest, rfl⟩ := List.head?_eq_some_iff.1 hnext
    refine .cons ?_ outcome_moreParameters
    refine (expectName_local rest).andThen fun p us hus => ?_
    exact (moreParameters_local us).andThen fun ps us _ => .done (p :: ps)
  · refine .look ?_ fun ts' hts' => outcome_noMoreParameters (head?_ne_symbol hnext hts')
    exact (expect_local _ ts).andThen fun _ us _ => .done []
termination_by ts.length
decreasing_by
  subst_vars
  simp only [List.length_cons] at *
  omega

theorem outcome_parameters {ts : List Token} (h : ts.head? ≠ some (.symbol .rightParen)) :
    outcome (parameters ts) =
      (outcome (expectName ts)).andThen fun p us =>
        (outcome (moreParameters us)).andThen fun ps us => (.ok (p :: ps), us) := by
  unfold parameters
  split
  · exact absurd rfl h
  · exact outcome_bind fun _ _ _ => outcome_bind fun _ _ _ => rfl

theorem parameters_local (ts : List Token) :
    LocalAt (fun ts => outcome (parameters ts)) ts := by
  by_cases hnext : ts.head? = some (.symbol .rightParen)
  · obtain ⟨rest, rfl⟩ := List.head?_eq_some_iff.1 hnext
    exact .one _ [] fun _ => rfl
  · refine .look ?_ fun ts' hts' => outcome_parameters (head?_ne_symbol hnext hts')
    refine (expectName_local ts).andThen fun p us _ => ?_
    exact (moreParameters_local us).andThen fun ps us _ => .done (p :: ps)

/-! ## Operands -/

theorem outcome_expression (floor : Precedence) (ts : List Token) :
    outcome (expression floor ts) =
      (outcome (operand ts)).andThen fun left us => outcome (continued floor left us) := by
  rw [expression]
  exact outcome_bind fun _ _ _ => outcome_widen _

theorem outcome_signed (op : UnaryOp) (ts : List Token) :
    outcome (operand (.symbol op.symbol :: ts)) =
      (outcome (expression .unary ts)).andThen fun e us => (.ok (.unary op e), us) := by
  cases op <;>
  · rw [UnaryOp.symbol, operand]
    exact outcome_bind fun _ _ _ => rfl

theorem outcome_group (ts : List Token) :
    outcome (operand (.symbol .leftParen :: ts)) =
      (outcome (expression .lowest ts)).andThen fun e us =>
        (outcome (expect (.symbol .rightParen) us)).andThen fun _ us => (.ok e, us) := by
  rw [operand]
  exact outcome_bind fun _ _ _ => outcome_bind fun _ _ _ => rfl

theorem outcome_cond (ts : List Token) :
    outcome (operand (.keyword .ifWord :: ts)) =
      (outcome (expression .lowest ts)).andThen fun c us =>
        (outcome (expect (.symbol .leftBrace) us)).andThen fun _ us =>
          (outcome (block us)).andThen fun t us =>
            (outcome (alternative us)).andThen fun e us => (.ok (.cond c t e), us) := by
  rw [operand]
  exact outcome_bind fun _ _ _ => outcome_bind fun _ _ _ => outcome_bind fun _ _ _ =>
    outcome_bind fun _ _ _ => rfl

theorem outcome_fn (ts : List Token) :
    outcome (operand (.keyword .fn :: ts)) =
      (outcome (expect (.symbol .leftParen) ts)).andThen fun _ us =>
        (outcome (parameters us)).andThen fun ps us =>
          (outcome (expect (.symbol .leftBrace) us)).andThen fun _ us =>
            (outcome (block us)).andThen fun body us => (.ok (.fn ps body), us) := by
  rw [operand]
  exact outcome_bind fun _ _ _ => outcome_bind fun _ _ _ => outcome_bind fun _ _ _ =>
    outcome_bind fun _ _ _ => rfl

theorem outcome_array (ts : List Token) :
    outcome (operand (.symbol .leftBracket :: ts)) =
      (outcome (items .rightBracket ts)).andThen fun es us => (.ok (.array es), us) := by
  rw [operand]
  exact outcome_bind fun _ _ _ => rfl

theorem outcome_map (ts : List Token) :
    outcome (operand (.symbol .leftBrace :: ts)) =
      (outcome (pairs ts)).andThen fun ps us => (.ok (.map ps), us) := by
  rw [operand]
  exact outcome_bind fun _ _ _ => rfl

theorem int_local (digits : String) (ts : List Token) :
    LocalAt (fun ts => outcome (operand ts)) (.int digits :: ts) := by
  by_cases hvalue : Nat.ofDigitChars 10 digits.toList 0 ≤ maxInteger
  · refine .one _ (.int (Nat.ofDigitChars 10 digits.toList 0)) fun ts' => ?_
    rw [operand]
    simp only [if_pos hvalue, outcome]
  · have hblames : Blames (.integerTooLarge digits) (some (.int digits)) := by
      refine ⟨rfl, ?_⟩
      rintro _ ⟨⟩
      simpa [isUsable] using hvalue
    refine .fail hblames fun ts' hts' => ?_
    obtain ⟨rest, rfl⟩ := List.head?_eq_some_iff.1 (hts'.2 digits rfl)
    rw [operand]
    simp only [if_neg hvalue, outcome]

/-- Whether a token starts an operand can be seen from its kind. -/
theorem not_startsOperand_congr {ts ts' : List Token} (h : ∀ t ∈ ts.head?, ¬ startsOperand t)
    (hts' : Kind.ofNext ts' = Kind.ofNext ts) : ∀ t ∈ ts'.head?, ¬ startsOperand t := by
  rcases ts with _ | ⟨_ | _ | _ | _ | _ | _, _⟩ <;>
    rcases ts' with _ | ⟨_ | _ | _ | _ | _ | _, _⟩ <;>
      simp_all [Kind.ofNext, Token.kind, startsOperand]

theorem outcome_noOperand {ts : List Token} (h : ∀ t ∈ ts.head?, ¬ startsOperand t) :
    outcome (operand ts) = (.error (.noOperand (Kind.ofNext ts)), ts) := by
  rw [operand.eq_def]
  split
  case h_13 => rw [outcome]
  all_goals exact absurd rfl (h _ rfl)

/-- What starts no operand is named by the error. -/
theorem noOperand_local {ts : List Token} (h : ∀ t ∈ ts.head?, ¬ startsOperand t) :
    LocalAt (fun ts => outcome (operand ts)) ts := by
  have hblames : Blames (.noOperand (Kind.ofNext ts)) ts.head? := ⟨(ofNext_eq ts).symm, by simp⟩
  refine .fail hblames fun ts' hts' => ?_
  rw [outcome_noOperand (not_startsOperand_congr h hts'.1), hts'.1]

theorem outcome_alternative (ts : List Token) :
    outcome (alternative (.keyword .elseWord :: ts)) =
      (outcome (expect (.symbol .leftBrace) ts)).andThen fun _ us =>
        (outcome (block us)).andThen fun ss us => (.ok (some ss), us) := by
  rw [alternative]
  exact outcome_bind fun _ _ _ => outcome_bind fun _ _ _ => rfl

/-! ## Continuations -/

section

variable {floor : Precedence} (left : Expr)

theorem outcome_binary {op : BinaryOp} (hlt : floor < (Continuation.binary op).precedence)
    (ts : List Token) :
    outcome (continued floor left (.symbol op.symbol :: ts)) =
      (outcome (expression op.precedence ts)).andThen fun right us =>
        outcome (continued floor (.binary op left right) us) := by
  rw [continued, ofToken?_binary]
  simp only [if_pos hlt]
  exact outcome_bind fun _ _ _ => outcome_widen _

theorem outcome_call (hlt : floor < Continuation.call.precedence) (ts : List Token) :
    outcome (continued floor left (.symbol .leftParen :: ts)) =
      (outcome (items .rightParen ts)).andThen fun args us =>
        outcome (continued floor (.call left args) us) := by
  rw [continued, Continuation.ofToken?]
  simp only [if_pos hlt]
  exact outcome_bind fun _ _ _ => outcome_widen _

theorem outcome_index (hlt : floor < Continuation.index.precedence) (ts : List Token) :
    outcome (continued floor left (.symbol .leftBracket :: ts)) =
      (outcome (expression .lowest ts)).andThen fun p us =>
        (outcome (expect (.symbol .rightBracket) us)).andThen fun _ us =>
          outcome (continued floor (.index left p) us) := by
  rw [continued, Continuation.ofToken?]
  simp only [if_pos hlt]
  exact outcome_bind fun _ _ _ => outcome_bind fun _ _ _ => outcome_widen _

/-- Whether a token goes on with an expression can be seen from its kind. -/
theorem stopsAt_congr {ts ts' : List Token} (h : StopsAt floor ts)
    (hts' : Kind.ofNext ts' = Kind.ofNext ts) : StopsAt floor ts' := by
  intro t ht c hc
  have hsymbol : ∀ s, t = .symbol s → ts.head? = some t := by
    rintro s rfl
    rw [head?_eq_symbol_iff, ← hts', ← head?_eq_symbol_iff]
    exact ht
  refine h t ?_ c hc
  rcases ofToken?_eq_some hc with ⟨ht, -⟩ | ⟨ht, -⟩ | ⟨op, ht, -⟩ <;> exact hsymbol _ ht

/-- An expression ends in front of what does not go on with it above the floor. -/
theorem stopped_local {ts : List Token} (h : StopsAt floor ts) :
    LocalAt (fun ts => outcome (continued floor left ts)) ts :=
  .stop left fun _ hts' => yields_iff.1 (stop_yields left (stopsAt_congr h hts'))

end

/-! ## Lists -/

theorem outcome_noItems {closing : Symbol} {ts : List Token}
    (h : Kind.ofNext ts = .symbol closing) :
    outcome (items closing ts) =
      (outcome (expect (.symbol closing) ts)).andThen fun _ us => (.ok [], us) := by
  rw [items, if_pos h]
  exact outcome_bind fun _ _ _ => rfl

theorem outcome_items {closing : Symbol} {ts : List Token}
    (h : Kind.ofNext ts ≠ .symbol closing) :
    outcome (items closing ts) =
      (outcome (expression .lowest ts)).andThen fun e us =>
        (outcome (moreItems closing us)).andThen fun es us => (.ok (e :: es), us) := by
  rw [items, if_neg h]
  exact outcome_bind fun _ _ _ => outcome_bind fun _ _ _ => rfl

theorem outcome_moreItems (closing : Symbol) (ts : List Token) :
    outcome (moreItems closing (.symbol .comma :: ts)) =
      (outcome (expression .lowest ts)).andThen fun e us =>
        (outcome (moreItems closing us)).andThen fun es us => (.ok (e :: es), us) := by
  rw [moreItems]
  exact outcome_bind fun _ _ _ => outcome_bind fun _ _ _ => rfl

theorem outcome_noMoreItems (closing : Symbol) {ts : List Token}
    (h : ts.head? ≠ some (.symbol .comma)) :
    outcome (moreItems closing ts) =
      (outcome (expect (.symbol closing) ts)).andThen fun _ us => (.ok [], us) := by
  rw [moreItems.eq_def]
  split
  · exact absurd rfl h
  · exact outcome_bind fun _ _ _ => rfl

/-- What is read of a map after the pair `k : v`. -/
def afterPair (k v : Expr) (ts : List Token) : Outcome (List (Expr × Expr)) :=
  if Kind.ofNext ts = .symbol .rightBrace then
    (outcome (expect (.symbol .rightBrace) ts)).andThen fun _ us => (.ok [(k, v)], us)
  else
    (outcome (expect (.symbol .comma) ts)).andThen fun _ us =>
      (outcome (pairs us)).andThen fun ps us => (.ok ((k, v) :: ps), us)

theorem outcome_pairs {ts : List Token} (h : ts.head? ≠ some (.symbol .rightBrace)) :
    outcome (pairs ts) =
      (outcome (expression .lowest ts)).andThen fun k us =>
        (outcome (expect (.symbol .colon) us)).andThen fun _ us =>
          (outcome (expression .lowest us)).andThen fun v us => afterPair k v us := by
  rw [pairs.eq_def]
  split
  · exact absurd rfl h
  · refine outcome_bind fun k us _ => outcome_bind fun _ us _ => outcome_bind fun v us _ => ?_
    dsimp only
    unfold afterPair
    split
    · exact outcome_bind fun _ _ _ => rfl
    · exact outcome_bind fun _ _ _ => outcome_bind fun _ _ _ => rfl

/-! ## Statements -/

theorem outcome_block {ts : List Token} (hnil : ts ≠ [])
    (hclose : ts.head? ≠ some (.symbol .rightBrace)) :
    outcome (block ts) =
      (outcome (statement ts)).andThen fun s us =>
        (outcome (block us)).andThen fun ss us => (.ok (s :: ss), us) := by
  rw [block.eq_def]
  split
  · exact absurd rfl hnil
  · exact absurd rfl hclose
  · exact outcome_bind fun _ _ _ => outcome_bind fun _ _ _ => rfl

theorem outcome_const (ts : List Token) :
    outcome (statement (.keyword .const :: ts)) =
      (outcome (expectName ts)).andThen fun name us =>
        (outcome (expect (.symbol .assign) us)).andThen fun _ us =>
          (outcome (expression .lowest us)).andThen fun e us =>
            (.ok (.const name e), skipSemicolon us) := by
  rw [statement]
  exact outcome_bind fun _ _ _ => outcome_bind fun _ _ _ => outcome_bind fun _ _ _ => rfl

theorem outcome_ret (ts : List Token) :
    outcome (statement (.keyword .returnWord :: ts)) =
      (outcome (expression .lowest ts)).andThen fun e us => (.ok (.ret e), skipSemicolon us) := by
  rw [statement]
  exact outcome_bind fun _ _ _ => rfl

theorem outcome_expr {ts : List Token} (hconst : ts.head? ≠ some (.keyword .const))
    (hret : ts.head? ≠ some (.keyword .returnWord)) :
    outcome (statement ts) =
      (outcome (expression .lowest ts)).andThen fun e us => (.ok (.expr e), skipSemicolon us) := by
  rw [statement.eq_def]
  split
  · exact absurd rfl hconst
  · exact absurd rfl hret
  · exact outcome_bind fun _ _ _ => rfl

/-! ## The functions -/

mutual

theorem expression_local (floor : Precedence) (ts : List Token) :
    LocalAt (fun ts => outcome (expression floor ts)) ts := by
  refine .look ?_ fun ts' _ => outcome_expression floor ts'
  exact (operand_local ts).andThen fun left us hus => continued_local floor left us
termination_by 4 * ts.length + 1
decreasing_by all_goals omega

theorem operand_local (ts : List Token) : LocalAt (fun ts => outcome (operand ts)) ts := by
  cases ts with
  | nil => exact noOperand_local (by simp)
  | cons t rest =>
      cases t with
      | ident name => exact .one _ (.name name) fun _ => by rw [operand, outcome]
      | int digits => exact int_local digits rest
      | str contents => exact .one _ (.str contents) fun _ => by rw [operand, outcome]
      | illegal c => exact noOperand_local (by simp [startsOperand])
      | keyword k =>
          cases k with
          | trueWord => exact .one _ (.bool true) fun _ => by rw [operand, outcome]
          | falseWord => exact .one _ (.bool false) fun _ => by rw [operand, outcome]
          | ifWord =>
              refine .cons ?_ outcome_cond
              refine (expression_local .lowest rest).andThen fun c us hc => ?_
              refine (expect_local _ us).andThen fun _ us hopen => ?_
              refine (block_local us).andThen fun t us ht => ?_
              exact (alternative_local us).andThen fun e us _ => .done (Expr.cond c t e)
          | fn =>
              refine .cons ?_ outcome_fn
              refine (expect_local _ rest).andThen fun _ us hopen => ?_
              refine (parameters_local us).andThen fun ps us hps => ?_
              refine (expect_local _ us).andThen fun _ us hbrace => ?_
              exact (block_local us).andThen fun body us _ => .done (Expr.fn ps body)
          | const | elseWord | returnWord =>
              exact noOperand_local (by simp [startsOperand])
      | symbol s =>
          cases s with
          | bang =>
              refine .cons ?_ (outcome_signed .not)
              exact (expression_local .unary rest).andThen fun e us _ =>
                .done (Expr.unary .not e)
          | minus =>
              refine .cons ?_ (outcome_signed .negate)
              exact (expression_local .unary rest).andThen fun e us _ =>
                .done (Expr.unary .negate e)
          | leftParen =>
              refine .cons ?_ outcome_group
              refine (expression_local .lowest rest).andThen fun e us _ => ?_
              exact (expect_local _ us).andThen fun _ us _ => .done e
          | leftBracket =>
              refine .cons ?_ outcome_array
              exact (items_local .rightBracket rest).andThen fun es us _ => .done (Expr.array es)
          | leftBrace =>
              refine .cons ?_ outcome_map
              exact (pairs_local rest).andThen fun ps us _ => .done (Expr.map ps)
          | _ => exact noOperand_local (by simp [startsOperand])
termination_by 4 * ts.length
decreasing_by
  all_goals
    subst_vars
    simp only [List.length_cons] at *
    omega

theorem continued_local (floor : Precedence) (left : Expr) (ts : List Token) :
    LocalAt (fun ts => outcome (continued floor left ts)) ts := by
  by_cases hstop : StopsAt floor ts
  · exact stopped_local left hstop
  · simp only [StopsAt, not_forall, not_not] at hstop
    obtain ⟨t, ht, c, hc, hlt⟩ := hstop
    obtain ⟨rest, rfl⟩ := List.head?_eq_some_iff.1 ht
    rcases ofToken?_eq_some hc with ⟨rfl, rfl⟩ | ⟨rfl, rfl⟩ | ⟨op, rfl, rfl⟩
    · refine .cons ?_ (outcome_call left hlt)
      exact (items_local .rightParen rest).andThen fun args us hus =>
        continued_local floor (.call left args) us
    · refine .cons ?_ (outcome_index left hlt)
      refine (expression_local .lowest rest).andThen fun p us hp => ?_
      exact (expect_local _ us).andThen fun _ us hclose =>
        continued_local floor (.index left p) us
    · refine .cons ?_ (outcome_binary left hlt)
      exact (expression_local op.precedence rest).andThen fun right us hus =>
        continued_local floor (.binary op left right) us
termination_by 4 * ts.length
decreasing_by
  all_goals
    subst_vars
    simp only [List.length_cons] at *
    omega

theorem alternative_local (ts : List Token) :
    LocalAt (fun ts => outcome (alternative ts)) ts := by
  by_cases hnext : ts.head? = some (.keyword .elseWord)
  · obtain ⟨rest, rfl⟩ := List.head?_eq_some_iff.1 hnext
    refine .cons ?_ outcome_alternative
    refine (expect_local _ rest).andThen fun _ us hopen => ?_
    exact (block_local us).andThen fun ss us _ => .done (some ss)
  · exact .stop none fun ts' hts' =>
      yields_iff.1 (noAlternative_yields (head?_ne_keyword hnext hts'))
termination_by 4 * ts.length
decreasing_by
  all_goals
    subst_vars
    simp only [List.length_cons] at *
    omega

theorem items_local (closing : Symbol) (ts : List Token) :
    LocalAt (fun ts => outcome (items closing ts)) ts := by
  by_cases hnext : Kind.ofNext ts = .symbol closing
  · refine .look ?_ fun ts' hts' => outcome_noItems (hts'.trans hnext)
    exact (expect_local _ ts).andThen fun _ us _ => .done []
  · refine .look ?_ fun ts' hts' => outcome_items (by rwa [hts'])
    refine (expression_local .lowest ts).andThen fun e us hus => ?_
    exact (moreItems_local closing us).andThen fun es us _ => .done (e :: es)
termination_by 4 * ts.length + 2
decreasing_by all_goals omega

theorem moreItems_local (closing : Symbol) (ts : List Token) :
    LocalAt (fun ts => outcome (moreItems closing ts)) ts := by
  by_cases hnext : ts.head? = some (.symbol .comma)
  · obtain ⟨rest, rfl⟩ := List.head?_eq_some_iff.1 hnext
    refine .cons ?_ (outcome_moreItems closing)
    refine (expression_local .lowest rest).andThen fun e us hus => ?_
    exact (moreItems_local closing us).andThen fun es us _ => .done (e :: es)
  · refine .look ?_ fun ts' hts' => outcome_noMoreItems closing (head?_ne_symbol hnext hts')
    exact (expect_local _ ts).andThen fun _ us _ => .done []
termination_by 4 * ts.length
decreasing_by
  all_goals
    subst_vars
    simp only [List.length_cons] at *
    omega

theorem pairs_local (ts : List Token) : LocalAt (fun ts => outcome (pairs ts)) ts := by
  by_cases hnext : ts.head? = some (.symbol .rightBrace)
  · obtain ⟨rest, rfl⟩ := List.head?_eq_some_iff.1 hnext
    exact .one _ [] fun ts' => by rw [pairs, outcome]
  · refine .look ?_ fun ts' hts' => outcome_pairs (head?_ne_symbol hnext hts')
    refine (expression_local .lowest ts).andThen fun k us hk => ?_
    refine (expect_local _ us).andThen fun _ us hcolon => ?_
    refine (expression_local .lowest us).andThen fun v us hv => ?_
    by_cases hclose : Kind.ofNext us = .symbol .rightBrace
    · refine .look ?_ fun us' hus' => if_pos (hus'.trans hclose)
      exact (expect_local _ us).andThen fun _ us _ => .done [(k, v)]
    · refine .look ?_ fun us' hus' => if_neg (by rwa [hus'])
      refine (expect_local _ us).andThen fun _ us hcomma => ?_
      exact (pairs_local us).andThen fun ps us _ => .done ((k, v) :: ps)
termination_by 4 * ts.length + 2
decreasing_by all_goals omega

theorem block_local (ts : List Token) : LocalAt (fun ts => outcome (block ts)) ts := by
  by_cases hnil : ts = []
  · subst hnil
    refine .unexpected (.symbol .rightBrace) fun ts' hts' => ?_
    rw [eq_nil_of_ofNext hts', block, outcome]
    rfl
  · by_cases hnext : ts.head? = some (.symbol .rightBrace)
    · obtain ⟨rest, rfl⟩ := List.head?_eq_some_iff.1 hnext
      exact .one _ [] fun ts' => by rw [block, outcome]
    · refine .look ?_ fun ts' hts' => outcome_block ?_ (head?_ne_symbol hnext hts')
      · refine (statement_local ts).andThen fun s us hus => ?_
        exact (block_local us).andThen fun ss us _ => .done (s :: ss)
      · rintro rfl
        exact hnil (eq_nil_of_ofNext hts'.symm)
termination_by 4 * ts.length + 3
decreasing_by all_goals omega

/-- **One token of lookahead.** What is read of a statement, or why it fails and where, is decided
    by the tokens that are read and the kind of the one after them. -/
theorem statement_local (ts : List Token) : LocalAt (fun ts => outcome (statement ts)) ts := by
  by_cases hconst : ts.head? = some (.keyword .const)
  · obtain ⟨rest, rfl⟩ := List.head?_eq_some_iff.1 hconst
    refine .cons ?_ outcome_const
    refine (expectName_local rest).andThen fun name us hname => ?_
    refine (expect_local _ us).andThen fun _ us hassign => ?_
    exact (expression_local .lowest us).andThen fun e us _ => closed_local (Stmt.const name e) us
  · by_cases hret : ts.head? = some (.keyword .returnWord)
    · obtain ⟨rest, rfl⟩ := List.head?_eq_some_iff.1 hret
      refine .cons ?_ outcome_ret
      exact (expression_local .lowest rest).andThen fun e us _ => closed_local (Stmt.ret e) us
    · refine .look ?_ fun ts' hts' => outcome_expr (head?_ne_keyword hconst hts')
        (head?_ne_keyword hret hts')
      exact (expression_local .lowest ts).andThen fun e us _ => closed_local (Stmt.expr e) us
termination_by 4 * ts.length + 2
decreasing_by
  all_goals
    subst_vars
    simp only [List.length_cons] at *
    omega

end

end Grammar

end ConstScript
