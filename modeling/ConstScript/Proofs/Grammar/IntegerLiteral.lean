import ConstScript.Proofs.Grammar.Lookahead
import ConstScript.Proofs.Grammar.Recovery
import ConstScript.Proofs.Grammar.RoundTrip
import ConstScript.Proofs.Grammar.TokenContent
import Mathlib.Data.Nat.Digits.Defs

set_option autoImplicit false

/-! # Integer literals

An integer literal is the one token whose text matters for whether it is accepted: its digits, of
which there may be any number, have to stand for an integer that is not too large. Where an
expression may start, this is all that matters. One token of lookahead decides, and by its kind, so
up to the literal everything is read as it would be with any other integer in its place; there, that
one would be accepted, so this one can only be rejected for its value. -/

namespace ConstScript

/-! ## Values -/

/-- The number that the digits stand for: the sum of the digits, each times ten to the power of how
    many digits come after it. -/
def decimalValue (digits : String) : Nat :=
  Nat.ofDigits 10 (digits.toList.reverse.map fun c => c.toNat - '0'.toNat)

theorem ofDigitChars_eq (cs : List Char) (n : Nat) : Nat.ofDigitChars 10 cs n
    = n * 10 ^ cs.length + Nat.ofDigits 10 (cs.reverse.map fun c => c.toNat - '0'.toNat) := by
  induction cs generalizing n with
  | nil => simp
  | cons c cs ih =>
      rw [Nat.ofDigitChars_cons, ih, List.reverse_cons, List.map_append, Nat.ofDigits_append]
      simp only [List.map_cons, List.map_nil, Nat.ofDigits_singleton, List.length_map,
        List.length_reverse, List.length_cons]
      ring

/-- Going through the digits from the first to the last comes to their number. -/
theorem ofDigitChars_eq_decimalValue (digits : String) :
    Nat.ofDigitChars 10 digits.toList 0 = decimalValue digits := by
  rw [ofDigitChars_eq, Nat.zero_mul, Nat.zero_add, decimalValue]

namespace Grammar

variable {before after : List Token} {digits : String}

theorem isUsable_int_iff : isUsable (.int digits) ↔ decimalValue digits ≤ maxInteger := by
  rw [isUsable, ofDigitChars_eq_decimalValue, decide_eq_true_iff]

theorem int_yields_of_le (h : decimalValue digits ≤ maxInteger) (rest : List Token) :
    Yields (operand (.int digits :: rest)) (.int (decimalValue digits)) rest := by
  rw [← ofDigitChars_eq_decimalValue] at h ⊢
  exact int_yields h rest

theorem int_error_of_lt (h : maxInteger < decimalValue digits) (rest : List Token) :
    operand (.int digits :: rest) = .error ⟨.integerTooLarge digits, .int digits :: rest⟩ := by
  rw [← ofDigitChars_eq_decimalValue] at h
  rw [operand]
  simp only [if_neg (Nat.not_le_of_lt h)]

/-! ## Where an expression may start -/

/-- An expression may start after these tokens: with some integer they begin a statement. -/
def ExpressionMayStart (before : List Token) : Prop :=
  ∃ digits, Viable .statement (before ++ [.int digits])

theorem expressionMayStart_nil : ExpressionMayStart [] :=
  ⟨"0", _, [], .expr (Derives.ofPrimary (.int "0" (by decide)))⟩

/-- The tokens that are read, up to where reading ends or fails, are usable. -/
theorem isUsable_of_read {used rest : List Token} {o : Except SyntaxError Stmt}
    (h : outcome (statement (used ++ rest)) = (o, rest)) : ∀ t ∈ used, isUsable t := by
  have hmeets := statement_meets (used ++ rest)
  cases o with
  | ok s =>
      obtain ⟨_, hread⟩ := yields_iff.2 h
      rw [hread] at hmeets
      exact (ReadsStatement.derives_alone hmeets rfl).isUsable
  | error e =>
      have hread : statement (used ++ rest) = .error ⟨e, rest⟩ := error_iff.2 h
      rw [hread] at hmeets
      obtain ⟨passed, heq, s, tail, hs⟩ := hmeets
      obtain rfl : used = passed := List.append_cancel_right heq
      exact fun t ht => hs.isUsable t (List.mem_append_left tail ht)

/-- Where an expression may start, an integer literal is read, or rejected for its value. -/
theorem ExpressionMayStart.read_or_rejected (h : ExpressionMayStart before) (digits : String)
    (after : List Token) :
    (∃ passed rest o, after = passed ++ rest ∧ isUsable (.int digits) ∧
      outcome (statement (before ++ .int digits :: after)) = (o, rest)) ∨
    (¬ isUsable (.int digits) ∧ outcome (statement (before ++ .int digits :: after))
      = (.error (.integerTooLarge digits), .int digits :: after)) := by
  obtain ⟨d, s, tail, hs⟩ := h
  -- With the other integer, the whole is read.
  have hother : outcome (statement (before ++ .int d :: tail)) = (.ok s, []) := by
    have hread := hs.accepted [] Ends.nil
    rw [List.append_nil, List.append_assoc] at hread
    exact yields_iff.1 hread
  obtain ⟨used, rest, o, hts, hblames, hlocal⟩ := statement_local (before ++ .int digits :: after)
  have houtcome : outcome (statement (before ++ .int digits :: after)) = (o, rest) :=
    hts ▸ hlocal rest (.of_head? rfl)
  -- So reading does not end in front of what looks the same with the other integer.
  have hdiffers : ∀ rest', rest' ≠ [] → used ++ rest' = before ++ .int d :: tail →
      ¬ SameNext o rest rest' := by
    intro rest' hne heq hsame
    have hread : outcome (statement (used ++ rest')) = (o, rest') := hlocal rest' hsame
    rw [heq, hother] at hread
    exact hne (Prod.mk.inj hread).2.symm
  -- If it ends in front of the literal, then because of its value.
  have hrejected : used = before → rest = .int digits :: after → ¬ isUsable (.int digits) ∧
      outcome (statement (before ++ .int digits :: after))
        = (.error (.integerTooLarge digits), .int digits :: after) := by
    rintro rfl rfl
    obtain ⟨digits', rfl⟩ : ∃ digits', o = .error (.integerTooLarge digits') := by
      by_contra hnone
      exact hdiffers (.int d :: tail) (by simp) rfl
        ⟨rfl, fun digits' ho => absurd ⟨digits', ho⟩ hnone⟩
    obtain ⟨hnames, htooLarge⟩ := hblames _ rfl
    obtain rfl : digits = digits' := Token.int.inj (Option.some.inj hnames)
    exact ⟨htooLarge digits rfl, houtcome⟩
  rcases List.append_eq_append_iff.1 hts with ⟨passed, rfl, hrest⟩ | ⟨left, rfl, rfl⟩
  · cases passed with
    | nil => exact .inr (hrejected (List.append_nil before) hrest.symm)
    | cons t passed =>
        obtain ⟨rfl, rfl⟩ := List.cons.inj hrest
        have husable := isUsable_of_read (hts ▸ houtcome)
        exact .inl ⟨passed, rest, o, rfl, husable _ (by simp), houtcome⟩
  · cases left with
    | nil => exact .inr (hrejected (List.append_nil used).symm rfl)
    | cons t left =>
        exact absurd (.of_head? rfl) (hdiffers (t :: left ++ .int d :: tail) (by simp) (by simp))

/-! ## Segments -/

/-- The first segment is what is read of the whole input, up to where reading goes on. -/
theorem segments_first (depth : Nat) {ts : List Token} (hne : ts ≠ []) :
    ∃ used rest o, ts = used ++ rest ∧ rest.length < ts.length ∧
      segments depth ts = ⟨depth, used, o⟩ :: segments (openBrackets depth used) rest ∧
      (∀ s, o = .ok s → Yields (statement ts) s rest) ∧
      ∀ fault, o = .error fault → statement ts = .error fault := by
  cases hread : statement ts with
  | ok p =>
      have hyields : Yields (statement ts) p.value p.rest := ⟨p.length_rest_lt, hread⟩
      obtain ⟨used, rest, o, hts, -, hlocal⟩ := statement_local ts
      have houtcome : outcome (statement ts) = (o, rest) := hts ▸ hlocal rest (.of_head? rfl)
      obtain ⟨-, rfl⟩ := Prod.mk.inj ((yields_iff.1 hyields).symm.trans houtcome)
      refine ⟨used, p.rest, .ok p.value, hts, p.length_rest_lt,
        segments_of_yields depth hts hyields, ?_, by simp⟩
      rintro _ ⟨⟩
      exact hread ▸ hyields
  | error fault =>
      obtain ⟨used, hts, hused⟩ := afterFailure_suffix depth fault hne
      refine ⟨used, _, .error fault, hts, ?_, segments_of_error depth hne hts hread rfl, by simp,
        ?_⟩
      · conv_rhs => rw [hts, List.length_append]
        exact Nat.lt_add_of_pos_left (List.length_pos_iff.2 hused)
      · rintro _ ⟨⟩
        rfl

theorem flatMap_tokens_segments (depth : Nat) (ts : List Token) :
    (segments depth ts).flatMap Segment.tokens = ts := by
  by_cases hne : ts = []
  · rw [hne, segments_nil, List.flatMap_nil]
  · obtain ⟨used, rest, o, hts, hlt, hsegs, -⟩ := segments_first depth hne
    rw [hsegs, List.flatMap_cons, flatMap_tokens_segments, ← hts]
termination_by ts.length

/-- Every segment is what is read from its beginning on, up to where reading goes on. -/
theorem statement_of_segments {depth : Nat} {ts later : List Token} {segs segs' : List Segment}
    {seg : Segment} (h : segments depth ts = segs ++ seg :: segs')
    (hlater : segs'.flatMap Segment.tokens = later) :
    (∀ s, seg.outcome = .ok s → Yields (statement (seg.tokens ++ later)) s later) ∧
      ∀ fault, seg.outcome = .error fault →
        statement (seg.tokens ++ later) = .error fault := by
  have hne : ts ≠ [] := by
    rintro rfl
    simp at h
  obtain ⟨used, rest, o, hts, -, hsegs, hok, herror⟩ := segments_first depth hne
  induction segs generalizing depth ts used rest o with
  | nil =>
      rw [hsegs] at h
      obtain ⟨rfl, rfl⟩ := List.cons.inj h
      rw [flatMap_tokens_segments] at hlater
      subst hlater
      rw [← hts]
      exact ⟨hok, herror⟩
  | cons seg' segs ih =>
      rw [hsegs] at h
      obtain ⟨-, hrest⟩ := List.cons.inj h
      have hne' : rest ≠ [] := by
        rintro rfl
        simp at hrest
      obtain ⟨used', rest', o', hts', -, hsegs', hok', herror'⟩ :=
        segments_first (openBrackets depth used) hne'
      exact ih hrest hne' used' rest' o' hts' hsegs' hok' herror'

/-- What is made of a segment that has a literal where an expression may start. -/
theorem ExpressionMayStart.segment (h : ExpressionMayStart before) {depth : Nat}
    {ts later : List Token} {segs segs' : List Segment} {seg : Segment}
    (hsegs : segments depth ts = segs ++ seg :: segs')
    (hlater : segs'.flatMap Segment.tokens = later)
    (htokens : seg.tokens = before ++ .int digits :: after) :
    (decimalValue digits ≤ maxInteger →
      (∀ s, seg.outcome = .ok s → s.contents
        = Token.contents before ++ .number (decimalValue digits) :: Token.contents after) ∧
      ∀ fault, seg.outcome = .error fault → fault.unread <:+ after ++ later) ∧
    (maxInteger < decimalValue digits →
      seg.outcome = .error ⟨.integerTooLarge digits, .int digits :: (after ++ later)⟩) := by
  obtain ⟨hok, herror⟩ := statement_of_segments hsegs hlater
  have hsplit : seg.tokens ++ later = before ++ .int digits :: (after ++ later) := by
    rw [htokens, List.append_assoc, List.cons_append]
  rw [hsplit] at hok herror
  refine ⟨fun hle => ⟨fun s hs => ?_, fun fault hfault => ?_⟩, fun hlt => ?_⟩
  · have hread : ReadsStatement (before ++ .int digits :: (after ++ later)) s later := by
      obtain ⟨_, hread⟩ := hok s hs
      have hmeets := statement_meets (before ++ .int digits :: (after ++ later))
      rwa [hread] at hmeets
    have hcontents := (hread.derives_alone hsplit.symm).contents_eq
    rw [htokens, Token.contents_append, Token.contents_cons, Token.content,
      ofDigitChars_eq_decimalValue] at hcontents
    simpa [Token.isPunctuation, Phrase.contents, Stmt.allContents] using hcontents.symm
  · rcases h.read_or_rejected digits (after ++ later) with
      ⟨passed, rest, o, hsuffix, -, hread⟩ | ⟨hnot, -⟩
    · rw [error_iff.1 (herror fault hfault)] at hread
      obtain ⟨-, rfl⟩ := Prod.mk.inj hread
      exact ⟨passed, hsuffix.symm⟩
    · exact absurd (isUsable_int_iff.2 hle) hnot
  · rcases h.read_or_rejected digits (after ++ later) with
      ⟨_, _, _, -, husable, -⟩ | ⟨-, hread⟩
    · exact absurd (isUsable_int_iff.1 husable) (Nat.not_le_of_lt hlt)
    · have hfails : statement (before ++ .int digits :: (after ++ later))
          = .error ⟨.integerTooLarge digits, .int digits :: (after ++ later)⟩ := error_iff.2 hread
      cases houtcome : seg.outcome with
      | ok s =>
          obtain ⟨_, hyields⟩ := hok s houtcome
          cases hfails.symm.trans hyields
      | error fault => rw [Except.error.inj ((herror fault houtcome).symm.trans hfails)]

end Grammar

/-! ## Programs -/

open Grammar

/-- A text of digits is read as their number, or rejected for it. -/
theorem Program.parse_digits {digits : String} (hne : digits ≠ "")
    (hdigits : ∀ c ∈ digits.toList, c.isDigit) : Program.parse digits =
      if decimalValue digits ≤ maxInteger then ⟨⟨[.expr (.int (decimalValue digits))]⟩, []⟩
      else ⟨⟨[]⟩, [⟨.integerTooLarge digits, [.int digits]⟩]⟩ := by
  have hscan : Token.scan digits.toList = [.int digits] := by
    have hends : Token.EndsRun Char.isDigit [] := by simp [Token.EndsRun]
    simpa [Token.scan_nil] using Token.scan_digits hne hdigits hends
  rw [parse, hscan]
  split
  · next hle =>
    have hint := Derives.int digits (by rwa [ofDigitChars_eq_decimalValue])
    rw [ofDigitChars_eq_decimalValue] at hint
    rw [ofTokens_eq_iff]
    simpa using Derives.unclosed (.expr (.ofPrimary hint)) .noStatements (by simp)
  · next hlarge =>
    obtain ⟨used, rest, o, hts, hlt, hsegs, -⟩ :=
      segments_first 0 (List.cons_ne_nil (.int digits) [])
    obtain rfl : rest = [] := List.length_eq_zero_iff.1 (Nat.lt_one_iff.1 hlt)
    obtain rfl : [.int digits] = used := hts.trans (List.append_nil used)
    rw [segments_nil] at hsegs
    have hfirst : Grammar.segments 0 [.int digits] = [] ++ ⟨0, [.int digits], o⟩ :: [] := hsegs
    obtain ⟨-, hrejected⟩ := expressionMayStart_nil.segment hfirst rfl rfl
    obtain rfl : o = _ := hrejected (Nat.lt_of_not_le hlarge)
    rw [ofTokens, hsegs]
    rfl

/-- Reading treats the integer literal by its value, and by nothing else. -/
structure ReadsExactly (digits : String) : Prop where
  /-- As the text of a program. -/
  alone : Program.parse digits =
    if decimalValue digits ≤ maxInteger then ⟨⟨[.expr (.int (decimalValue digits))]⟩, []⟩
    else ⟨⟨[]⟩, [⟨.integerTooLarge digits, [.int digits]⟩]⟩
  /-- As an operand, whatever comes after it. -/
  asOperand (rest : List Token) :
    (decimalValue digits ≤ maxInteger →
      Yields (operand (.int digits :: rest)) (.int (decimalValue digits)) rest) ∧
    (maxInteger < decimalValue digits →
      operand (.int digits :: rest) = .error ⟨.integerTooLarge digits, .int digits :: rest⟩)
  /-- In a program, wherever an expression may start. If the value is not too large, then the
      statement that is kept has it between what the tokens before and after it say, and if the
      statement is rejected, then for something behind it. Else the statement is rejected for it. -/
  anywhere {source : String} {segs segs' : List Segment} {seg : Segment}
    {before after : List Token} : Program.segments source = segs ++ seg :: segs' →
    seg.tokens = before ++ .int digits :: after → ExpressionMayStart before →
    (decimalValue digits ≤ maxInteger →
      (∀ s, seg.outcome = .ok s → s.contents
        = Token.contents before ++ .number (decimalValue digits) :: Token.contents after) ∧
      ∀ fault, seg.outcome = .error fault →
        fault.unread <:+ after ++ segs'.flatMap Segment.tokens) ∧
    (maxInteger < decimalValue digits →
      seg.outcome = .error ⟨.integerTooLarge digits,
        .int digits :: (after ++ segs'.flatMap Segment.tokens)⟩)

/-- **Integer literals are read exactly.** Any digits, however many and with however many zeros in
    front, are read as the number that they stand for if this is at most the largest integer, and
    are rejected with these very digits in the error if it is not: as a program of their own, as an
    operand, and wherever an expression may start in a program. In particular every integer is read
    from its decimal text. -/
theorem Program.integerLiterals_exact :
    (∀ digits : String, digits ≠ "" → (∀ c ∈ digits.toList, c.isDigit) → ReadsExactly digits) ∧
      ∀ n ≤ maxInteger, parse (toString n) = ⟨⟨[.expr (.int n)]⟩, []⟩ := by
  refine ⟨fun digits hne hdigits => ⟨parse_digits hne hdigits, fun rest => ?_, ?_⟩, fun n hn => ?_⟩
  · exact ⟨fun hle => int_yields_of_le hle rest, fun hlt => int_error_of_lt hlt rest⟩
  · intro source segs segs' seg before after hsegs htokens hbefore
    exact hbefore.segment hsegs rfl htokens
  · exact (Written.int hn).bare.expression.parse_expr

/-- The largest integer behind three zeros, and the next one behind two: where it is returned, the
    statement is rejected for it, with all that comes after it unread. -/
theorem Program.integerLiterals_exact_largest :
    let digits := "009223372036854775808"
    let source := "return 009223372036854775808 + 1; 2"
    let unread : List Token :=
      [.int digits, .symbol .plus, .int "1", .symbol .semicolon, .int "2"]
    parse "0009223372036854775807" = ⟨⟨[.expr (.int maxInteger)]⟩, []⟩ ∧
      (∃ seg segs, segments source = seg :: segs ∧
        seg.outcome = .error ⟨.integerTooLarge digits, unread⟩) ∧
      parse (toString maxInteger) = ⟨⟨[.expr (.int maxInteger)]⟩, []⟩ := by
  intro digits source unread
  obtain ⟨hexact, htext⟩ := integerLiterals_exact
  have hfits := (hexact "0009223372036854775807" (by decide) (by simp)).alone
  have hvalue : decimalValue "0009223372036854775807" = maxInteger := by decide +kernel
  rw [hvalue, if_pos (Nat.le_refl _)] at hfits
  have htokens : (segments source).map Segment.tokens
      = [[.keyword .returnWord, .int digits, .symbol .plus, .int "1", .symbol .semicolon],
        [.int "2"]] := by
    decide +kernel
  obtain ⟨seg, segs, hsegs, hseg, hlater⟩ := List.map_eq_cons_iff.1 htokens
  have hfirst : segments source = [] ++ seg :: segs := hsegs
  have hbefore : ExpressionMayStart [.keyword .returnWord] :=
    ⟨"0", _, [], .ret (.ofPrimary (.int "0" (by decide)))⟩
  have hrejected := ((hexact digits (by decide) (by simp [digits])).anywhere hfirst hseg
    hbefore).2 (by decide +kernel)
  rw [List.flatMap_def, hlater] at hrejected
  exact ⟨hfits, ⟨seg, segs, hsegs, hrejected⟩, htext maxInteger (Nat.le_refl _)⟩

end ConstScript
