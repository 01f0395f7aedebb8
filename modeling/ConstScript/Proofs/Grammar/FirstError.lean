import ConstScript.Proofs.Grammar.Completion
import ConstScript.Proofs.Grammar.Lookahead
import ConstScript.Proofs.Grammar.Recovery
import ConstScript.Syntax.Equality

set_option autoImplicit false

/-! # The first syntax error

Nothing is skipped before the first error: each segment before it is a statement that is read. So
two facts about single statements go through to the whole text. Where reading gets stuck, what was
read is the beginning of a text without errors; and one token of lookahead decides what is read, so
that the tokens up to the offending one decide the first error. -/

namespace ConstScript

namespace Grammar

/-- The statements that are read before the first fault. -/
def statementsBeforeFault : List Segment → List Stmt
  | ⟨_, _, .ok s⟩ :: segs => s :: statementsBeforeFault segs
  | _ => []

/-- The statements before the first fault are the first ones of the program that is kept. -/
theorem statementsBeforeFault_prefix (segs : List Segment) :
    statementsBeforeFault segs <+: (Reading.ofSegments segs).program.statements := by
  induction segs with
  | nil => exact List.nil_prefix
  | cons seg segs ih =>
      obtain ⟨depth, ts, outcome⟩ := seg
      cases outcome with
      | ok s =>
          rw [Reading.ofSegments_ok]
          exact List.cons_prefix_cons.2 ⟨rfl, ih⟩
      | error fault => exact List.nil_prefix

/-- Tokens that agree with others up to and including the one after `before` begin with `before`,
    and the same token is next. -/
theorem exists_append_of_agree {before unread ts : List Token}
    (h : ∀ n ≤ before.length, ts[n]? = (before ++ unread)[n]?) :
    ∃ unread', ts = before ++ unread' ∧ unread'.head? = unread.head? := by
  induction before generalizing ts with
  | nil =>
      have hnext := h 0 (Nat.le_refl _)
      rw [← List.head?_eq_getElem?, ← List.head?_eq_getElem?] at hnext
      exact ⟨ts, rfl, hnext⟩
  | cons t before ih =>
      have hfirst := h 0 (Nat.zero_le _)
      rw [← List.head?_eq_getElem?] at hfirst
      obtain ⟨us, rfl⟩ := List.head?_eq_some_iff.1 hfirst
      obtain ⟨unread', rfl, hnext⟩ := ih fun n hn => h (n + 1) (Nat.succ_le_succ hn)
      exact ⟨unread', rfl, hnext⟩

/-! ## Failing inputs -/

/-- Reading passes over the tokens `before`, which hold the statements `ss`, and fails for the cause
    `error` in front of `next`, whatever comes after `next`. -/
structure FailsAfter (before : List Token) (ss : List Stmt) (error : SyntaxError)
    (next : Option Token) : Prop where
  viable : Viable .statements before
  names : error.Names next
  fails : ∀ depth rest, rest.head? = next → ∃ more,
    (Reading.ofSegments (segments depth (before ++ rest))).faults = ⟨error, rest⟩ :: more ∧
      statementsBeforeFault (segments depth (before ++ rest)) = ss

/-- The first statement fails. -/
theorem FailsAfter.first {used rest : List Token} {e : SyntaxError} (hne : used ++ rest ≠ [])
    (hnames : e.Names rest.head?)
    (hlocal : ∀ rest', rest'.head? = rest.head? →
      outcome (statement (used ++ rest')) = (.error e, rest')) :
    FailsAfter used [] e rest.head? where
  viable := by
    have hmeets := statement_meets (used ++ rest)
    have hread : statement (used ++ rest) = .error ⟨e, rest⟩ := error_iff.2 (hlocal rest rfl)
    rw [hread] at hmeets
    obtain ⟨passed, heq, s, tail, hs⟩ := hmeets
    obtain rfl : used = passed := List.append_cancel_right heq
    exact ⟨[s], tail, by simpa using Derives.unclosed hs .noStatements (by simp)⟩
  names := hnames
  fails depth rest' hrest' := by
    have hne' : used ++ rest' ≠ [] := by
      intro hnil
      obtain ⟨rfl, rfl⟩ := List.append_eq_nil_iff.1 hnil
      exact hne (List.head?_eq_none_iff.1 hrest'.symm)
    have hread : statement (used ++ rest') = .error ⟨e, rest'⟩ := error_iff.2 (hlocal rest' hrest')
    obtain ⟨skipped, hskipped, -⟩ := afterFailure_suffix depth ⟨e, rest'⟩ hne'
    rw [segments_of_error depth hne' hskipped hread rfl]
    exact ⟨_, rfl, rfl⟩

/-- A statement is read before the failure. -/
theorem FailsAfter.cons {used before : List Token} {s : Stmt} {ss : List Stmt} {e : SyntaxError}
    {unread : List Token} (h : FailsAfter before ss e unread.head?)
    (hlocal : ∀ rest, rest.head? = (before ++ unread).head? →
      outcome (statement (used ++ rest)) = (.ok s, rest)) :
    FailsAfter (used ++ before) (s :: ss) e unread.head? where
  viable := by
    have hmeets := statement_meets (used ++ (before ++ unread))
    obtain ⟨hlt, hread⟩ := yields_iff.2 (hlocal (before ++ unread) rfl)
    rw [hread] at hmeets
    have hrest : Stuck .statements (before ++ unread) ⟨e, unread⟩ := ⟨before, rfl, h.viable⟩
    obtain ⟨passed, heq, hviable⟩ := ReadsStatement.stuck hmeets hrest
    obtain rfl : used ++ before = passed :=
      List.append_cancel_right ((List.append_assoc _ _ _).trans heq)
    exact hviable
  names := h.names
  fails depth rest hrest := by
    have hnext : (before ++ rest).head? = (before ++ unread).head? := LocalAt.head?_append hrest
    have hread : Yields (statement (used ++ (before ++ rest))) s (before ++ rest) :=
      yields_iff.2 (hlocal _ hnext)
    obtain ⟨more, hfaults, hstatements⟩ := h.fails (openBrackets depth used) rest hrest
    rw [List.append_assoc, segments_of_yields depth rfl hread]
    exact ⟨more, hfaults, congrArg (s :: ·) hstatements⟩

/-- Up to its first fault, an input fails as its tokens say up to the offending one. -/
theorem failsAfter_of_faults (depth : Nat) (ts : List Token) {fault : Fault} {more : List Fault}
    (h : (Reading.ofSegments (segments depth ts)).faults = fault :: more) :
    ∃ before, ts = before ++ fault.unread ∧
      FailsAfter before (statementsBeforeFault (segments depth ts)) fault.error
        fault.unread.head? := by
  by_cases hne : ts = []
  · rw [hne, segments_nil] at h
    exact absurd h (by simp)
  · obtain ⟨used, rest, o, hts, hblames, hlocal⟩ := statement_local ts
    have hfirst : outcome (statement ts) = (o, rest) := hts ▸ hlocal rest (.of_head? rfl)
    cases o with
    | error e =>
        have hfails : FailsAfter used [] e rest.head? :=
          .first (hts ▸ hne) (hblames e rfl).names fun _ hrest' => hlocal _ (.of_head? hrest')
        obtain ⟨_, hfaults, hstatements⟩ := hfails.fails depth rest rfl
        rw [← hts] at hfaults hstatements
        obtain rfl : fault = ⟨e, rest⟩ := by
          rw [h] at hfaults
          exact (List.cons.inj hfaults).1
        rw [hstatements]
        exact ⟨used, hts, hfails⟩
    | ok s =>
        have hread : Yields (statement ts) s rest := yields_iff.2 hfirst
        have hshorter : rest.length < ts.length := hread.1
        rw [segments_of_yields depth hts hread] at h ⊢
        obtain ⟨before, rfl, hfails⟩ := failsAfter_of_faults (openBrackets depth used) rest h
        exact ⟨used ++ before, by rw [hts, List.append_assoc],
          hfails.cons fun _ hrest' => hlocal _ (.of_head? hrest')⟩
termination_by ts.length

end Grammar

/-! ## Programs -/

open Grammar

/-- The statements of a source text before its first syntax error. -/
def Program.statementsBeforeError (source : String) : List Stmt :=
  statementsBeforeFault (segments source)

/-- **The first syntax error is at the first offending token.** It names the token in front of which
    reading fails, where there is none at the end of the input. The tokens before that one begin a
    text without syntax errors; but every text that goes on with the same token after them has the
    same first error at the same place, and the same statements before it, which are kept. -/
theorem Program.parse_firstError {source : String} {fault : Fault} {more : List Fault}
    (h : (parse source).faults = fault :: more) :
    ∃ before, Token.scan source.toList = before ++ fault.unread ∧
      fault.error.Names fault.unread.head? ∧
      (∃ (text : String) (tail : List Token), Token.scan text.toList = before ++ tail ∧
        (parse text).errors = []) ∧
      ∀ text : String,
        (∀ n ≤ before.length, (Token.scan text.toList)[n]? = (Token.scan source.toList)[n]?) →
        (∃ unread more', Token.scan text.toList = before ++ unread ∧
          (parse text).faults = ⟨fault.error, unread⟩ :: more') ∧
        statementsBeforeError text = statementsBeforeError source ∧
        statementsBeforeError text <+: (parse text).program.statements := by
  obtain ⟨before, hscan, hfails⟩ := failsAfter_of_faults 0 _ h
  refine ⟨before, hscan, hfails.names, ?_, fun text hagree => ?_⟩
  · have hvalid : ∀ t ∈ Token.scan source.toList, t.IsValid := fun _ => Token.isValid_of_mem_scan
    rw [hscan] at hvalid
    exact hfails.viable.exists_text fun t ht => hvalid t (List.mem_append_left _ ht)
  · rw [hscan] at hagree
    obtain ⟨unread, htext, hnext⟩ := exists_append_of_agree hagree
    obtain ⟨more', hfaults, hstatements⟩ := hfails.fails 0 unread hnext
    rw [← htext] at hfaults hstatements
    exact ⟨⟨unread, more', htext, hfaults⟩, hstatements, statementsBeforeFault_prefix _⟩

/-- A `}` in the place of an operand, inside a function: what comes before it could have gone on. -/
theorem Program.parse_firstError_missingOperand :
    ∃ before, Token.scan "a; fn(x) { x + }; b".toList =
        before ++ [.symbol .rightBrace, .symbol .semicolon, .ident "b"] ∧
      (∃ (text : String) (tail : List Token), Token.scan text.toList = before ++ tail ∧
        (parse text).errors = []) ∧
      ∀ text : String,
        (∀ n ≤ before.length, (Token.scan text.toList)[n]? =
          (Token.scan "a; fn(x) { x + }; b".toList)[n]?) →
        (parse text).errors.head? = some (.noOperand (.symbol .rightBrace)) ∧
          statementsBeforeError text = [.expr (.name "a")] := by
  have hfaults : (parse "a; fn(x) { x + }; b").faults =
      [⟨.noOperand (.symbol .rightBrace),
        [.symbol .rightBrace, .symbol .semicolon, .ident "b"]⟩] := by
    decide +kernel
  have hstatements : statementsBeforeError "a; fn(x) { x + }; b" = [.expr (.name "a")] := by
    decide +kernel
  obtain ⟨before, hscan, -, htext, hagree⟩ := parse_firstError hfaults
  refine ⟨before, hscan, htext, fun text htokens => ?_⟩
  obtain ⟨⟨unread, more, -, herrors⟩, hsame, -⟩ := hagree text htokens
  refine ⟨?_, hsame.trans hstatements⟩
  rw [Reading.errors, herrors]
  rfl

end ConstScript
