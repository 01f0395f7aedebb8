import ConstScript.Proofs.Eval.Sequence
import ConstScript.Proofs.Grammar.Recovery
import ConstScript.Session
import ConstScript.Syntax.Equality

set_option autoImplicit false

/-! # Running one text after another

A session runs texts one after another. If the first one ends with a `;`, the session does the same
as one run of the two texts put together, as long as the first one runs to its end: no token and no
statement goes across the seam, and whatever the first text leaves behind is where the second one
starts. -/

namespace ConstScript

open Grammar

/-! ## Reading -/

namespace Grammar

/-- A statement does not end with a `;` of its own: each one in it is inside brackets, which are
    closed after it. -/
theorem Derives.getLast?_ne_semicolon {s : Stmt} {ts : List Token} (h : Derives .statement s ts) :
    ts.getLast? ≠ some (.symbol .semicolon) := by
  intro hlast
  obtain ⟨us, rfl⟩ := List.getLast?_eq_some_iff.1 hlast
  have hclosed : openBrackets 0 us = 0 := by
    have hbalanced := h.balanced.openBrackets_eq 0
    rwa [openBrackets_append] at hbalanced
  have hinside := h.balanced.le_openBrackets 0 us [] rfl
  rw [hclosed] at hinside
  exact absurd hinside (by decide)

/-- Statements of which the last one is closed by a `;` can be followed by any statements. -/
theorem Derives.statements_append {ss ss' : List Stmt} {ts us : List Token}
    (h : Derives .statements ss ts) (hlast : ∀ t ∈ ts.getLast?, t = .symbol .semicolon)
    (h' : Derives .statements ss' us) : Derives .statements (ss ++ ss') (ts ++ us) := by
  induction ss generalizing ts with
  | nil =>
      cases h
      exact h'
  | cons s ss ih =>
      cases h with
      | @closed _ _ vs ws hs hss =>
          rw [List.append_cons] at hlast
          rw [List.append_assoc, List.cons_append]
          refine .closed hs (ih hss fun t ht => hlast t ?_)
          exact List.mem_getLast?_append_of_mem_getLast? ht
      | @unclosed _ _ vs ws hs hss hnext =>
          -- More tokens follow the statement, since it does not end with a `;` itself.
          have hws : ws ≠ [] := by
            rintro rfl
            rw [List.append_nil] at hlast
            obtain ⟨t, rest, rfl, -⟩ := hs.exists_head_statement
            have hsome := List.getLast?_eq_some_getLast (List.cons_ne_nil t rest)
            exact hs.getLast?_ne_semicolon (hsome.trans (congrArg some (hlast _ hsome)))
          rw [List.append_assoc]
          refine .unclosed hs (ih hss fun t ht => hlast t ?_) ?_
          · exact List.mem_getLast?_append_of_mem_getLast? ht
          · rwa [List.head?_append_of_ne_nil _ hws]

theorem Derives.tokens_eq_nil {ts : List Token} (h : Derives .statements [] ts) : ts = [] := by
  cases h
  rfl

end Grammar

/-! ## Running -/

/-- How the execution of the statements of a text is reported. -/
def RunResult.ofOutcome : EStateM.Result Stop Store Value → RunResult × Store
  | .ok v st => (.finished v, st)
  | .error (.returned v) st => (.finished v, st)
  | .error (.failed e) st => (.finished (.error e), st)
  | .error .tooDeep st => (.tooDeep, st)

variable [Hashing]

theorem Session.run_eq {source : String} (h : (Program.parse source).errors = []) (depth : Nat)
    (scope : ScopeId) (st : Store) :
    run depth scope source st = RunResult.ofOutcome (Stmt.evalAll (Closure.call depth) scope .null
      (Program.parse source).program.statements st) := by
  simp only [run, h, Program.eval]
  cases Stmt.evalAll (Closure.call depth) scope .null (Program.parse source).program.statements st
    with
  | ok v st' => rfl
  | error stop st' => cases stop <;> rfl

/-- Running a text that is read as one expression is evaluating the expression. -/
theorem Session.run_expr {source : String} {e : Expr}
    (h : Program.parse source = ⟨⟨[.expr e]⟩, []⟩) (depth : Nat) (scope : ScopeId) (st : Store) :
    run depth scope source st
      = RunResult.ofOutcome (e.eval (Closure.call depth) scope st) := by
  rw [run_eq (congrArg Reading.errors h), h]
  simp [Stmt.evalAll, Stmt.eval]

/-- A text with syntax errors does nothing. -/
theorem Session.run_rejected {source : String} (h : (Program.parse source).errors ≠ [])
    {depth : Nat} {scope : ScopeId} {st : Store} :
    run depth scope source st = (.rejected (Program.parse source).errors, st) := by
  cases herrors : (Program.parse source).errors with
  | nil => exact absurd herrors h
  | cons error errors => simp only [run, herrors]

/-! ## Sessions -/

/-- **A session is one run of the texts put together.** Let two texts without syntax errors be
    given, the first one ending with a `;` and the second one not empty. Together they are read as
    the statements of both. If the statements of the first text come to their end, running the texts
    together is running the second one after the first one, with the same result, output and
    bindings; if not, it is running the first one alone. -/
theorem Session.run_append {a b : String} (ha : (Program.parse a).errors = [])
    (hb : (Program.parse b).errors = [])
    (hlast : (Token.scan a.toList).getLast? = some (.symbol .semicolon))
    (hne : Token.scan b.toList ≠ []) :
    Program.parse (a ++ b) =
      ⟨⟨(Program.parse a).program.statements ++ (Program.parse b).program.statements⟩, []⟩ ∧
    ∀ (depth : Nat) (scope : ScopeId) (st : Store),
      match Stmt.evalAll (Closure.call depth) scope .null (Program.parse a).program.statements st
        with
      | .ok v st' => run depth scope a st = (.finished v, st') ∧
          run depth scope (a ++ b) st = run depth scope b st'
      | .error _ st' => (run depth scope a st).2 = st' ∧
          run depth scope (a ++ b) st = run depth scope a st := by
  have hda := Program.derives_of_errors_eq_nil ha
  have hdb := Program.derives_of_errors_eq_nil hb
  have hparse : Program.parse (a ++ b) =
      ⟨⟨(Program.parse a).program.statements ++ (Program.parse b).program.statements⟩, []⟩ := by
    obtain ⟨ts, hts⟩ := List.getLast?_eq_some_iff.1 hlast
    have hwhole := hda.statements_append (fun t ht => by simpa [hlast, eq_comm] using ht) hdb
    rw [← Token.scan_append hts, ← String.toList_append] at hwhole
    exact (Program.ofTokens_eq_iff _ _).2 hwhole
  have hstatements : (Program.parse b).program.statements ≠ [] :=
    fun hnil => hne (Derives.tokens_eq_nil (hnil ▸ hdb))
  refine ⟨hparse, fun depth scope st => ?_⟩
  have herrors : (Program.parse (a ++ b)).errors = [] := by
    rw [hparse]
    rfl
  have hwhole := run_eq herrors depth scope st
  rw [hparse, Stmt.evalAll_append] at hwhole
  rw [hwhole, run_eq ha]
  cases hfirst : Stmt.evalAll (Closure.call depth) scope .null
    (Program.parse a).program.statements st with
  | ok v st' =>
      rw [Eval.bind_of_ok hfirst]
      dsimp only
      rw [run_eq hb, Stmt.evalAll_last _ _ hstatements v .null]
      exact ⟨rfl, rfl⟩
  | error stop st' =>
      rw [Eval.bind_of_error hfirst]
      refine ⟨?_, rfl⟩
      cases stop <;> rfl

omit [Hashing] in
/-- The second text refers to what the first one has bound. -/
theorem Session.run_append_binding :
    let _ : Hashing := .inOrder fun _ => 0
    let a := "const x = 41;"
    let b := "x + 1"
    let (scope, st) := Session.start
    (Program.parse a).errors = [] ∧ (Program.parse b).errors = [] ∧
    (Token.scan a.toList).getLast? = some (.symbol .semicolon) ∧ Token.scan b.toList ≠ [] ∧
    ∀ depth, run depth scope (a ++ b) st = run depth scope b (run depth scope a st).2 := by
  intro _ a b
  have ha : (Program.parse a).errors = [] := by decide +kernel
  have hb : (Program.parse b).errors = [] := by decide +kernel
  have hlast : (Token.scan a.toList).getLast? = some (.symbol .semicolon) := by decide +kernel
  have hne : Token.scan b.toList ≠ [] := by decide +kernel
  refine ⟨ha, hb, hlast, hne, fun depth => ?_⟩
  have hrun := (Session.run_append ha hb hlast hne).2 depth Session.start.1 Session.start.2
  have hstatements : (Program.parse a).program.statements = [.const "x" (.int 41)] := by
    decide +kernel
  rw [hstatements] at hrun
  obtain ⟨hfirst, hboth⟩ := hrun
  exact hboth.trans (congrArg _ (congrArg Prod.snd hfirst).symm)

end ConstScript
