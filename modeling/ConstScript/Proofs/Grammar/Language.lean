import ConstScript.Proofs.Grammar.Complete
import ConstScript.Proofs.Grammar.Segments
import ConstScript.Proofs.Grammar.Sound

set_option autoImplicit false

/-! # The language that is read without an error

The tokens of a program are cut into segments, and a segment is read either as a statement or with a
fault. So a program is read without a fault iff every segment is a statement, and the segments of
what the grammar derives as `statements` are exactly the statements of the derivation: both
directions follow the list of segments, one statement at a time. -/

namespace ConstScript

open Grammar

/-- What the grammar derives is read as the statements of the derivation, without a fault. -/
theorem Grammar.Derives.ofSegments_eq {ss : List Stmt} {ts : List Token}
    (h : Derives .statements ss ts) (depth : Nat) :
    Reading.ofSegments (segments depth ts) = ⟨⟨ss⟩, []⟩ := by
  induction ss generalizing ts depth with
  | nil =>
      cases h
      rw [segments_nil, Reading.ofSegments_nil]
  | cons s ss ih =>
      cases h with
      | @closed _ _ us vs hs hss =>
          have hread : Yields (statement (us ++ .symbol .semicolon :: vs)) s vs :=
            hs.accepted _ (Ends.symbol (by decide) vs)
          have hsplit : us ++ .symbol .semicolon :: vs = (us ++ [.symbol .semicolon]) ++ vs := by
            simp
          rw [segments_of_yields depth hsplit hread, Reading.ofSegments_ok, ih hss]
      | @unclosed _ _ us vs hs hss hnext =>
          obtain ⟨hends, hskip⟩ := hss.ends_statements hnext Ends.nil rfl
          rw [List.append_nil] at hends hskip
          have hread := hs.accepted vs hends
          rw [hskip] at hread
          rw [segments_of_yields depth rfl hread, Reading.ofSegments_ok, ih hss]

/-- The first segment is a statement that is read, or a fault where reading is stuck. -/
theorem Grammar.segments_cases (depth : Nat) {ts : List Token} (hne : ts ≠ []) :
    ∃ used rest, ts = used ++ rest ∧ used ≠ [] ∧
      ((∃ s, ReadsStatement ts s rest ∧
          segments depth ts = ⟨depth, used, .ok s⟩ :: segments (openBrackets depth used) rest) ∨
        (∃ fault, Stuck .statement ts fault ∧ rest = afterFailure depth fault ts ∧
          segments depth ts
            = ⟨depth, used, .error fault⟩ :: segments (openBrackets depth used) rest)) := by
  have hmeets := statement_meets ts
  cases hread : statement ts with
  | ok p =>
      rw [hread] at hmeets
      have hyields : Yields (statement ts) p.value p.rest := ⟨p.length_rest_lt, hread⟩
      have hsplit : ∃ used, ts = used ++ p.rest := by
        obtain ⟨us, -, hts | ⟨hts, -⟩⟩ := hmeets
        · exact ⟨us ++ [.symbol .semicolon], by simpa using hts⟩
        · exact ⟨us, hts⟩
      obtain ⟨used, hts⟩ := hsplit
      refine ⟨used, p.rest, hts, ?_, .inl ⟨p.value, hmeets, segments_of_yields depth hts hyields⟩⟩
      rintro rfl
      have hlt := p.length_rest_lt
      rw [List.nil_append] at hts
      exact absurd (congrArg List.length hts) (Nat.ne_of_gt hlt)
  | error fault =>
      rw [hread] at hmeets
      obtain ⟨used, hts, hused⟩ := afterFailure_suffix depth fault hne
      exact ⟨used, _, hts, hused, .inr
        ⟨fault, hmeets, rfl, segments_of_error depth hne hts hread rfl⟩⟩

/-- What is read without a fault is derived by the grammar. -/
theorem Grammar.derives_ofSegments (depth : Nat) (ts : List Token)
    (h : (Reading.ofSegments (segments depth ts)).faults = []) :
    Derives .statements (Reading.ofSegments (segments depth ts)).program.statements ts := by
  by_cases hne : ts = []
  · rw [hne, segments_nil]
    exact .noStatements
  · obtain ⟨used, rest, hts, hused, ⟨s, hread, hsegs⟩ | ⟨fault, -, -, hsegs⟩⟩ :=
      segments_cases depth hne
    · rw [hsegs, Reading.ofSegments_ok] at h ⊢
      have hlt : rest.length < ts.length := by
        rw [hts, List.length_append]
        exact Nat.lt_add_of_pos_left (List.length_pos_iff.2 hused)
      have hrest := derives_ofSegments (openBrackets depth used) rest h
      obtain ⟨us, hs, hts' | ⟨hts', hnext⟩⟩ := hread
      · rw [hts']
        exact .closed hs hrest
      · rw [hts']
        exact .unclosed hs hrest hnext
    · rw [hsegs, Reading.ofSegments_error] at h
      exact absurd h (List.cons_ne_nil _ _)
termination_by ts.length

/-- **The grammar of programs.** A program is read from its tokens without a fault iff the grammar
    derives it from them. -/
theorem Program.ofTokens_eq_iff (ts : List Token) (ss : List Stmt) :
    Program.ofTokens ts = ⟨⟨ss⟩, []⟩ ↔ Derives .statements ss ts := by
  constructor
  · intro h
    have hderives := derives_ofSegments 0 ts (congrArg Reading.faults h)
    rw [Program.ofTokens] at h
    rwa [h] at hderives
  · exact fun h => h.ofSegments_eq 0

/-- The grammar is unambiguous: its phrases denote one program. -/
theorem Grammar.Derives.statements_unique {ss ss' : List Stmt} {ts : List Token}
    (h : Derives .statements ss ts) (h' : Derives .statements ss' ts) : ss = ss' := by
  have heq := (Program.ofTokens_eq_iff ts ss).2 h
  rw [(Program.ofTokens_eq_iff ts ss').2 h'] at heq
  exact (Program.mk.inj (Reading.mk.inj heq).1).symm

/-- A text without syntax errors is read as statements that the grammar derives from its tokens. -/
theorem Program.derives_of_errors_eq_nil {source : String} (h : (parse source).errors = []) :
    Derives .statements (parse source).program.statements (Token.scan source.toList) := by
  have hfaults : (parse source).faults = [] := List.map_eq_nil_iff.1 h
  exact derives_ofSegments 0 _ hfaults

/-- **The language.** Reading a source text reports no syntax error iff the grammar derives its
    tokens. -/
theorem Program.parse_errors_eq_nil_iff (source : String) :
    (Program.parse source).errors = [] ↔
      ∃ ss, Derives .statements ss (Token.scan source.toList) := by
  have hfaults : (Program.parse source).errors = [] ↔ (Program.parse source).faults = [] := by
    rw [Reading.errors, List.map_eq_nil_iff]
  rw [hfaults]
  constructor
  · exact fun h => ⟨_, derives_ofSegments 0 _ h⟩
  · rintro ⟨ss, h⟩
    exact congrArg Reading.faults (h.ofSegments_eq 0)

end ConstScript
