import ConstScript.Grammar.Program
import ConstScript.Proofs.Grammar.Reading

set_option autoImplicit false

/-! # The segments of an input

What the list of segments begins with, for each way in which reading its first statement can end,
and where reading goes on after a failure. -/

namespace ConstScript

/-! ## Open brackets -/

@[simp] theorem openBrackets_nil (depth : Nat) : openBrackets depth [] = depth := rfl

@[simp] theorem openBrackets_cons (depth : Nat) (t : Token) (ts : List Token) :
    openBrackets depth (t :: ts) = openBrackets (t.bracketsAfter depth) ts := rfl

@[simp] theorem openBrackets_append (depth : Nat) (ts us : List Token) :
    openBrackets depth (ts ++ us) = openBrackets (openBrackets depth ts) us :=
  List.foldl_append

/-! ## What a list of segments was read as -/

@[simp] theorem Reading.ofSegments_nil : Reading.ofSegments [] = ⟨⟨[]⟩, []⟩ := rfl

@[simp] theorem Reading.ofSegments_ok (depth : Nat) (ts : List Token) (s : Stmt)
    (segs : List Segment) :
    Reading.ofSegments (⟨depth, ts, .ok s⟩ :: segs)
      = ⟨⟨s :: (Reading.ofSegments segs).program.statements⟩,
          (Reading.ofSegments segs).faults⟩ := rfl

@[simp] theorem Reading.ofSegments_error (depth : Nat) (ts : List Token) (fault : Fault)
    (segs : List Segment) :
    Reading.ofSegments (⟨depth, ts, .error fault⟩ :: segs)
      = ⟨(Reading.ofSegments segs).program, fault :: (Reading.ofSegments segs).faults⟩ := rfl

/-- Every segment was read as one statement or one fault. -/
theorem Reading.length_ofSegments (segs : List Segment) :
    (Reading.ofSegments segs).program.statements.length + (Reading.ofSegments segs).faults.length
      = segs.length := by
  induction segs with
  | nil => rfl
  | cons seg segs ih =>
      obtain ⟨depth, ts, outcome⟩ := seg
      cases outcome with
      | ok s =>
          simp only [ofSegments_ok, List.length_cons, ← ih]
          omega
      | error fault =>
          simp only [ofSegments_error, List.length_cons, ← ih]
          omega

namespace Grammar

/-! ## Where reading goes on -/

/-- No `;` stands where `start` brackets are open, when `depth` are open before the tokens. -/
def NoStop (start depth : Nat) (ts : List Token) : Prop :=
  ∀ before after, ts = before ++ .symbol .semicolon :: after → openBrackets depth before ≠ start

theorem NoStop.tail {start depth : Nat} {t : Token} {ts : List Token}
    (h : NoStop start depth (t :: ts)) : NoStop start (t.bracketsAfter depth) ts := by
  intro before after hts
  exact h (t :: before) after (by rw [hts, List.cons_append])

theorem NoStop.head {start depth : Nat} {t : Token} {ts : List Token}
    (h : NoStop start depth (t :: ts)) : ¬ (t = .symbol .semicolon ∧ depth = start) := by
  rintro ⟨rfl, hdepth⟩
  exact h [] ts rfl hdepth

theorem NoStop.cons {start depth : Nat} {t : Token} {ts : List Token}
    (ht : ¬ (t = .symbol .semicolon ∧ depth = start))
    (hts : NoStop start (t.bracketsAfter depth) ts) : NoStop start depth (t :: ts) := by
  intro before after heq
  cases before with
  | nil =>
      obtain ⟨rfl, rfl⟩ := List.cons.inj heq
      exact fun hdepth => ht ⟨rfl, hdepth⟩
  | cons t' before =>
      obtain ⟨rfl, rfl⟩ := List.cons.inj heq
      exact hts before after rfl

/-- Reading goes on after the first `;` at which `start` brackets are open, or nowhere. -/
theorem recover_spec (start depth : Nat) (ts : List Token) :
    (∃ skipped, ts = skipped ++ .symbol .semicolon :: recover start depth ts ∧
      openBrackets depth skipped = start ∧ NoStop start depth skipped) ∨
    (recover start depth ts = [] ∧ NoStop start depth ts) := by
  induction ts generalizing depth with
  | nil => exact .inr ⟨rfl, by simp [NoStop]⟩
  | cons t ts ih =>
      by_cases hstop : t = .symbol .semicolon ∧ depth = start
      · rw [recover, if_pos hstop]
        obtain ⟨rfl, rfl⟩ := hstop
        exact .inl ⟨[], rfl, rfl, by simp [NoStop]⟩
      · rw [recover, if_neg hstop]
        rcases ih (t.bracketsAfter depth) with ⟨skipped, hts, hopen, hfirst⟩ | ⟨hrest, hnone⟩
        · exact .inl ⟨t :: skipped, by rw [List.cons_append, ← hts], hopen, hfirst.cons hstop⟩
        · exact .inr ⟨hrest, hnone.cons hstop⟩

/-- Tokens without such a `;` are skipped. -/
theorem recover_append {start depth : Nat} {ts : List Token} (h : NoStop start depth ts)
    (rest : List Token) :
    recover start depth (ts ++ rest) = recover start (openBrackets depth ts) rest := by
  induction ts generalizing depth with
  | nil => rfl
  | cons t ts ih =>
      rw [List.cons_append, recover, if_neg h.head, ih h.tail, openBrackets_cons]

/-- Reading goes on with a shorter end of the input. -/
theorem afterFailure_suffix (depth : Nat) (fault : Fault) {ts : List Token} (hne : ts ≠ []) :
    ∃ used, ts = used ++ afterFailure depth fault ts ∧ used ≠ [] := by
  unfold afterFailure
  generalize fault.position ts = n
  rcases recover_spec depth (openBrackets depth (ts.take n)) (ts.drop n) with
    ⟨skipped, hdrop, -⟩ | ⟨hrest, -⟩
  · refine ⟨ts.take n ++ (skipped ++ [.symbol .semicolon]), ?_, by simp⟩
    calc ts = ts.take n ++ ts.drop n := (List.take_append_drop n ts).symm
      _ = _ := by
        rw [List.append_assoc, List.append_assoc, List.singleton_append, ← hdrop]
  · exact ⟨ts, by rw [hrest, List.append_nil], hne⟩

/-! ## The first segment -/

@[simp] theorem segments_nil (depth : Nat) : segments depth [] = [] := by
  rw [segments]

theorem take_length_sub {ts used rest : List Token} (hts : ts = used ++ rest) :
    ts.take (ts.length - rest.length) = used := by
  rw [hts, List.length_append, Nat.add_sub_cancel]
  exact List.take_left

/-- A statement that is read is the first segment. -/
theorem segments_of_yields (depth : Nat) {ts used rest : List Token} {s : Stmt}
    (hts : ts = used ++ rest) (h : Yields (statement ts) s rest) :
    segments depth ts
      = ⟨depth, used, .ok s⟩ :: segments (openBrackets depth used) rest := by
  obtain ⟨hlt, hread⟩ := h
  cases ts with
  | nil => exact absurd hlt (Nat.not_lt_zero _)
  | cons t us =>
      rw [segments, readSegment, hread]
      dsimp only
      rw [take_length_sub hts]

/-- A fault is the first segment, up to where reading goes on. -/
theorem segments_of_error (depth : Nat) {ts used rest : List Token} {fault : Fault}
    (hne : ts ≠ []) (hts : ts = used ++ rest) (h : statement ts = .error fault)
    (hrest : afterFailure depth fault ts = rest) :
    segments depth ts
      = ⟨depth, used, .error fault⟩ :: segments (openBrackets depth used) rest := by
  cases ts with
  | nil => exact absurd rfl hne
  | cons t us =>
      rw [segments, readSegment, h]
      dsimp only
      rw [hrest, take_length_sub hts]

end Grammar

end ConstScript
