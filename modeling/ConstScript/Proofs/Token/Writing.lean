import ConstScript.Proofs.Token.LongestMatch

set_option autoImplicit false

/-! # Writing tokens out

Scanning undoes writing: tokens that are written one after another, with blanks between neighbours,
are scanned as these tokens again, if each of them is one that a source text can give. The blanks
are what no token runs over: every token would have taken more of some characters, but none of a
blank, so that it ends there (`scan_written`), and the blank is dropped. -/

namespace ConstScript.Token

/-! ## One token -/

/-- A character that starts no lexeme is in no run and is no symbol. -/
theorem StartsNothing.ofSingle_eq {c : Char} (h : StartsNothing c) :
    ¬ isWordChar c ∧ ¬ c.isDigit ∧ ¬ isQuote c ∧ ofSingle c = .illegal c := by
  obtain ⟨-, hnone⟩ := h
  refine ⟨fun hc => ?_, fun hc => ?_, fun hc => ?_, ?_⟩
  · exact hnone _ [c] (.word (by simp) (by simpa using hc)) rfl
  · exact hnone _ [c] (.digits (by simp) (by simpa using hc)) rfl
  · obtain rfl : c = '"' := by simpa [isQuote] using hc
    have hopen : IsLexeme (.str (String.ofList [])) ['"'] := .unclosed (by simp)
    exact hnone _ _ hopen rfl
  · cases hs : Symbol.ofChar? c with
    | none => simp [ofSingle, hs]
    | some s =>
        refine absurd ?_ (hnone _ _ (.symbol s))
        rw [text_of_ofChar? hs]
        rfl

/-- A token that is written is scanned as this token, if what follows does not go on with it. -/
theorem scan_written {t : Token} (ht : t.IsValid) {rest : List Char}
    (hrest : EndsRun t.growsBy rest) : scan (t.written ++ rest) = t :: scan rest := by
  cases t with
  | ident name =>
      have hname := ht
      simp only [IsValid, isName, Bool.and_eq_true, decide_eq_true_eq, List.all_eq_true,
        Option.isNone_iff_eq_none] at hname
      obtain ⟨⟨hne, hword⟩, hkeyword⟩ := hname
      show scan (name.toList ++ rest) = _
      rw [scan_word hne hword hrest, ofWord, hkeyword]
  | int digits => exact scan_digits ht.1 ht.2 hrest
  | str contents =>
      rw [written, List.cons_append, List.append_assoc]
      exact scan_quoted ht rest
  | illegal c =>
      obtain ⟨hword, hdigit, hquote, hsingle⟩ := ht.ofSingle_eq
      have hdouble : c ∈ ['=', '!'] → EndsRun (· = '=') rest := by
        intro hc
        simp only [List.mem_cons, List.not_mem_nil, or_false] at hc
        rcases hc with rfl | rfl <;> exact absurd hsingle (by decide)
      have hlexeme := lexeme_single hword hdigit hquote hdouble
      show scan (c.toString.toList ++ rest) = _
      rw [Char.toString, String.toList_singleton, List.singleton_append,
        scan_lexeme ht.1 hlexeme, hsingle]
  | symbol s =>
      refine scan_symbol s fun hs => ?_
      simp only [List.mem_cons, List.not_mem_nil, or_false] at hs
      rcases hs with rfl | rfl <;> exact hrest
  | keyword k =>
      have hne : k.text ≠ "" := by cases k <;> decide
      show scan (k.text.toList ++ rest) = _
      rw [scan_word hne (fun _ => isWordChar_of_mem_text) hrest, ofWord, Keyword.ofText?_text]

/-- No token goes on with a blank. -/
theorem not_growsBy_of_isBlank (t : Token) {c : Char} (hc : isBlank c) : ¬ t.growsBy c := by
  simp only [isBlank, Bool.or_eq_true, decide_eq_true_eq] at hc
  rcases hc with ((rfl | rfl) | rfl) | rfl <;> unfold growsBy <;> split <;> decide

/-! ## A whole text -/

/-- The tokens are written out, each after some blanks: at least one of them, except before the
    first token. -/
structure WrittenOut (os : List Occurrence) (last : List Char) : Prop where
  isValid : ∀ o ∈ os, o.token.IsValid
  raw_eq : ∀ o ∈ os, o.raw = o.token.written
  blanks : ∀ o ∈ os, ∀ c ∈ o.blanks, isBlank c
  apart : ∀ o ∈ os.tail, o.blanks ≠ []
  last : ∀ c ∈ last, isBlank c

/-- **Scanning undoes writing.** Tokens that are written out with blanks between them are scanned as
    the same tokens. -/
theorem WrittenOut.scan_eq {os : List Occurrence} {last : List Char} (h : WrittenOut os last) :
    scan (os.flatMap Occurrence.chars ++ last) = os.map Occurrence.token := by
  induction os with
  | nil =>
      have hlast := scan_blanks h.last []
      rwa [List.append_nil, scan_nil] at hlast
  | cons o os ih =>
      have hos : WrittenOut os last := {
        isValid := fun p hp => h.isValid p (List.mem_cons_of_mem o hp)
        raw_eq := fun p hp => h.raw_eq p (List.mem_cons_of_mem o hp)
        blanks := fun p hp => h.blanks p (List.mem_cons_of_mem o hp)
        apart := fun p hp => h.apart p (List.mem_of_mem_tail hp)
        last := h.last }
      -- The next token is written after a blank, and at the end there are only blanks.
      have hends : EndsRun o.token.growsBy (os.flatMap Occurrence.chars ++ last) := by
        intro c hc
        refine not_growsBy_of_isBlank o.token ?_
        cases os with
        | nil => exact h.last c (List.mem_of_mem_head? hc)
        | cons p os =>
            have hp : p ∈ o :: p :: os := by simp
            obtain ⟨b, bs, hblanks⟩ := List.exists_cons_of_ne_nil (h.apart p (by simp))
            obtain rfl : b = c := by simpa [Occurrence.chars, hblanks] using hc
            exact h.blanks p hp b (by simp [hblanks])
      rw [List.flatMap_cons, List.append_assoc, Occurrence.chars, List.append_assoc,
        scan_blanks (h.blanks o List.mem_cons_self), h.raw_eq o List.mem_cons_self,
        scan_written (h.isValid o List.mem_cons_self) hends, ih hos, List.map_cons]

/-- Every list of tokens that source texts can give is that of a source text. -/
theorem exists_scan_eq {ts : List Token} (h : ∀ t ∈ ts, t.IsValid) :
    ∃ text : String, scan text.toList = ts := by
  let os := ts.map fun t => (⟨[' '], t, t.written⟩ : Occurrence)
  have hos : WrittenOut os [] := by
    refine ⟨?_, ?_, ?_, fun o ho => ?_, by simp⟩
    · simpa [os] using h
    · simp [os]
    · simp [os, isBlank]
    · have hmem := List.mem_of_mem_tail ho
      simp only [os, List.mem_map] at hmem
      obtain ⟨t, -, rfl⟩ := hmem
      simp
  refine ⟨String.ofList (os.flatMap Occurrence.chars ++ []), ?_⟩
  rw [String.toList_ofList, hos.scan_eq]
  simp [os, Function.comp_def]

end ConstScript.Token
