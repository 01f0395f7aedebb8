import Mathlib
import ConstScript.Token.Scan

set_option autoImplicit false

/-! # Where tokens end

A token takes as many characters as it can, so what it is depends on what follows it only through
the one character that it stops at. Three facts rest on this: a text that was put together from the
spellings of tokens is scanned into these tokens if no two of them touch that would run together
(`scan_word`, `scan_symbol` and so on), a text can be cut between two tokens without changing
what is scanned on either side (`exists_scan_append`), and a text that ends with a `;` can be
followed by any other without changing what is scanned from either (`scan_append`). -/

namespace ConstScript.Token

/-! ## Runs of characters -/

/-- The characters do not go on with a run of characters that satisfy `p`. -/
def EndsRun (p : Char → Bool) (rest : List Char) : Prop :=
  ∀ c ∈ rest.head?, ¬ p c

variable {p : Char → Bool} {run rest : List Char}

theorem takeWhile_run (hrun : ∀ c ∈ run, p c) (hrest : EndsRun p rest) :
    (run ++ rest).takeWhile p = run := by
  rw [List.takeWhile_append_of_pos hrun]
  cases rest with
  | nil => rw [List.takeWhile_nil, List.append_nil]
  | cons c cs => rw [List.takeWhile_cons_of_neg (hrest c rfl), List.append_nil]

theorem dropWhile_run (hrun : ∀ c ∈ run, p c) (hrest : EndsRun p rest) :
    (run ++ rest).dropWhile p = rest := by
  rw [List.dropWhile_append_of_pos hrun]
  cases rest with
  | nil => rfl
  | cons c cs => rw [List.dropWhile_cons_of_neg (hrest c rfl)]

theorem endsRun_dropWhile (p : Char → Bool) (cs : List Char) : EndsRun p (cs.dropWhile p) := by
  intro c hc
  have hnot := List.head?_dropWhile_not p cs
  rw [Option.mem_def.1 hc] at hnot
  simpa using hnot

/-- The characters start in the same way as `rest`, or there are none. -/
def StartsLike (rest a : List Char) : Prop :=
  a = [] ∨ a.head? = rest.head?

theorem StartsLike.refl (rest : List Char) : StartsLike rest rest :=
  .inr rfl

theorem startsLike_front {a : List Char} (ha : a <+: rest) : StartsLike rest a := by
  obtain ⟨b, rfl⟩ := ha
  cases a with
  | nil => exact .inl rfl
  | cons c cs => exact .inr rfl

theorem startsLike_append (hrest : rest ≠ []) (a : List Char) : StartsLike rest (rest ++ a) := by
  cases rest with
  | nil => exact absurd rfl hrest
  | cons c cs => exact .inr rfl

/-- What starts in the same way as characters that end a run ends it, too. -/
theorem EndsRun.like {a : List Char} (h : EndsRun p rest) (ha : StartsLike rest a) :
    EndsRun p a := by
  rcases ha with rfl | ha
  · simp [EndsRun]
  · rwa [EndsRun, ha]

/-! ## One token -/

/-- The token of one character that is in no run. -/
def ofSingle (c : Char) : Token :=
  match Symbol.ofChar? c with
  | some s => .symbol s
  | none => .illegal c

theorem lexeme_word {c : Char} (hc : isWordChar c) (hrun : ∀ d ∈ run, isWordChar d)
    (hrest : EndsRun isWordChar rest) :
    lexeme c (run ++ rest) = (ofWord (String.ofList (c :: run)), rest) := by
  unfold lexeme
  rw [if_pos hc, takeWhile_run hrun hrest, dropWhile_run hrun hrest]

theorem lexeme_digits {c : Char} (hc : c.isDigit) (hword : ¬ isWordChar c)
    (hrun : ∀ d ∈ run, d.isDigit) (hrest : EndsRun Char.isDigit rest) :
    lexeme c (run ++ rest) = (.int (String.ofList (c :: run)), rest) := by
  unfold lexeme
  rw [if_neg hword, if_pos hc, takeWhile_run hrun hrest, dropWhile_run hrun hrest]

/-- A string literal with its closing quote. -/
theorem lexeme_quoted (hrun : ∀ d ∈ run, ¬ isQuote d) (rest : List Char) :
    lexeme '"' (run ++ '"' :: rest) = (.str (String.ofList run), rest) := by
  have hrun' : ∀ d ∈ run, (fun d => !isQuote d) d := by simpa using hrun
  have hrest : EndsRun (fun d => !isQuote d) ('"' :: rest) := by
    intro c hc
    obtain rfl : '"' = c := Option.some.inj hc
    decide
  unfold lexeme
  rw [if_neg (by decide), if_neg (by decide), if_pos (by decide),
    takeWhile_run hrun' hrest, dropWhile_run hrun' hrest, List.drop_one, List.tail_cons]

/-- A string literal that the end of the text closes. -/
theorem lexeme_unclosed (hrun : ∀ d ∈ run, ¬ isQuote d) :
    lexeme '"' run = (.str (String.ofList run), []) := by
  have hrun' : ∀ d ∈ run, (fun d => !isQuote d) d := by simpa using hrun
  have hnil : EndsRun (fun d => !isQuote d) [] := by simp [EndsRun]
  have htake := takeWhile_run hrun' hnil
  have hdrop := dropWhile_run hrun' hnil
  rw [List.append_nil] at htake hdrop
  unfold lexeme
  rw [if_neg (by decide), if_neg (by decide), if_pos (by decide), htake, hdrop,
    List.drop_nil]

/-- A character that is in no run is a token by itself, unless it makes a symbol with a `=` after
    it. -/
theorem lexeme_single {c : Char} (hword : ¬ isWordChar c) (hdigit : ¬ c.isDigit)
    (hquote : ¬ isQuote c) (hrest : c ∈ ['=', '!'] → EndsRun (· = '=') rest) :
    lexeme c rest = (ofSingle c, rest) := by
  unfold lexeme
  rw [if_neg hword, if_neg hdigit, if_neg hquote]
  split
  · exact absurd (hrest (by simp) '=' rfl) (by simp)
  · exact absurd (hrest (by simp) '=' rfl) (by simp)
  · rw [ofSingle]
    cases Symbol.ofChar? c <;> rfl

/-! ## Cutting a text between tokens -/

/-- How a token that starts with a character is cut off: the characters after the first one that
    belong to it, and those that follow it. -/
inductive Cut : Char → Token → List Char → List Char → Prop
  | word {c : Char} {run rest : List Char} : isWordChar c → (∀ d ∈ run, isWordChar d) →
      EndsRun isWordChar rest → Cut c (ofWord (String.ofList (c :: run))) run rest
  | digits {c : Char} {run rest : List Char} : c.isDigit → ¬ isWordChar c →
      (∀ d ∈ run, d.isDigit) → EndsRun Char.isDigit rest →
      Cut c (.int (String.ofList (c :: run))) run rest
  | quoted {run : List Char} (rest : List Char) : (∀ d ∈ run, ¬ isQuote d) →
      Cut '"' (.str (String.ofList run)) (run ++ ['"']) rest
  | unclosed {run : List Char} : (∀ d ∈ run, ¬ isQuote d) →
      Cut '"' (.str (String.ofList run)) run []
  | equal (rest : List Char) : Cut '=' (.symbol .equal) ['='] rest
  | notEqual (rest : List Char) : Cut '!' (.symbol .notEqual) ['='] rest
  | single {c : Char} {rest : List Char} : ¬ isWordChar c → ¬ c.isDigit → ¬ isQuote c →
      (c ∈ ['=', '!'] → EndsRun (· = '=') rest) → Cut c (ofSingle c) [] rest

/-- Every text can be cut after its first token. -/
theorem exists_cut (c : Char) (cs : List Char) :
    ∃ t raw rest, cs = raw ++ rest ∧ Cut c t raw rest := by
  by_cases hword : isWordChar c
  · exact ⟨_, cs.takeWhile isWordChar, cs.dropWhile isWordChar,
      List.takeWhile_append_dropWhile.symm,
      .word hword (fun d hd => List.mem_takeWhile_imp hd) (endsRun_dropWhile _ _)⟩
  by_cases hdigit : c.isDigit
  · exact ⟨_, cs.takeWhile Char.isDigit, cs.dropWhile Char.isDigit,
      List.takeWhile_append_dropWhile.symm,
      .digits hdigit hword (fun d hd => List.mem_takeWhile_imp hd) (endsRun_dropWhile _ _)⟩
  by_cases hquote : isQuote c
  · obtain rfl : c = '"' := by simpa [isQuote] using hquote
    have hrun : ∀ d ∈ cs.takeWhile (fun d => !isQuote d), ¬ isQuote d := by
      intro d hd
      have hnot := List.mem_takeWhile_imp hd
      simpa using hnot
    have hcs := (List.takeWhile_append_dropWhile (p := fun d => !isQuote d) (l := cs)).symm
    cases hdrop : cs.dropWhile (fun d => !isQuote d) with
    | nil =>
        rw [hdrop] at hcs
        exact ⟨_, _, [], hcs, .unclosed hrun⟩
    | cons q rest =>
        have hq : isQuote q := by
          have hends := endsRun_dropWhile (fun d => !isQuote d) cs
          rw [hdrop] at hends
          simpa using hends q rfl
        obtain rfl : q = '"' := by simpa [isQuote] using hq
        rw [hdrop, List.append_cons] at hcs
        exact ⟨_, _, rest, hcs, .quoted rest hrun⟩
  by_cases hpair : c ∈ ['=', '!'] ∧ cs.head? = some '='
  · obtain ⟨hc, hcs⟩ := hpair
    obtain ⟨rest, rfl⟩ := List.head?_eq_some_iff.1 hcs
    simp only [List.mem_cons, List.not_mem_nil, or_false] at hc
    rcases hc with rfl | rfl
    · exact ⟨_, ['='], rest, rfl, .equal rest⟩
    · exact ⟨_, ['='], rest, rfl, .notEqual rest⟩
  · refine ⟨ofSingle c, [], cs, rfl, .single hword hdigit hquote fun hc d hd heq => ?_⟩
    obtain rfl : d = '=' := by simpa using heq
    exact hpair ⟨hc, hd⟩

theorem Cut.lexeme_eq {c : Char} {t : Token} {raw : List Char} (h : Cut c t raw rest) :
    lexeme c (raw ++ rest) = (t, rest) := by
  cases h with
  | word hc hrun hrest => exact lexeme_word hc hrun hrest
  | digits hc hword hrun hrest => exact lexeme_digits hc hword hrun hrest
  | quoted _ hrun =>
      rw [List.append_assoc, List.singleton_append]
      exact lexeme_quoted hrun rest
  | unclosed hrun =>
      rw [List.append_nil]
      exact lexeme_unclosed hrun
  | equal | notEqual => rfl
  | single hword hdigit hquote hrest => exact lexeme_single hword hdigit hquote hrest

/-- What follows a token matters only through how it starts. -/
theorem Cut.like {c : Char} {t : Token} {raw a : List Char} (h : Cut c t raw rest)
    (ha : StartsLike rest a) : Cut c t raw a := by
  cases h with
  | word hc hrun hrest => exact .word hc hrun (hrest.like ha)
  | digits hc hword hrun hrest => exact .digits hc hword hrun (hrest.like ha)
  | quoted _ hrun => exact .quoted a hrun
  | unclosed hrun =>
      obtain rfl : a = [] := by simpa [StartsLike] using ha
      exact .unclosed hrun
  | equal => exact .equal a
  | notEqual => exact .notEqual a
  | single hword hdigit hquote hrest =>
      exact .single hword hdigit hquote fun hc => (hrest hc).like ha

/-- A token is cut off at the same place whatever follows it, as long as it starts in the same
    way. -/
theorem lexeme_front (c : Char) (cs : List Char) :
    ∃ t raw rest, cs = raw ++ rest ∧ ∀ a, StartsLike rest a → lexeme c (raw ++ a) = (t, a) := by
  obtain ⟨t, raw, rest, hcs, hcut⟩ := exists_cut c cs
  exact ⟨t, raw, rest, hcs, fun a ha => (hcut.like ha).lexeme_eq⟩

theorem next_front {cs rest : List Char} {t : Token} (h : next cs = (some t, rest)) :
    ∃ raw, cs = raw ++ rest ∧ ∀ a, StartsLike rest a → next (raw ++ a) = (some t, a) := by
  unfold next at h
  split at h
  · simp at h
  · next c cs' hcs =>
    have hc : ¬ isBlank c := endsRun_dropWhile isBlank cs c (by rw [hcs]; rfl)
    obtain ⟨t', raw, rest', rfl, hfront⟩ := lexeme_front c cs'
    rw [hfront rest' (.refl rest')] at h
    obtain ⟨ht, rfl⟩ := Prod.mk.inj h
    obtain rfl := Option.some.inj ht
    have hwhole := (List.takeWhile_append_dropWhile (p := isBlank) (l := cs)).symm
    refine ⟨cs.takeWhile isBlank ++ c :: raw, by rw [hcs] at hwhole; simpa using hwhole, ?_⟩
    intro a ha
    have hblanks : ((cs.takeWhile isBlank ++ c :: raw) ++ a).dropWhile isBlank
        = c :: (raw ++ a) := by
      rw [List.append_assoc]
      exact dropWhile_run (fun d hd => List.mem_takeWhile_imp hd) (by simpa [EndsRun] using hc)
    rw [next, hblanks]
    dsimp only
    rw [hfront a ha]

/-- **Cutting a text between tokens.** If the tokens of a text are cut in two, then so can the text,
    and each part is scanned into its tokens. -/
theorem exists_scan_append {cs : List Char} {ts us : List Token} (h : scan cs = ts ++ us) :
    ∃ a b, cs = a ++ b ∧ scan a = ts ∧ scan b = us := by
  induction ts generalizing cs with
  | nil => exact ⟨[], cs, rfl, scan_of_next_eq_none rfl, h⟩
  | cons t ts ih =>
      rcases hnext : next cs with ⟨_ | t', rest⟩
      · rw [scan_of_next_eq_none hnext] at h
        simp at h
      · rw [scan_of_next_eq_some hnext] at h
        obtain ⟨rfl, hrest⟩ := List.cons.inj h
        obtain ⟨raw, rfl, hfront⟩ := next_front hnext
        obtain ⟨a, b, rfl, ha, hb⟩ := ih hrest
        refine ⟨raw ++ a, b, (List.append_assoc _ _ _).symm, ?_, hb⟩
        rw [scan_of_next_eq_some (hfront a (startsLike_front (List.prefix_append a b))), ha]

/-! ## Scanning what was spelled -/

theorem scan_nil : scan [] = [] :=
  scan_of_next_eq_none rfl

theorem scan_blank {c : Char} (hc : isBlank c) (cs : List Char) : scan (c :: cs) = scan cs := by
  have hnext : next (c :: cs) = next cs := by
    rw [next, next, List.dropWhile_cons_of_pos hc]
  rcases hcs : next cs with ⟨_ | t, rest⟩
  · rw [scan_of_next_eq_none hcs, scan_of_next_eq_none (hnext.trans hcs)]
  · rw [scan_of_next_eq_some hcs, scan_of_next_eq_some (hnext.trans hcs)]

theorem scan_blanks {blanks : List Char} (h : ∀ c ∈ blanks, isBlank c) (cs : List Char) :
    scan (blanks ++ cs) = scan cs := by
  induction blanks with
  | nil => rfl
  | cons c blanks ih =>
      obtain ⟨hc, hblanks⟩ := List.forall_mem_cons.1 h
      rw [List.cons_append, scan_blank hc, ih hblanks]

/-- Only blanks are scanned into nothing. -/
theorem isBlank_of_scan_eq_nil {cs : List Char} (h : scan cs = []) : ∀ c ∈ cs, isBlank c := by
  rcases hnext : next cs with ⟨_ | t, rest⟩
  · unfold next at hnext
    split at hnext
    · next hdrop => exact List.dropWhile_eq_nil_iff.1 hdrop
    · simp at hnext
  · rw [scan_of_next_eq_some hnext] at h
    exact absurd h (List.cons_ne_nil _ _)

theorem scan_lexeme {c : Char} {cs : List Char} {t : Token} (hc : ¬ isBlank c)
    (h : lexeme c cs = (t, rest)) : scan (c :: cs) = t :: scan rest := by
  refine scan_of_next_eq_some ?_
  rw [next, List.dropWhile_cons_of_neg hc]
  dsimp only
  rw [h]

theorem not_isBlank_of_isWordChar {c : Char} (h : isWordChar c) : ¬ isBlank c := by
  intro hblank
  simp only [isBlank, Bool.or_eq_true, decide_eq_true_eq] at hblank
  rcases hblank with ((rfl | rfl) | rfl) | rfl <;> exact absurd h (by decide)

theorem not_isBlank_of_isDigit {c : Char} (h : c.isDigit) : ¬ isBlank c := by
  intro hblank
  simp only [isBlank, Bool.or_eq_true, decide_eq_true_eq] at hblank
  rcases hblank with ((rfl | rfl) | rfl) | rfl <;> exact absurd h (by decide)

theorem not_isWordChar_of_isDigit {c : Char} (h : c.isDigit) : ¬ isWordChar c := by
  have hrange : 48 ≤ c.toNat ∧ c.toNat ≤ 57 := by
    simpa [Char.isDigit, UInt32.le_iff_toNat_le] using h
  intro hword
  have hclass : ((65 ≤ c.toNat ∧ c.toNat ≤ 90) ∨ (97 ≤ c.toNat ∧ c.toNat ≤ 122)) ∨ c = '_' := by
    simpa [isWordChar, Char.isAlpha, Char.isUpper, Char.isLower, UInt32.le_iff_toNat_le] using hword
  rcases hclass with (hupper | hlower) | rfl
  · omega
  · omega
  · exact absurd hrange (by decide)

theorem scan_word {word : String} (hne : word ≠ "") (hword : ∀ c ∈ word.toList, isWordChar c)
    (hrest : EndsRun isWordChar rest) :
    scan (word.toList ++ rest) = ofWord word :: scan rest := by
  cases hchars : word.toList with
  | nil => exact absurd (String.toList_eq_nil_iff.1 hchars) hne
  | cons c run =>
      rw [hchars] at hword
      obtain ⟨hc, hrun⟩ := List.forall_mem_cons.1 hword
      rw [List.cons_append, scan_lexeme (not_isBlank_of_isWordChar hc)
        (lexeme_word hc hrun hrest), ← hchars, String.ofList_toList]

theorem scan_digits {digits : String} (hne : digits ≠ "") (hdigits : ∀ c ∈ digits.toList, c.isDigit)
    (hrest : EndsRun Char.isDigit rest) :
    scan (digits.toList ++ rest) = .int digits :: scan rest := by
  cases hchars : digits.toList with
  | nil => exact absurd (String.toList_eq_nil_iff.1 hchars) hne
  | cons c run =>
      rw [hchars] at hdigits
      obtain ⟨hc, hrun⟩ := List.forall_mem_cons.1 hdigits
      rw [List.cons_append, scan_lexeme (not_isBlank_of_isDigit hc)
        (lexeme_digits hc (not_isWordChar_of_isDigit hc) hrun hrest), ← hchars,
        String.ofList_toList]

theorem scan_quoted {contents : String} (hcontents : ∀ c ∈ contents.toList, ¬ isQuote c)
    (rest : List Char) :
    scan ('"' :: (contents.toList ++ '"' :: rest)) = .str contents :: scan rest := by
  rw [scan_lexeme (by decide) (lexeme_quoted hcontents rest), String.ofList_toList]

/-- A symbol is scanned as such, whatever follows it unless it is `=` or `!`. -/
theorem scan_symbol (s : Symbol) (hrest : s ∈ [.assign, .bang] → EndsRun (· = '=') rest) :
    scan (s.text.toList ++ rest) = .symbol s :: scan rest := by
  cases s with
  | equal => exact scan_lexeme (c := '=') (by decide) rfl
  | notEqual => exact scan_lexeme (c := '!') (by decide) rfl
  | assign | bang =>
      exact scan_lexeme (by decide) (lexeme_single (by decide) (by decide) (by decide)
        (fun _ => hrest (by simp)))
  | _ =>
      exact scan_lexeme (by decide) (lexeme_single (by decide) (by decide) (by decide)
        (fun h => absurd h (by decide)))

/-! ## Going on after a semicolon -/

theorem lexeme_semicolon {c : Char} {cs : List Char}
    (h : lexeme c cs = (.symbol .semicolon, rest)) : c = ';' ∧ rest = cs := by
  unfold lexeme at h
  split at h
  · have htoken := (Prod.mk.inj h).1
    unfold ofWord at htoken
    split at htoken <;> simp at htoken
  split at h
  · simp at h
  split at h
  · simp at h
  split at h
  · simp at h
  · simp at h
  · split at h
    · next s hs =>
      obtain ⟨hsymbol, rfl⟩ := Prod.mk.inj h
      refine ⟨?_, rfl⟩
      rw [Token.symbol.inj hsymbol] at hs
      unfold Symbol.ofChar? at hs
      split at hs <;> simp_all
    · simp at h

/-- A `;` at the front of a text ends its token whatever follows. -/
theorem scan_semicolon_append {cs : List Char} (h : next cs = (some (.symbol .semicolon), rest))
    (a : List Char) : scan (cs ++ a) = .symbol .semicolon :: scan (rest ++ a) := by
  have hcs := (List.takeWhile_append_dropWhile (p := isBlank) (l := cs)).symm
  have hblanks : ∀ c ∈ cs.takeWhile isBlank, isBlank c := fun c hc => List.mem_takeWhile_imp hc
  unfold next at h
  split at h
  · simp at h
  · next c cs' hdrop =>
    rcases hlexeme : lexeme c cs' with ⟨t, rest'⟩
    rw [hlexeme] at h
    obtain ⟨ht, rfl⟩ := Prod.mk.inj h
    rw [Option.some.inj ht] at hlexeme
    obtain ⟨rfl, rfl⟩ := lexeme_semicolon hlexeme
    rw [hcs, hdrop, List.append_assoc, scan_blanks hblanks]
    exact @scan_symbol (rest' ++ a) .semicolon (by simp)

/-- **Putting texts together.** What comes after a text whose last token is a `;` is scanned as it
    is alone. -/
theorem scan_append {a : List Char} {ts : List Token} (h : scan a = ts ++ [.symbol .semicolon])
    (b : List Char) : scan (a ++ b) = scan a ++ scan b := by
  induction ts generalizing a with
  | nil =>
      rcases hnext : next a with ⟨_ | t, rest⟩
      · rw [scan_of_next_eq_none hnext] at h
        simp at h
      · rw [scan_of_next_eq_some hnext] at h
        obtain ⟨rfl, hrest⟩ := List.cons.inj h
        rw [scan_semicolon_append hnext, scan_blanks (isBlank_of_scan_eq_nil hrest),
          scan_of_next_eq_some hnext, hrest, List.singleton_append]
  | cons t ts ih =>
      rcases hnext : next a with ⟨_ | t', rest⟩
      · rw [scan_of_next_eq_none hnext] at h
        simp at h
      · rw [scan_of_next_eq_some hnext] at h
        obtain ⟨rfl, hrest⟩ := List.cons.inj h
        obtain ⟨raw, rfl, hfront⟩ := next_front hnext
        -- The token is followed by another one, so it has stopped before the end of the text.
        have hne : rest ≠ [] := by
          rintro rfl
          rw [scan_nil] at hrest
          simp at hrest
        rw [List.append_assoc, scan_of_next_eq_some (hfront _ (startsLike_append hne b)),
          scan_of_next_eq_some hnext, ih hrest, List.cons_append]

/-- A text that starts with `=` is scanned as `=` or `==` first. -/
theorem exists_scan_equals (cs : List Char) :
    ∃ s ∈ [Symbol.assign, .equal], ∃ rest, scan ('=' :: cs) = .symbol s :: scan rest := by
  by_cases hcs : cs.head? = some '='
  · obtain ⟨rest, rfl⟩ := List.head?_eq_some_iff.1 hcs
    exact ⟨.equal, by simp, rest, scan_lexeme (by decide) rfl⟩
  · refine ⟨.assign, by simp, cs, scan_symbol .assign fun _ c hc heq => hcs ?_⟩
    obtain rfl : c = '=' := by simpa using heq
    exact hc

end ConstScript.Token
