import ConstScript.Proofs.Token.Spelling

set_option autoImplicit false

/-! # The longest match

Which tokens a text consists of can be said without reading it from left to right. `IsLexeme` lists
the patterns that tokens are written by. At the front of a text the longest lexeme is `Taken`, a
reserved word rather than the name that is spelled like it, or else a single character that no lexeme
starts with; and a text `Tokenizes` as such tokens one after another, with blanks between them.

There is one way to cut a text in this manner, and scanning finds it (`scan_tokenization`). What
may follow a token is a consequence: a longer lexeme would have been taken. -/

namespace ConstScript.Token

/-! ## Lexemes -/

/-- The characters are a lexeme that stands for the token. A reserved word is a lexeme of two tokens,
    and a string literal is one with its closing quote and without. -/
inductive IsLexeme : Token → List Char → Prop
  | keyword (k : Keyword) : IsLexeme (.keyword k) k.text.toList
  | word {run : List Char} : run ≠ [] → (∀ c ∈ run, isWordChar c) →
      IsLexeme (.ident (String.ofList run)) run
  | digits {run : List Char} : run ≠ [] → (∀ c ∈ run, c.isDigit) →
      IsLexeme (.int (String.ofList run)) run
  | quoted {run : List Char} : (∀ c ∈ run, ¬ isQuote c) →
      IsLexeme (.str (String.ofList run)) ('"' :: (run ++ ['"']))
  | unclosed {run : List Char} : (∀ c ∈ run, ¬ isQuote c) →
      IsLexeme (.str (String.ofList run)) ('"' :: run)
  | symbol (s : Symbol) : IsLexeme (.symbol s) s.text.toList

/-- What the characters of a lexeme that starts with `c` can be. -/
inductive Shape (c : Char) : List Char → Prop
  | word {cs : List Char} : isWordChar c → (∀ d ∈ cs, isWordChar d) → Shape c cs
  | digits {cs : List Char} : c.isDigit → (∀ d ∈ cs, d.isDigit) → Shape c cs
  | quoted {run : List Char} : isQuote c → (∀ d ∈ run, ¬ isQuote d) → Shape c (run ++ ['"'])
  | unclosed {run : List Char} : isQuote c → (∀ d ∈ run, ¬ isQuote d) → Shape c run
  | single {s : Symbol} : Symbol.ofChar? c = some s → Shape c []
  | double : c ∈ ['=', '!'] → Shape c ['=']

variable {t u : Token} {raw rest : List Char}

theorem IsLexeme.exists_shape (h : IsLexeme t raw) : ∃ c cs, raw = c :: cs ∧ Shape c cs := by
  cases h with
  | keyword k =>
      have hall : k.text.toList.all isWordChar := by cases k <;> rfl
      cases hchars : k.text.toList with
      | nil => cases k <;> exact absurd hchars (by decide)
      | cons c cs =>
          rw [hchars, List.all_cons, Bool.and_eq_true] at hall
          exact ⟨c, cs, rfl, .word hall.1 (List.all_eq_true.1 hall.2)⟩
  | word hne hrun =>
      obtain ⟨c, cs, rfl⟩ := List.exists_cons_of_ne_nil hne
      obtain ⟨hc, hcs⟩ := List.forall_mem_cons.1 hrun
      exact ⟨c, cs, rfl, .word hc hcs⟩
  | digits hne hrun =>
      obtain ⟨c, cs, rfl⟩ := List.exists_cons_of_ne_nil hne
      obtain ⟨hc, hcs⟩ := List.forall_mem_cons.1 hrun
      exact ⟨c, cs, rfl, .digits hc hcs⟩
  | quoted hrun => exact ⟨'"', _, rfl, .quoted rfl hrun⟩
  | unclosed hrun => exact ⟨'"', _, rfl, .unclosed rfl hrun⟩
  | symbol s =>
      cases s with
      | equal => exact ⟨'=', _, rfl, .double (by simp)⟩
      | notEqual => exact ⟨'!', _, rfl, .double (by simp)⟩
      | _ => exact ⟨_, _, rfl, .single rfl⟩

/-! ## Taking the longest lexeme -/

/-- At the front of a text, no lexeme is longer, and none of the same length is a reserved word. -/
structure Longest (t : Token) (raw rest : List Char) : Prop where
  isLexeme : IsLexeme t raw
  length_le : ∀ (u : Token) (front : List Char), IsLexeme u front → front <+: raw ++ rest →
    front.length ≤ raw.length
  reserved : ∀ k : Keyword, raw = k.text.toList → t = .keyword k

/-- The character is no blank, and no lexeme starts with it. -/
def StartsNothing (c : Char) : Prop :=
  ¬ isBlank c ∧ ∀ (u : Token) (front : List Char), IsLexeme u front → front.head? ≠ some c

/-- The token is taken from the front of a text: as the longest lexeme, or as a single character
    where there is no lexeme. -/
inductive Taken : Token → List Char → List Char → Prop
  | lexeme {t : Token} {raw rest : List Char} : Longest t raw rest → Taken t raw rest
  | illegal {c : Char} (rest : List Char) : StartsNothing c → Taken (.illegal c) [c] rest

/-- Of a run that ends before `rest` no more can be taken. -/
theorem length_le_of_run {p : Char → Bool} {front : List Char} (hfront : ∀ c ∈ front, p c)
    (hrest : EndsRun p rest) (h : front <+: raw ++ rest) : front.length ≤ raw.length := by
  obtain ⟨tail, htail⟩ := h
  rcases List.append_eq_append_iff.1 htail with ⟨as, rfl, -⟩ | ⟨bs, rfl, rfl⟩
  · rw [List.length_append]
    exact Nat.le_add_right _ _
  · cases bs with
    | nil => rw [List.append_nil]
    | cons d ds => exact absurd (hfront d (by simp)) (hrest d rfl)

theorem isWordChar_of_mem_text {k : Keyword} {c : Char} (h : c ∈ k.text.toList) :
    isWordChar c := by
  have hall : k.text.toList.all isWordChar := by cases k <;> rfl
  exact List.all_eq_true.1 hall c h

theorem not_in_run_of_mem {c : Char} (hc : c ∈ ['=', '!']) :
    ¬ isWordChar c ∧ ¬ c.isDigit ∧ ¬ isQuote c := by
  simp only [List.mem_cons, List.not_mem_nil, or_false] at hc
  rcases hc with rfl | rfl <;> decide

/-- It is enough to compare with what can follow the first character. -/
theorem length_le_of_shape {c : Char} (h : ∀ cs, Shape c cs → cs <+: raw ++ rest →
    cs.length ≤ raw.length) (u : Token) (front : List Char) (hu : IsLexeme u front)
    (hfront : front <+: c :: raw ++ rest) : front.length ≤ (c :: raw).length := by
  obtain ⟨d, cs, rfl, hshape⟩ := hu.exists_shape
  obtain ⟨rfl, hcs⟩ := List.cons_prefix_cons.1 hfront
  exact Nat.succ_le_succ (h cs hshape hcs)

theorem Longest.ofShape {c : Char} (hc : ¬ isWordChar c) (ht : IsLexeme t (c :: raw))
    (h : ∀ cs, Shape c cs → cs <+: raw ++ rest → cs.length ≤ raw.length) :
    Longest t (c :: raw) rest where
  isLexeme := ht
  length_le := length_le_of_shape h
  reserved _ hk := absurd (isWordChar_of_mem_text (hk ▸ List.mem_cons_self)) hc

/-! ### Words, digits and string literals -/

theorem longest_word {c : Char} {run : List Char} (hc : isWordChar c)
    (hrun : ∀ d ∈ run, isWordChar d) (hrest : EndsRun isWordChar rest) :
    Longest (ofWord (String.ofList (c :: run))) (c :: run) rest where
  isLexeme := by
    unfold ofWord
    split
    · next k hk =>
      have htext : c :: run = k.text.toList := by
        rw [Keyword.text_of_ofText? hk, String.toList_ofList]
      rw [htext]
      exact .keyword k
    · exact .word (by simp) (List.forall_mem_cons.2 ⟨hc, hrun⟩)
  length_le := length_le_of_shape fun cs hshape hcs => by
    cases hshape with
    | word _ hall => exact length_le_of_run hall hrest hcs
    | digits hdigit _ => exact absurd hc (not_isWordChar_of_isDigit hdigit)
    | quoted hquote _ | unclosed hquote _ =>
        obtain rfl : c = '"' := by simpa [isQuote] using hquote
        exact absurd hc (by decide)
    | single _ => exact Nat.zero_le _
    | double hmem => exact absurd hc (not_in_run_of_mem hmem).1
  reserved k hk := by
    rw [hk, String.ofList_toList, ofWord, Keyword.ofText?_text]

theorem longest_digits {c : Char} {run : List Char} (hc : c.isDigit)
    (hrun : ∀ d ∈ run, d.isDigit) (hrest : EndsRun Char.isDigit rest) :
    Longest (.int (String.ofList (c :: run))) (c :: run) rest := by
  refine .ofShape (not_isWordChar_of_isDigit hc)
    (.digits (by simp) (List.forall_mem_cons.2 ⟨hc, hrun⟩)) fun cs hshape hcs => ?_
  cases hshape with
  | word hword _ => exact absurd hword (not_isWordChar_of_isDigit hc)
  | digits _ hall => exact length_le_of_run hall hrest hcs
  | quoted hquote _ | unclosed hquote _ =>
      obtain rfl : c = '"' := by simpa [isQuote] using hquote
      exact absurd hc (by decide)
  | single _ => exact Nat.zero_le _
  | double hmem => exact absurd hc (not_in_run_of_mem hmem).2.1

/-- What a lexeme that starts with a quote goes on with. -/
theorem Shape.of_quote {cs : List Char} (h : Shape '"' cs) :
    ∃ run, (∀ d ∈ run, ¬ isQuote d) ∧ (cs = run ++ ['"'] ∨ cs = run) := by
  cases h with
  | word hword _ => exact absurd hword (by decide)
  | digits hdigit _ => exact absurd hdigit (by decide)
  | quoted _ hrun => exact ⟨_, hrun, .inl rfl⟩
  | unclosed _ hrun => exact ⟨_, hrun, .inr rfl⟩
  | single hs => exact absurd hs (by simp [Symbol.ofChar?])
  | double hmem => exact absurd hmem (by decide)

theorem longest_quoted {run : List Char} (hrun : ∀ d ∈ run, ¬ isQuote d) (rest : List Char) :
    Longest (.str (String.ofList run)) ('"' :: (run ++ ['"'])) rest := by
  refine .ofShape (by decide) (.quoted hrun) fun cs hshape hcs => ?_
  have hends : EndsRun (fun d => !isQuote d) ('"' :: rest) := by
    intro c hc
    obtain rfl : '"' = c := Option.some.inj hc
    decide
  rw [List.append_assoc, List.singleton_append] at hcs
  have hle : ∀ front : List Char, (∀ d ∈ front, ¬ isQuote d) →
      front <+: run ++ '"' :: rest → front.length ≤ run.length :=
    fun front hfront => length_le_of_run (by simpa using hfront) hends
  obtain ⟨front, hfront, rfl | rfl⟩ := hshape.of_quote
  · have hlength := hle front hfront ((List.prefix_append front ['"']).trans hcs)
    simpa using hlength
  · exact Nat.le_trans (hle _ hfront hcs) (by simp)

theorem longest_unclosed {run : List Char} (hrun : ∀ d ∈ run, ¬ isQuote d) :
    Longest (.str (String.ofList run)) ('"' :: run) [] := by
  refine .ofShape (by decide) (.unclosed hrun) fun cs _ hcs => ?_
  rw [List.append_nil] at hcs
  exact hcs.length_le

/-! ### Symbols and other characters -/

/-- What a lexeme goes on with that starts with none of the characters of a run. -/
theorem Shape.of_single {c : Char} {cs : List Char} (h : Shape c cs) (hword : ¬ isWordChar c)
    (hdigit : ¬ c.isDigit) (hquote : ¬ isQuote c) :
    ((Symbol.ofChar? c).isSome ∧ cs = []) ∨ (c ∈ ['=', '!'] ∧ cs = ['=']) := by
  cases h with
  | word h _ => exact absurd h hword
  | digits h _ => exact absurd h hdigit
  | quoted h _ | unclosed h _ => exact absurd h hquote
  | single h => exact .inl ⟨by rw [h]; rfl, rfl⟩
  | double h => exact .inr ⟨h, rfl⟩

theorem longest_double {c : Char} {s : Symbol} (hs : s.text.toList = [c, '=']) (hc : c ∈ ['=', '!'])
    (rest : List Char) : Longest (.symbol s) [c, '='] rest := by
  obtain ⟨hword, hdigit, hquote⟩ := not_in_run_of_mem hc
  refine .ofShape hword (hs ▸ .symbol s) fun cs hshape _ => ?_
  rcases hshape.of_single hword hdigit hquote with ⟨-, rfl⟩ | ⟨-, rfl⟩
  · exact Nat.zero_le _
  · exact Nat.le_refl _

theorem text_of_ofChar? {c : Char} {s : Symbol} (h : Symbol.ofChar? c = some s) :
    s.text.toList = [c] := by
  unfold Symbol.ofChar? at h
  split at h <;> first | exact Option.some.inj h ▸ rfl | exact absurd h (by simp)

theorem taken_single {c : Char} (hblank : ¬ isBlank c) (hword : ¬ isWordChar c)
    (hdigit : ¬ c.isDigit) (hquote : ¬ isQuote c)
    (hrest : c ∈ ['=', '!'] → EndsRun (· = '=') rest) : Taken (ofSingle c) [c] rest := by
  unfold ofSingle
  split
  · next s hs =>
    refine .lexeme (.ofShape hword (text_of_ofChar? hs ▸ .symbol s) fun cs hshape hcs => ?_)
    rcases hshape.of_single hword hdigit hquote with ⟨-, rfl⟩ | ⟨hmem, rfl⟩
    · exact Nat.le_refl _
    · exact length_le_of_run (by simp) (hrest hmem) hcs
  · next hnone =>
    refine .illegal rest ⟨hblank, fun u front hu hhead => ?_⟩
    obtain ⟨d, cs, rfl, hshape⟩ := hu.exists_shape
    obtain rfl : d = c := Option.some.inj hhead
    rcases hshape.of_single hword hdigit hquote with ⟨hsome, -⟩ | ⟨hmem, -⟩
    · rw [hnone] at hsome
      exact absurd hsome (by decide)
    · simp only [List.mem_cons, List.not_mem_nil, or_false] at hmem
      rcases hmem with rfl | rfl <;> exact absurd hnone (by decide)

/-- What scanning cuts off is the longest lexeme, or a character that starts none. -/
theorem Cut.taken {c : Char} (h : Cut c t raw rest) (hblank : ¬ isBlank c) :
    Taken t (c :: raw) rest := by
  cases h with
  | word hc hrun hrest => exact .lexeme (longest_word hc hrun hrest)
  | digits hc _ hrun hrest => exact .lexeme (longest_digits hc hrun hrest)
  | quoted _ hrun => exact .lexeme (longest_quoted hrun rest)
  | unclosed hrun => exact .lexeme (longest_unclosed hrun)
  | equal => exact .lexeme (longest_double (c := '=') (s := .equal) rfl (by simp) rest)
  | notEqual => exact .lexeme (longest_double (c := '!') (s := .notEqual) rfl (by simp) rest)
  | single hword hdigit hquote hrest => exact taken_single hblank hword hdigit hquote hrest

/-! ### No other token -/

theorem IsLexeme.ne_nil (h : IsLexeme t raw) : raw ≠ [] := by
  obtain ⟨c, cs, rfl, -⟩ := h.exists_shape
  exact List.cons_ne_nil c cs

theorem Taken.ne_nil (h : Taken t raw rest) : raw ≠ [] := by
  cases h with
  | lexeme h => exact h.isLexeme.ne_nil
  | illegal _ _ => exact List.cons_ne_nil _ _

/-- No token starts with a blank. -/
theorem Taken.endsRun_isBlank (h : Taken t raw rest) : EndsRun isBlank (raw ++ rest) := by
  cases h with
  | illegal _ hc => simpa [EndsRun] using hc.1
  | lexeme h =>
      obtain ⟨c, cs, rfl, hshape⟩ := h.isLexeme.exists_shape
      have hblank : ¬ isBlank c := by
        cases hshape with
        | word hc _ => exact not_isBlank_of_isWordChar hc
        | digits hc _ => exact not_isBlank_of_isDigit hc
        | quoted hc _ | unclosed hc _ =>
            obtain rfl : c = '"' := by simpa [isQuote] using hc
            decide
        | single hs =>
            intro hblank
            simp only [isBlank, Bool.or_eq_true, decide_eq_true_eq] at hblank
            rcases hblank with ((rfl | rfl) | rfl) | rfl <;> simp [Symbol.ofChar?] at hs
        | double hmem =>
            simp only [List.mem_cons, List.not_mem_nil, or_false] at hmem
            rcases hmem with rfl | rfl <;> decide
      simpa [EndsRun] using hblank

/-- A lexeme that is no reserved word is cut off as the token that it stands for. -/
theorem IsLexeme.exists_cut (h : IsLexeme t raw) (hraw : ∀ k : Keyword, raw ≠ k.text.toList) :
    ∃ c cs, raw = c :: cs ∧ Cut c t cs [] := by
  have hend : ∀ p : Char → Bool, EndsRun p [] := by simp [EndsRun]
  cases h with
  | keyword k => exact absurd rfl (hraw k)
  | word hne hrun =>
      obtain ⟨c, cs, rfl⟩ := List.exists_cons_of_ne_nil hne
      obtain ⟨hc, hcs⟩ := List.forall_mem_cons.1 hrun
      have hname : Keyword.ofText? (String.ofList (c :: cs)) = none := by
        rw [Option.eq_none_iff_forall_ne_some]
        intro k hk
        exact hraw k (by rw [Keyword.text_of_ofText? hk, String.toList_ofList])
      have hcut : Cut c (ofWord (String.ofList (c :: cs))) cs [] := .word hc hcs (hend _)
      rw [ofWord, hname] at hcut
      exact ⟨c, cs, rfl, hcut⟩
  | digits hne hrun =>
      obtain ⟨c, cs, rfl⟩ := List.exists_cons_of_ne_nil hne
      obtain ⟨hc, hcs⟩ := List.forall_mem_cons.1 hrun
      exact ⟨c, cs, rfl, .digits hc (not_isWordChar_of_isDigit hc) hcs (hend _)⟩
  | quoted hrun => exact ⟨'"', _, rfl, .quoted [] hrun⟩
  | unclosed hrun => exact ⟨'"', _, rfl, .unclosed hrun⟩
  | symbol s =>
      cases s with
      | equal => exact ⟨'=', _, rfl, .equal []⟩
      | notEqual => exact ⟨'!', _, rfl, .notEqual []⟩
      | _ =>
          exact ⟨_, _, rfl, .single (by decide) (by decide) (by decide) fun _ => hend _⟩

theorem IsLexeme.unique (ht : IsLexeme t raw) (hu : IsLexeme u raw)
    (hraw : ∀ k : Keyword, raw ≠ k.text.toList) : t = u := by
  obtain ⟨c, cs, rfl, hcut⟩ := ht.exists_cut hraw
  obtain ⟨d, ds, hds, hcut'⟩ := hu.exists_cut hraw
  obtain ⟨rfl, rfl⟩ := List.cons.inj hds
  exact (Prod.mk.inj (hcut.lexeme_eq.symm.trans hcut'.lexeme_eq)).1

/-- The front of a text can be taken in one way. -/
theorem Taken.unique {raw' rest' : List Char} (h : Taken t raw rest) (h' : Taken u raw' rest')
    (hcs : raw ++ rest = raw' ++ rest') : t = u ∧ raw = raw' ∧ rest = rest' := by
  have hhead : raw.head? = raw'.head? := by
    have hheads := congrArg List.head? hcs
    rwa [List.head?_append_of_ne_nil _ h.ne_nil, List.head?_append_of_ne_nil _ h'.ne_nil] at hheads
  cases h with
  | lexeme h =>
      cases h' with
      | lexeme h' =>
          have hle := h.length_le u raw' h'.isLexeme ⟨rest', hcs.symm⟩
          have hle' := h'.length_le t raw h.isLexeme ⟨rest, hcs⟩
          obtain ⟨rfl, rfl⟩ := List.append_inj hcs (Nat.le_antisymm hle' hle)
          refine ⟨?_, rfl, rfl⟩
          by_cases hraw : ∃ k : Keyword, raw = k.text.toList
          · obtain ⟨k, hk⟩ := hraw
            rw [h.reserved k hk, h'.reserved k hk]
          · exact h.isLexeme.unique h'.isLexeme (by simpa using hraw)
      | illegal _ hc => exact absurd hhead (hc.2 t raw h.isLexeme)
  | illegal _ hc =>
      cases h' with
      | lexeme h' => exact absurd hhead.symm (hc.2 u raw' h'.isLexeme)
      | illegal _ _ =>
          obtain ⟨rfl, rfl⟩ := List.cons.inj hcs
          exact ⟨rfl, rfl, rfl⟩

/-! ## Cutting a whole text -/

/-- A token where it stands in a text: after some blanks, and written with some characters. -/
@[ext]
structure Occurrence where
  blanks : List Char
  token : Token
  raw : List Char

/-- The stretch of the text that an occurrence takes up. -/
def Occurrence.chars (o : Occurrence) : List Char := o.blanks ++ o.raw

/-- The text is these tokens one after another, each taken where the one before it has stopped, and
    then the last blanks. -/
inductive Tokenizes : List Occurrence → List Char → List Char → Prop
  | done {last : List Char} : (∀ c ∈ last, isBlank c) → Tokenizes [] last last
  | next {o : Occurrence} {os : List Occurrence} {last rest : List Char} :
      (∀ c ∈ o.blanks, isBlank c) → Taken o.token o.raw rest → Tokenizes os last rest →
      Tokenizes (o :: os) last (o.blanks ++ (o.raw ++ rest))

theorem exists_tokenizes (cs : List Char) : ∃ os last, Tokenizes os last cs ∧
    os.map Occurrence.token = scan cs := by
  have hblanks : ∀ c ∈ cs.takeWhile isBlank, isBlank c := fun c hc => List.mem_takeWhile_imp hc
  have hcs := (List.takeWhile_append_dropWhile (p := isBlank) (l := cs)).symm
  cases hdrop : cs.dropWhile isBlank with
  | nil =>
      have hnext : next cs = (none, []) := by rw [next, hdrop]
      refine ⟨[], cs, .done (List.dropWhile_eq_nil_iff.1 hdrop), ?_⟩
      rw [scan_of_next_eq_none hnext, List.map_nil]
  | cons c rest =>
      have hc : ¬ isBlank c := endsRun_dropWhile isBlank cs c (by rw [hdrop]; rfl)
      obtain ⟨t, raw, rest, rfl, hcut⟩ := exists_cut c rest
      have hlt : rest.length < cs.length := by
        rw [hcs, hdrop]
        simp only [List.length_append, List.length_cons]
        omega
      obtain ⟨os, last, hrest, htokens⟩ := exists_tokenizes rest
      refine ⟨⟨cs.takeWhile isBlank, t, c :: raw⟩ :: os, last, ?_, ?_⟩
      · have hnext := Tokenizes.next (o := ⟨cs.takeWhile isBlank, t, c :: raw⟩) hblanks
          (hcut.taken hc) hrest
        rwa [List.cons_append, ← hdrop, ← hcs] at hnext
      · have hscan : scan cs = t :: scan rest := by
          conv => lhs; rw [hcs, hdrop]
          rw [scan_blanks hblanks, scan_lexeme hc hcut.lexeme_eq]
        rw [hscan, List.map_cons, htokens]
termination_by cs.length

theorem Tokenizes.unique {os os' : List Occurrence} {last last' cs : List Char}
    (h : Tokenizes os last cs) (h' : Tokenizes os' last' cs) : os' = os ∧ last' = last := by
  induction h generalizing os' last' with
  | @done last hlast =>
      generalize hcs : last = cs at h'
      cases h' with
      | done => exact ⟨rfl, rfl⟩
      | next _ htaken _ =>
          -- The first character of a token is no blank.
          obtain ⟨c, cs, hraw⟩ := List.exists_cons_of_ne_nil htaken.ne_nil
          have hc := htaken.endsRun_isBlank c (by rw [hraw]; rfl)
          exact absurd (hlast c (by simp [hcs, hraw])) hc
  | @next o os last rest hblanks htaken _ ih =>
      generalize hcs : o.blanks ++ (o.raw ++ rest) = cs at h'
      cases h' with
      | done hlast =>
          obtain ⟨c, cs, hraw⟩ := List.exists_cons_of_ne_nil htaken.ne_nil
          have hc := htaken.endsRun_isBlank c (by rw [hraw]; rfl)
          exact absurd (hlast c (by simp [← hcs, hraw])) hc
      | @next o' os' _ rest' hblanks' htaken' hrest' =>
          have heq : o.blanks = o'.blanks := by
            rw [← takeWhile_run hblanks htaken.endsRun_isBlank, hcs,
              takeWhile_run hblanks' htaken'.endsRun_isBlank]
          rw [heq] at hcs
          obtain ⟨htoken, hraw, rfl⟩ := htaken.unique htaken' (List.append_cancel_left hcs)
          obtain ⟨rfl, rfl⟩ := ih hrest'
          have ho : o = o' := Occurrence.ext heq htoken hraw
          exact ⟨ho ▸ rfl, rfl⟩

theorem Tokenizes.chars_eq {os : List Occurrence} {last cs : List Char}
    (h : Tokenizes os last cs) : os.flatMap Occurrence.chars ++ last = cs := by
  induction h with
  | done => rfl
  | next _ _ _ ih => rw [List.flatMap_cons, List.append_assoc, ih, Occurrence.chars,
      List.append_assoc]

theorem Tokenizes.blanks {os : List Occurrence} {last cs : List Char}
    (h : Tokenizes os last cs) : ∀ c ∈ last, isBlank c := by
  induction h with
  | done hlast => exact hlast
  | next _ _ _ ih => exact ih

/-- There is nothing in an empty text. -/
theorem Tokenizes.eq_nil {os : List Occurrence} {last : List Char}
    (h : Tokenizes os last []) : os = [] ∧ last = [] := by
  generalize hcs : ([] : List Char) = cs at h
  cases h with
  | done => exact ⟨rfl, rfl⟩
  | next _ htaken _ =>
      have hraw := (List.append_eq_nil_iff.1 (List.append_eq_nil_iff.1 hcs.symm).2).1
      exact absurd hraw htaken.ne_nil

/-- What is true of the first token is true of each in what is left of the text. -/
theorem Tokenizes.exists_rest {before after : List Occurrence} {o : Occurrence}
    {last cs : List Char} (h : Tokenizes (before ++ o :: after) last cs) :
    ∃ rest, (∀ c ∈ o.blanks, isBlank c) ∧ Taken o.token o.raw rest ∧
      Tokenizes after last rest := by
  induction before generalizing cs with
  | nil =>
      cases h with
      | next hblanks htaken hrest => exact ⟨_, hblanks, htaken, hrest⟩
  | cons b before ih =>
      cases h with
      | next _ _ hrest => exact ih hrest

/-! ## What a token looks like and what follows it -/

/-- The characters by which a token is written: its text, and quotes around the contents of a string
    literal. -/
def written : Token → List Char
  | str contents => '"' :: (contents.toList ++ ['"'])
  | t => t.literal.toList

/-- The characters that a token would have taken, too. -/
def growsBy : Token → Char → Bool
  | ident _ | keyword _ => isWordChar
  | int _ => Char.isDigit
  | symbol .assign | symbol .bang => (· = '=')
  | _ => fun _ => false

/-- A string literal lacks its closing quote only at the end of the text. -/
theorem Taken.raw_eq (h : Taken t raw rest) : raw = t.written ∨
    ∃ contents, t = .str contents ∧ raw = '"' :: contents.toList ∧ rest = [] := by
  cases h with
  | @illegal c => exact .inl (String.toList_singleton c).symm
  | lexeme h =>
      obtain ⟨hlexeme, hle, -⟩ := h
      cases hlexeme with
      | keyword | symbol => exact .inl rfl
      | word | digits => exact .inl (String.toList_ofList).symm
      | quoted => exact .inl (by rw [written, String.toList_ofList])
      | @unclosed run hrun =>
          refine .inr ⟨_, rfl, by rw [String.toList_ofList], ?_⟩
          -- With one more character, a quote or not, this would be a longer literal.
          cases rest with
          | nil => rfl
          | cons c cs =>
              have hlonger : IsLexeme (.str (String.ofList run)) ('"' :: (run ++ [c])) ∨
                  IsLexeme (.str (String.ofList (run ++ [c]))) ('"' :: (run ++ [c])) := by
                by_cases hc : isQuote c
                · obtain rfl : c = '"' := by simpa [isQuote] using hc
                  exact .inl (.quoted hrun)
                · exact .inr (.unclosed
                    (List.forall_mem_append.2 ⟨hrun, List.forall_mem_singleton.2 hc⟩))
              have hfront : '"' :: (run ++ [c]) <+: '"' :: run ++ c :: cs := ⟨cs, by simp⟩
              have hlength : ('"' :: (run ++ [c])).length ≤ ('"' :: run).length :=
                hlonger.elim (hle _ _ · hfront) (hle _ _ · hfront)
              simp at hlength

theorem Taken.endsRun_growsBy (h : Taken t raw rest) : EndsRun t.growsBy rest := by
  intro c hc hgrows
  obtain ⟨cs, rfl⟩ := List.head?_eq_some_iff.1 hc
  cases h with
  | illegal => exact absurd hgrows (by simp [growsBy])
  | lexeme h =>
      obtain ⟨hlexeme, hle, -⟩ := h
      have hlonger : ∃ u, IsLexeme u (raw ++ [c]) := by
        cases hlexeme with
        | keyword k =>
            exact ⟨_, .word (by simp) (List.forall_mem_append.2
              ⟨fun _ => isWordChar_of_mem_text, List.forall_mem_singleton.2 hgrows⟩)⟩
        | word _ hrun =>
            exact ⟨_, .word (by simp) (List.forall_mem_append.2
              ⟨hrun, List.forall_mem_singleton.2 hgrows⟩)⟩
        | digits _ hrun =>
            exact ⟨_, .digits (by simp) (List.forall_mem_append.2
              ⟨hrun, List.forall_mem_singleton.2 hgrows⟩)⟩
        | quoted | unclosed => exact absurd hgrows (by simp [growsBy])
        | symbol s =>
            cases s with
            | assign =>
                obtain rfl : c = '=' := by simpa [growsBy] using hgrows
                exact ⟨_, .symbol .equal⟩
            | bang =>
                obtain rfl : c = '=' := by simpa [growsBy] using hgrows
                exact ⟨_, .symbol .notEqual⟩
            | _ => exact absurd hgrows (by simp [growsBy])
      obtain ⟨u, hu⟩ := hlonger
      have hlength := hle u (raw ++ [c]) hu ⟨cs, by simp⟩
      simp at hlength

theorem Taken.keyword_iff (h : Taken t raw rest) (k : Keyword) :
    t = .keyword k ↔ raw = k.text.toList := by
  cases h with
  | lexeme h =>
      refine ⟨?_, h.reserved k⟩
      rintro rfl
      obtain ⟨hlexeme, -⟩ := h
      cases hlexeme with
      | keyword => rfl
  | @illegal c _ hc =>
      refine ⟨fun h => by simp at h, fun hraw => ?_⟩
      exact absurd (by rw [← hraw]; rfl) (hc.2 _ _ (.keyword k))

theorem Taken.illegal_eq {c : Char} (h : Taken (.illegal c) raw rest) :
    raw = [c] ∧ StartsNothing c := by
  cases h with
  | lexeme h =>
      obtain ⟨hlexeme, -⟩ := h
      cases hlexeme
  | illegal _ hc => exact ⟨rfl, hc⟩

/-- The text of the token is one that a source text can give it. -/
def IsValid : Token → Prop
  | ident name => isName name
  | int digits => digits ≠ "" ∧ ∀ c ∈ digits.toList, c.isDigit
  | str contents => ∀ c ∈ contents.toList, ¬ isQuote c
  | illegal c => StartsNothing c
  | symbol _ | keyword _ => True

theorem Taken.isValid (h : Taken t raw rest) : t.IsValid := by
  cases h with
  | illegal _ hc => exact hc
  | lexeme h =>
      obtain ⟨hlexeme, -, hreserved⟩ := h
      cases hlexeme with
      | keyword | symbol => trivial
      | word hne hrun =>
          have hname : Keyword.ofText? (String.ofList raw) = none := by
            rw [Option.eq_none_iff_forall_ne_some]
            intro k hk
            have hident := hreserved k (by rw [Keyword.text_of_ofText? hk, String.toList_ofList])
            exact absurd hident (by simp)
          simpa [IsValid, isName, hname, hne] using hrun
      | digits hne hrun => simpa [IsValid, hne] using hrun
      | quoted hrun | unclosed hrun => simpa [IsValid] using hrun

theorem isValid_of_mem_scan {cs : List Char} (ht : t ∈ scan cs) : t.IsValid := by
  obtain ⟨os, last, hcut, hscan⟩ := exists_tokenizes cs
  rw [← hscan, List.mem_map] at ht
  obtain ⟨o, ho, rfl⟩ := ht
  obtain ⟨before, after, rfl⟩ := List.append_of_mem ho
  obtain ⟨rest, -, htaken, -⟩ := hcut.exists_rest
  exact htaken.isValid

/-- What an occurrence says about its token, and about the occurrences and blanks after it: a string
    literal lacks its closing quote only if nothing follows, and nothing follows that the token would
    have taken, too. -/
structure Occurrence.Stands (o : Occurrence) (after : List Occurrence) (last : List Char) :
    Prop where
  blanks : ∀ c ∈ o.blanks, isBlank c
  written : o.raw = o.token.written ∨
    ∃ contents, o.token = .str contents ∧ o.raw = '"' :: contents.toList ∧ after = [] ∧ last = []
  ends : EndsRun o.token.growsBy (after.flatMap Occurrence.chars ++ last)
  keyword_iff : ∀ k : Keyword, o.token = .keyword k ↔ o.raw = k.text.toList
  illegal : ∀ c : Char, o.token = .illegal c → o.raw = [c] ∧ StartsNothing c

theorem Tokenizes.stands {before after : List Occurrence} {o : Occurrence} {last cs : List Char}
    (h : Tokenizes (before ++ o :: after) last cs) : o.Stands after last := by
  obtain ⟨rest, hblanks, htaken, hafter⟩ := h.exists_rest
  have hends := htaken.endsRun_growsBy
  rw [← hafter.chars_eq] at hends
  refine ⟨hblanks, ?_, hends, htaken.keyword_iff, fun c hc => (hc ▸ htaken).illegal_eq⟩
  refine htaken.raw_eq.imp_right ?_
  rintro ⟨contents, htoken, hraw, rfl⟩
  exact ⟨contents, htoken, hraw, hafter.eq_nil⟩

/-! ## Reading again and again -/

/-- What the reading with the number `n` comes to, when each one goes on where the one before it has
    stopped. -/
def nthNext : Nat → List Char → Option Token
  | 0, cs => (next cs).1
  | n + 1, cs => nthNext n (next cs).2

theorem nthNext_eq_getElem? (n : Nat) (cs : List Char) : nthNext n cs = (scan cs)[n]? := by
  induction n generalizing cs with
  | zero =>
      rcases hnext : next cs with ⟨_ | t, rest⟩
      · rw [scan_of_next_eq_none hnext, nthNext, hnext]
        rfl
      · rw [scan_of_next_eq_some hnext, nthNext, hnext]
        rfl
  | succ n ih =>
      rcases hnext : next cs with ⟨_ | t, rest⟩
      · rw [nthNext, ih, hnext, scan_of_next_eq_none hnext,
          scan_of_next_eq_none (next_of_next_eq_none hnext)]
        rfl
      · rw [nthNext, ih, hnext, scan_of_next_eq_some hnext]
        rfl

/-- **Scanning is the longest match.** There is exactly one way to cut a source text into the longest
    lexemes, with blanks between them, and its tokens are the ones that scanning finds. Nothing of
    the text is lost, each token is written there as its text says and stands apart from what
    follows, and readings report these tokens and from then on the end of the input. -/
theorem scan_tokenization (source : String) :
    ∃ os last, Tokenizes os last source.toList ∧
      (∀ os' last', Tokenizes os' last' source.toList → os' = os ∧ last' = last) ∧
      os.map Occurrence.token = scan source.toList ∧
      os.flatMap Occurrence.chars ++ last = source.toList ∧ (∀ c ∈ last, isBlank c) ∧
      (∀ before o after, os = before ++ o :: after → o.Stands after last) ∧
      (∀ n t, (scan source.toList)[n]? = some t →
        report (nthNext n source.toList) = (t.kind, t.literal)) ∧
      ∀ n, (scan source.toList).length ≤ n →
        report (nthNext n source.toList) = (.endOfInput, "") := by
  obtain ⟨os, last, htokenizes, hscan⟩ := exists_tokenizes source.toList
  refine ⟨os, last, htokenizes, fun os' last' h => htokenizes.unique h, hscan,
    htokenizes.chars_eq, htokenizes.blanks, ?_, fun n t ht => ?_, fun n hn => ?_⟩
  · rintro before o after rfl
    exact htokenizes.stands
  · rw [nthNext_eq_getElem?, ht, report]
  · rw [nthNext_eq_getElem?, List.getElem?_eq_none hn, report]

end ConstScript.Token
