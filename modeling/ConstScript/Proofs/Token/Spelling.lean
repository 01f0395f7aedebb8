import ConstScript.Proofs.Token.Scan

set_option autoImplicit false

/-! # Texts that spell tokens

Whether a text is scanned into the tokens it was written for can depend on what comes after it: a
name runs together with a letter, an integer with a digit and `=` with another `=`. A text `Spells`
tokens if it is scanned into them before everything that starts with none of these, and it
`Delimits` if it is scanned into them before everything. Texts that are put together from parts
alternate between the two, so the laws below say how they can follow each other. -/

namespace ConstScript

/-- A character that no token before it runs together with. -/
def isApart (c : Char) : Bool :=
  !isWordChar c && !c.isDigit && c ≠ '='

/-- The text is scanned into the tokens, if nothing follows that runs together with the last one. -/
def Spells (text : String) (ts : List Token) : Prop :=
  ∀ rest, (∀ c ∈ rest.head?, isApart c) →
    Token.scan (text.toList ++ rest) = ts ++ Token.scan rest

/-- The text is scanned into the tokens, whatever follows. -/
def Delimits (text : String) (ts : List Token) : Prop :=
  ∀ rest, Token.scan (text.toList ++ rest) = ts ++ Token.scan rest

/-! ## How texts follow each other -/

section

variable {text text' : String} {ts us : List Token}

theorem Delimits.spells (h : Delimits text ts) : Spells text ts :=
  fun rest _ => h rest

theorem Spells.scan_eq (h : Spells text ts) : Token.scan text.toList = ts := by
  have hend := h [] (by simp)
  rwa [List.append_nil, Token.scan_nil, List.append_nil] at hend

theorem Delimits.append (h : Delimits text ts) (h' : Delimits text' us) :
    Delimits (text ++ text') (ts ++ us) := by
  intro rest
  rw [String.toList_append, List.append_assoc, h, h', List.append_assoc]

theorem Delimits.append_spells (h : Delimits text ts) (h' : Spells text' us) :
    Spells (text ++ text') (ts ++ us) := by
  intro rest hrest
  rw [String.toList_append, List.append_assoc, h, h' rest hrest, List.append_assoc]

/-- After a text that spells tokens, one that delimits has to start apart. -/
theorem Spells.append (h : Spells text ts) (h' : Delimits text' us)
    (hapart : text'.toList.head?.any isApart) : Delimits (text ++ text') (ts ++ us) := by
  intro rest
  have hrest : ∀ c ∈ (text'.toList ++ rest).head?, isApart c := by
    intro c hc
    cases hchars : text'.toList with
    | nil =>
        rw [hchars] at hapart
        exact absurd hapart (by decide)
    | cons d ds =>
        rw [hchars] at hapart hc
        obtain rfl := Option.some.inj hc
        exact hapart
  rw [String.toList_append, List.append_assoc, h _ hrest, h', List.append_assoc]

end

/-! ## Single tokens and blanks -/

/-- The words that can be names. -/
def isName (word : String) : Bool :=
  word ≠ "" && word.toList.all isWordChar && (Keyword.ofText? word).isNone

theorem isApart_of_isBlank {c : Char} (h : isBlank c) : isApart c := by
  simp only [isBlank, Bool.or_eq_true, decide_eq_true_eq] at h
  rcases h with ((rfl | rfl) | rfl) | rfl <;> decide

theorem delimits_space : Delimits " " [] :=
  fun rest => Token.scan_blank (by decide) rest

/-- Blanks around a text do not change what it spells. -/
theorem Spells.spaced {text : String} {ts : List Token} (h : Spells text ts)
    {before after : String} (hbefore : ∀ c ∈ before.toList, isBlank c)
    (hafter : ∀ c ∈ after.toList, isBlank c) : Spells (before ++ text ++ after) ts := by
  intro rest hrest
  have hnext : ∀ c ∈ (after.toList ++ rest).head?, isApart c := by
    intro c hc
    cases hchars : after.toList with
    | nil =>
        rw [hchars, List.nil_append] at hc
        exact hrest c hc
    | cons d ds =>
        rw [hchars, List.cons_append] at hc
        obtain rfl := Option.some.inj hc
        exact isApart_of_isBlank (hafter d (by simp [hchars]))
  rw [String.toList_append, String.toList_append, List.append_assoc, List.append_assoc,
    Token.scan_blanks hbefore, h _ hnext, Token.scan_blanks hafter]

theorem delimits_symbol (s : Symbol) (hs : s ∉ [.assign, .bang]) :
    Delimits s.text [.symbol s] :=
  fun _ => Token.scan_symbol s (fun h => absurd h hs)

theorem spells_symbol (s : Symbol) : Spells s.text [.symbol s] := by
  intro rest hrest
  refine Token.scan_symbol s fun _ c hc heq => ?_
  obtain rfl : c = '=' := by simpa using heq
  exact absurd (hrest _ hc) (by decide)

theorem endsRun_of_isApart {rest : List Char} (hrest : ∀ c ∈ rest.head?, isApart c) :
    Token.EndsRun isWordChar rest ∧ Token.EndsRun Char.isDigit rest := by
  refine ⟨fun c hc hword => ?_, fun c hc hdigit => ?_⟩
  · have hapart := hrest c hc
    rw [isApart, hword] at hapart
    exact absurd hapart (by simp)
  · have hapart := hrest c hc
    rw [isApart, hdigit] at hapart
    exact absurd hapart (by simp)

theorem spells_keyword (k : Keyword) : Spells k.text [.keyword k] := by
  intro rest hrest
  have hword : k.text.toList.all isWordChar := by
    cases k <;> rfl
  have hscan := Token.scan_word (by cases k <;> decide) (List.all_eq_true.1 hword)
    (endsRun_of_isApart hrest).1
  rw [hscan, Token.ofWord, Keyword.ofText?_text]
  rfl

theorem spells_name {name : String} (h : isName name) : Spells name [.ident name] := by
  intro rest hrest
  simp only [isName, Bool.and_eq_true, decide_eq_true_eq, List.all_eq_true,
    Option.isNone_iff_eq_none] at h
  obtain ⟨⟨hne, hword⟩, hkeyword⟩ := h
  rw [Token.scan_word hne hword (endsRun_of_isApart hrest).1, Token.ofWord, hkeyword]
  rfl

theorem spells_digits {digits : String} (hne : digits ≠ "")
    (hdigits : ∀ c ∈ digits.toList, c.isDigit) : Spells digits [.int digits] :=
  fun _ hrest => Token.scan_digits hne hdigits (endsRun_of_isApart hrest).2

theorem spells_nat (n : Nat) : Spells (toString n) [.int (toString n)] := by
  have hchars : (toString n).toList = Nat.toDigits 10 n := Nat.toList_repr
  refine spells_digits ?_ ?_
  · intro heq
    rw [heq] at hchars
    exact Nat.toDigits_ne_nil hchars.symm
  · intro c hc
    rw [hchars] at hc
    exact Nat.isDigit_of_mem_toDigits (by decide) (by decide) hc

theorem delimits_quoted {contents : String} (h : ∀ c ∈ contents.toList, ¬ isQuote c) :
    Delimits ("\"" ++ contents ++ "\"") [.str contents] := by
  intro rest
  rw [String.toList_append, String.toList_append, List.append_assoc, List.append_assoc]
  exact Token.scan_quoted h rest

/-! ## Brackets and separators -/

/-- A symbol and a space, as between the items of a list. -/
theorem delimits_separator (s : Symbol) : Delimits (s.text ++ " ") [.symbol s] :=
  (spells_symbol s).append delimits_space rfl

/-- A reserved word and a space. -/
theorem delimits_keyword (k : Keyword) : Delimits (k.text ++ " ") [.keyword k] :=
  (spells_keyword k).append delimits_space rfl

theorem delimits_opening {s : Symbol} (hs : s.opens) : Delimits s.text [.symbol s] :=
  delimits_symbol s (by cases s <;> first | decide | exact absurd hs (by decide))

theorem delimits_closing {s : Symbol} (hs : s.closes) : Delimits s.text [.symbol s] :=
  delimits_symbol s (by cases s <;> first | decide | exact absurd hs (by decide))

/-- What is written between brackets is followed by anything. -/
theorem Spells.between {text : String} {ts : List Token} (h : Spells text ts)
    (opening closing : Symbol) (hopening : opening.opens) (hclosing : closing.closes) :
    Delimits (opening.text ++ text ++ closing.text)
      (.symbol opening :: (ts ++ [.symbol closing])) := by
  have hapart : closing.text.toList.head?.any isApart := by
    cases closing <;> first | decide | exact absurd hclosing (by decide)
  exact ((delimits_opening hopening).append_spells h).append (delimits_closing hclosing) hapart

/-- A `!` is followed by everything that does not start with `=`, and a `-` by everything. -/
theorem Spells.signed {s : Symbol} {text : String} {ts : List Token} (h : Spells text ts)
    (htext : text ≠ "") (hhead : ∀ c ∈ text.toList.head?, c ≠ '=') :
    Spells (s.text ++ text) (.symbol s :: ts) := by
  intro rest hrest
  have hends : Token.EndsRun (· = '=') (text.toList ++ rest) := by
    cases hchars : text.toList with
    | nil => exact absurd (String.toList_eq_nil_iff.1 hchars) htext
    | cons c cs =>
        rw [hchars] at hhead
        intro d hd heq
        obtain rfl := Option.some.inj hd
        exact hhead c rfl (by simpa using heq)
  rw [String.toList_append, List.append_assoc, Token.scan_symbol s (fun _ => hends), h rest hrest,
    List.cons_append]

end ConstScript
