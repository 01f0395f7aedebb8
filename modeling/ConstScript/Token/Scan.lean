import ConstScript.Token.Basic

set_option autoImplicit false

/-! # Scanning

`Token.next` reads one token from the front of a text and `Token.scan` reads them all. Blanks
(space, tab, carriage return and line feed) separate tokens and are dropped. Each token takes as
many characters as it can: a word all letters and underscores, an integer all digits, a string
literal everything up to the next quote -- or up to the end of the text if no quote follows --
and `==` and `!=` win over `=` and `!`. A word is a reserved word if it is spelled like one and
a name otherwise.

Nothing is rejected here: a character that starts no token is a token by itself, and at the end
of the text every further reading finds the end again. -/

namespace ConstScript

/-! ## Character classes -/

/-- The characters that separate tokens. -/
def isBlank (c : Char) : Bool :=
  c = ' ' || c = '\t' || c = '\r' || c = '\n'

/-- The characters that words consist of: the letters of the basic Latin alphabet and `_`. Digits
    are not among them. -/
def isWordChar (c : Char) : Bool :=
  c.isAlpha || c = '_'

/-- The character that opens and closes a string literal. -/
def isQuote (c : Char) : Bool :=
  c = '"'

namespace Token

/-! ## One token -/

/-- The token that a word stands for: a reserved word or a name. -/
def ofWord (word : String) : Token :=
  match Keyword.ofText? word with
  | some k => .keyword k
  | none => .ident word

/-- The token that starts with the character `c`, which is no blank, in a text that goes on with
    `cs`, and the characters after it. -/
def lexeme (c : Char) (cs : List Char) : Token × List Char :=
  if isWordChar c then
    (ofWord (String.ofList (c :: cs.takeWhile isWordChar)), cs.dropWhile isWordChar)
  else if c.isDigit then
    (.int (String.ofList (c :: cs.takeWhile Char.isDigit)), cs.dropWhile Char.isDigit)
  else if isQuote c then
    -- The closing quote is dropped; at the end of the text there is none to drop.
    (.str (String.ofList (cs.takeWhile (fun d => !isQuote d))),
      (cs.dropWhile (fun d => !isQuote d)).drop 1)
  else
    match c, cs with
    | '=', '=' :: rest => (.symbol .equal, rest)
    | '!', '=' :: rest => (.symbol .notEqual, rest)
    | _, _ =>
      match Symbol.ofChar? c with
      | some s => (.symbol s, cs)
      | none => (.illegal c, cs)

/-- Reads the next token, `none` at the end of the text, and the characters after it. -/
def next (cs : List Char) : Option Token × List Char :=
  match cs.dropWhile isBlank with
  | [] => (none, [])
  | c :: rest =>
    let (token, rest) := lexeme c rest
    (some token, rest)

theorem length_lexeme_le (c : Char) (cs : List Char) : (lexeme c cs).2.length ≤ cs.length := by
  unfold lexeme
  split
  · exact (List.dropWhile_sublist _).length_le
  split
  · exact (List.dropWhile_sublist _).length_le
  split
  · exact ((List.drop_sublist _ _).trans (List.dropWhile_sublist _)).length_le
  split
  · simp
  · simp
  · split <;> simp

/-- Reading a token uses up at least one character. -/
theorem length_next_lt {cs rest : List Char} {t : Token} (h : next cs = (some t, rest)) :
    rest.length < cs.length := by
  unfold next at h
  split at h
  · simp at h
  · next c cs' hcs =>
    have hlex := length_lexeme_le c cs'
    have hdrop := (List.dropWhile_sublist (l := cs) isBlank).length_le
    rw [hcs, List.length_cons] at hdrop
    rcases hread : lexeme c cs' with ⟨t', rest'⟩
    rw [hread] at h hlex
    obtain ⟨-, rfl⟩ := Prod.mk.inj h
    simp only at hlex
    omega

/-- Once the end of the text has been found, it is found again. -/
theorem next_of_next_eq_none {cs rest : List Char} (h : next cs = (none, rest)) :
    next rest = (none, rest) := by
  unfold next at h
  split at h
  · obtain ⟨-, rfl⟩ := Prod.mk.inj h
    rfl
  · simp at h

/-! ## All tokens -/

/-- All tokens of a text. -/
def scan (cs : List Char) : List Token :=
  match h : next cs with
  | (none, _) => []
  | (some token, rest) =>
    have : rest.length < cs.length := length_next_lt h
    token :: scan rest
termination_by cs.length

theorem scan_of_next_eq_none {cs rest : List Char} (h : next cs = (none, rest)) :
    scan cs = [] := by
  unfold scan
  split
  · rfl
  · next h' => simp [h] at h'

theorem scan_of_next_eq_some {cs rest : List Char} {t : Token} (h : next cs = (some t, rest)) :
    scan cs = t :: scan rest := by
  conv => lhs; unfold scan
  split
  · next h' => simp [h] at h'
  · next h' =>
    rw [h] at h'
    obtain ⟨ht, rfl⟩ := Prod.mk.inj h'
    rw [Option.some.inj ht]

end Token

end ConstScript
