import ConstScript.Text.Glyphless

set_option autoImplicit false

/-! # Quoted text

Text is quoted by putting it between double quotes and writing some of its characters in another
way: the quote and the backslash behind a backslash, the common control characters by a letter,
and every other character without a glyph of its own by its number in hexadecimal. -/

namespace ConstScript

/-- A character as it is written inside quotes. -/
def quotedChar (c : Char) : String :=
  match c with
  | '"' => "\\\""
  | '\\' => "\\\\"
  | '\n' => "\\n"
  | '\r' => "\\r"
  | '\t' => "\\t"
  | '\x00' => "\\0"
  | c =>
    if isGlyphless c then
      "\\u\x7b" ++ String.ofList (Nat.toDigits 16 c.toNat) ++ "\x7d"
    else c.toString

/-- A text in double quotes. -/
def quoted (text : String) : String :=
  "\"" ++ String.join (text.toList.map quotedChar) ++ "\""

end ConstScript
