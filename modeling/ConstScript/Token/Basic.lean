set_option autoImplicit false

/-! # Tokens

A source text is read as a sequence of tokens: names, integer and string literals, the seven
reserved words, the operator and punctuation symbols, and single characters that start none of
these. Every token has a *kind*, which is what the grammar looks at and what syntax errors name;
the end of the input has a kind of its own, so that an error can say that it was found there. -/

namespace ConstScript

/-! ## Reserved words and symbols -/

/-- The reserved words. None of them can be used as a name. -/
inductive Keyword where
  | fn
  | const
  | trueWord
  | falseWord
  | ifWord
  | elseWord
  | returnWord
  deriving DecidableEq, Repr

namespace Keyword

/-- All reserved words. -/
def all : List Keyword := [fn, const, trueWord, falseWord, ifWord, elseWord, returnWord]

/-- The word as it is written in a source text. -/
def text : Keyword → String
  | fn => "fn"
  | const => "const"
  | trueWord => "true"
  | falseWord => "false"
  | ifWord => "if"
  | elseWord => "else"
  | returnWord => "return"

/-- The name under which syntax errors mention the word. -/
def kindName : Keyword → String
  | fn => "FUNCTION"
  | const => "CONST"
  | trueWord => "TRUE"
  | falseWord => "FALSE"
  | ifWord => "IF"
  | elseWord => "ELSE"
  | returnWord => "RETURN"

/-- The reserved word with the given spelling, if there is one. -/
def ofText? (word : String) : Option Keyword :=
  all.find? (fun k => k.text = word)

theorem ofText?_text (k : Keyword) : ofText? k.text = some k := by
  cases k <;> decide

theorem text_of_ofText? {word : String} {k : Keyword} (h : ofText? word = some k) :
    k.text = word := by
  simpa using List.find?_some h

end Keyword

/-- The operator and punctuation symbols. -/
inductive Symbol where
  | assign
  | plus
  | minus
  | bang
  | asterisk
  | slash
  | less
  | greater
  | equal
  | notEqual
  | comma
  | semicolon
  | colon
  | leftParen
  | rightParen
  | leftBrace
  | rightBrace
  | leftBracket
  | rightBracket
  deriving DecidableEq, Repr

namespace Symbol

/-- All symbols. -/
def all : List Symbol :=
  [assign, plus, minus, bang, asterisk, slash, less, greater, equal, notEqual, comma, semicolon,
    colon, leftParen, rightParen, leftBrace, rightBrace, leftBracket, rightBracket]

/-- The symbol as it is written in a source text, which is also how errors mention it. -/
def text : Symbol → String
  | assign => "="
  | plus => "+"
  | minus => "-"
  | bang => "!"
  | asterisk => "*"
  | slash => "/"
  | less => "<"
  | greater => ">"
  | equal => "=="
  | notEqual => "!="
  | comma => ","
  | semicolon => ";"
  | colon => ":"
  | leftParen => "("
  | rightParen => ")"
  | leftBrace => "\x7b"
  | rightBrace => "\x7d"
  | leftBracket => "["
  | rightBracket => "]"

/-- The symbol that consists of the one given character, if there is one. -/
def ofChar? : Char → Option Symbol
  | '=' => some assign
  | '+' => some plus
  | '-' => some minus
  | '!' => some bang
  | '*' => some asterisk
  | '/' => some slash
  | '<' => some less
  | '>' => some greater
  | ',' => some comma
  | ';' => some semicolon
  | ':' => some colon
  | '(' => some leftParen
  | ')' => some rightParen
  | '{' => some leftBrace
  | '}' => some rightBrace
  | '[' => some leftBracket
  | ']' => some rightBracket
  | _ => none

/-- Whether the symbol opens a bracketed stretch of the source. -/
def opens : Symbol → Bool
  | leftParen | leftBrace | leftBracket => true
  | _ => false

/-- Whether the symbol closes a bracketed stretch of the source. -/
def closes : Symbol → Bool
  | rightParen | rightBrace | rightBracket => true
  | _ => false

end Symbol

/-! ## Tokens and their kinds -/

/-- What the grammar distinguishes among tokens, together with the end of the input. -/
inductive Kind where
  | endOfInput
  | illegal
  | ident
  | int
  | str
  | symbol (s : Symbol)
  | keyword (k : Keyword)
  deriving DecidableEq, Repr

namespace Kind

/-- The name under which syntax errors mention the kind. -/
def name : Kind → String
  | endOfInput => "EOF"
  | illegal => "ILLEGAL"
  | ident => "IDENT"
  | int => "INT"
  | str => "STRING"
  | symbol s => s.text
  | keyword k => k.kindName

/-- All kinds. -/
def all : List Kind :=
  [endOfInput, illegal, ident, int, str] ++ Symbol.all.map symbol ++ Keyword.all.map keyword

/-- The kind with the given name, if there is one. -/
def ofName? (n : String) : Option Kind :=
  all.find? (fun k => k.name = n)

theorem ofName?_name (k : Kind) : ofName? k.name = some k := by
  cases k with
  | symbol s => cases s <;> decide
  | keyword k => cases k <;> decide
  | _ => decide

end Kind

/-- A token: a name, an integer literal given by its digits, a string literal given by what stands
    between its quotes, a character that starts no other token, a symbol or a reserved word. -/
inductive Token where
  | ident (name : String)
  | int (digits : String)
  | str (contents : String)
  | illegal (c : Char)
  | symbol (s : Symbol)
  | keyword (k : Keyword)
  deriving DecidableEq, Repr

namespace Token

/-- The kind of a token. -/
def kind : Token → Kind
  | ident _ => .ident
  | int _ => .int
  | str _ => .str
  | illegal _ => .illegal
  | symbol s => .symbol s
  | keyword k => .keyword k

/-- The text of a token. A string literal stands for its contents, without the quotes. -/
def literal : Token → String
  | ident name => name
  | int digits => digits
  | str contents => contents
  | illegal c => c.toString
  | symbol s => s.text
  | keyword k => k.text

theorem kind_ne_endOfInput (t : Token) : t.kind ≠ .endOfInput := by
  cases t <;> simp [kind]

end Token

/-- What a reading reports: the kind and the text of a token, or the end of the input, which has no
    text. -/
def Token.report : Option Token → Kind × String
  | some t => (t.kind, t.literal)
  | none => (.endOfInput, "")

/-- The kind of what comes next: that of the first token, or the end of the input. -/
def Kind.ofNext : List Token → Kind
  | [] => .endOfInput
  | t :: _ => t.kind

end ConstScript
