import ConstScript.Proofs.Grammar.WellFormed

set_option autoImplicit false

/-! # What reading keeps of a text

A source text and the canonical text of what is read from it differ in layout, in the digits of an
integer, and in the parentheses, commas and semicolons, which show how the other tokens belong
together. The other tokens are the same in both and in the same order: every way of building a
phrase puts what they say into the tree, so a tree determines them. -/

namespace ConstScript

/-! ## What tokens say -/

/-- What a token says: the value of an integer, or the kind and the text of another token. -/
inductive Token.Content where
  | number (value : Nat)
  | other (kind : Kind) (text : String)

namespace Token

/-- What a token says, however an integer is written. -/
def content : Token → Content
  | int digits => .number (Nat.ofDigitChars 10 digits.toList 0)
  | t => .other t.kind t.literal

/-- Whether the token is a parenthesis, a comma or a semicolon. -/
def isPunctuation : Token → Bool
  | symbol .leftParen | symbol .rightParen | symbol .comma | symbol .semicolon => true
  | _ => false

/-- What the tokens say, one after another and without the punctuation. -/
def contents (ts : List Token) : List Content :=
  (ts.filter fun t => !t.isPunctuation).map content

@[simp] theorem contents_nil : contents [] = [] := rfl

@[simp] theorem contents_append (ts us : List Token) :
    contents (ts ++ us) = contents ts ++ contents us := by
  rw [contents, List.filter_append, List.map_append, ← contents, ← contents]

theorem contents_cons (t : Token) (ts : List Token) :
    contents (t :: ts) = if t.isPunctuation then contents ts else t.content :: contents ts := by
  cases h : t.isPunctuation <;> simp [contents, h]

end Token

/-! ## What trees say -/

/-- Something between two symbols that are no punctuation. -/
def bracketed (opening closing : Symbol) (cs : List Token.Content) : List Token.Content :=
  (Token.symbol opening).content :: (cs ++ [(Token.symbol closing).content])

mutual

/-- What the tokens of an expression say. -/
def Expr.contents : Expr → List Token.Content
  | .name n => [(Token.ident n).content]
  | .int value => [.number value]
  | .str s => [(Token.str s).content]
  | .bool value => [(Token.keyword (if value then .trueWord else .falseWord)).content]
  | .unary op operand => (Token.symbol op.symbol).content :: operand.contents
  | .binary op left right =>
    left.contents ++ (Token.symbol op.symbol).content :: right.contents
  | .cond condition thenBlock none =>
    (Token.keyword .ifWord).content ::
      (condition.contents ++ bracketed .leftBrace .rightBrace (Stmt.allContents thenBlock))
  | .cond condition thenBlock (some elseBlock) =>
    (Token.keyword .ifWord).content ::
      (condition.contents ++ bracketed .leftBrace .rightBrace (Stmt.allContents thenBlock) ++
        (Token.keyword .elseWord).content ::
          bracketed .leftBrace .rightBrace (Stmt.allContents elseBlock))
  | .fn params body =>
    (Token.keyword .fn).content ::
      (params.map (fun p => (Token.ident p).content) ++
        bracketed .leftBrace .rightBrace (Stmt.allContents body))
  | .call callee args => callee.contents ++ Expr.allContents args
  | .array items => bracketed .leftBracket .rightBracket (Expr.allContents items)
  | .map pairs => bracketed .leftBrace .rightBrace (Expr.pairContents pairs)
  | .index collection position =>
    collection.contents ++ bracketed .leftBracket .rightBracket position.contents

/-- What the tokens of expressions say. -/
def Expr.allContents : List Expr → List Token.Content
  | [] => []
  | e :: es => e.contents ++ Expr.allContents es

/-- What the tokens of the pairs of a map literal say. -/
def Expr.pairContents : List (Expr × Expr) → List Token.Content
  | [] => []
  | (key, value) :: pairs =>
    key.contents ++ (Token.symbol .colon).content :: (value.contents ++ Expr.pairContents pairs)

/-- What the tokens of a statement say. -/
def Stmt.contents : Stmt → List Token.Content
  | .const name value =>
    (Token.keyword .const).content :: (Token.ident name).content ::
      (Token.symbol .assign).content :: value.contents
  | .ret value => (Token.keyword .returnWord).content :: value.contents
  | .expr e => e.contents

/-- What the tokens of statements say. -/
def Stmt.allContents : List Stmt → List Token.Content
  | [] => []
  | s :: ss => s.contents ++ Stmt.allContents ss

end

namespace Grammar

/-- What the tokens of operators and the operands after them say. -/
def linkContents (ls : List Link) : List Token.Content :=
  ls.flatMap fun l => (Token.symbol l.op.symbol).content :: l.operand.contents

/-- What the tokens of a phrase say. -/
def Phrase.contents : (n : Phrase) → n.Tree → List Token.Content
  | .primary, e | .chained, e | .unary, e | .expression, e => Expr.contents e
  | .links, ls => linkContents ls
  | .moreItems, es | .items, es => Expr.allContents es
  | .pairs, ps => Expr.pairContents ps
  | .statement, s => Stmt.contents s
  | .statements, ss => Stmt.allContents ss

/-! ## Phrases -/

/-- Nesting does not move the operands and operators of a chain. -/
theorem contents_nest (e : Expr) (ls : List Link) :
    (nest e ls).contents = e.contents ++ linkContents ls := by
  fun_induction nest e ls with
  | case1 e ls h => simp [loosest_eq_none h, linkContents]
  | case2 e ls before m after h _ _ ihBefore ihAfter =>
      rw [Expr.contents, ihBefore, ihAfter, (loosest_spec h).1]
      simp [linkContents]

theorem contents_parameterTokens (params : List String) :
    Token.contents (parameterTokens params) = params.map fun p => (Token.ident p).content := by
  have hrest : ∀ ps : List String,
      Token.contents (ps.flatMap fun q => [.symbol .comma, .ident q])
        = ps.map fun p => (Token.ident p).content := by
    intro ps
    induction ps with
    | nil => rfl
    | cons q ps ih => simpa [Token.contents_cons, Token.isPunctuation] using ih
  cases params with
  | nil => rfl
  | cons p ps => simp [parameterTokens, Token.contents_cons, Token.isPunctuation, hrest]

/-- What the tokens of a phrase say, the tree says, and in the same order. -/
theorem Derives.contents_eq {n : Phrase} {tree : n.Tree} {ts : List Token}
    (h : Derives n tree ts) : Token.contents ts = n.contents tree := by
  induction h with
  | name | int | str | trueWord | falseWord | noLinks | noMoreItems | noItems | noPairs
  | noStatements => rfl
  | signed op _ ih =>
      rw [Token.contents_cons, if_neg (by cases op <;> decide), ih]
      rfl
  | link op _ _ ihOperand ihLinks =>
      rw [Token.contents_cons, if_neg (by cases op <;> decide), Token.contents_append, ihOperand,
        ihLinks]
      rfl
  | expression _ _ ihOperand ihLinks =>
      rw [Token.contents_append, ihOperand, ihLinks]
      exact (contents_nest _ _).symm
  -- The others are put together from phrases and from tokens that are the same in each of them.
  | _ =>
      simp_all [enclosed, bracketed, Token.contents_cons, Token.isPunctuation,
        contents_parameterTokens, Phrase.contents, Expr.contents, Expr.allContents,
        Expr.pairContents, Stmt.contents, Stmt.allContents]

end Grammar

/-! ## Texts -/

/-- **Reading loses, invents and reorders no token.** If a source text is read without an error, its
    tokens and those of the canonical text of the program are the same one after another, apart
    from parentheses, commas and semicolons and from how integers are written. -/
theorem Program.contents_text_parse {source : String} (h : (parse source).errors = []) :
    Token.contents (Token.scan (parse source).program.text.toList)
      = Token.contents (Token.scan source.toList) := by
  obtain ⟨ts, hspells, hwritten⟩ := (parse source).program.written (isWellFormed_parse source)
  have hread := derives_of_errors_eq_nil h
  rw [hspells.scan_eq, hwritten.contents_eq, hread.contents_eq]

/-- Parentheses that the canonical text lacks, an integer with zeros, and commas and semicolons at
    the end of a list. -/
theorem Program.contents_text_parse_call :
    let source := "const m = \x7b\"k\": (007),\x7d; fn(x, y) \x7b (x) + -2 * y; \x7d(m[\"k\"], 1);"
    (parse source).errors = [] ∧
    Token.contents (Token.scan (parse source).program.text.toList)
      = Token.contents (Token.scan source.toList) := by
  intro source
  have h : (parse source).errors = [] := by decide +kernel
  exact ⟨h, contents_text_parse h⟩

end ConstScript
