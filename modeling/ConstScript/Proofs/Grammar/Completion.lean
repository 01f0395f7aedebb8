import ConstScript.Proofs.Grammar.Language
import ConstScript.Proofs.Token.Writing

set_option autoImplicit false

/-! # Beginnings of texts

Where reading gets stuck, the tokens so far are the beginning of a phrase. The tokens that complete
it need not be ones that a source text gives: the grammar looks at the kinds of tokens, and takes
a name that no text spells. So the names and literals of a phrase are replaced by ones that can be
written, where they cannot be written themselves, and what comes out is a phrase again. -/

namespace ConstScript

/-! ## Tokens that can be written -/

/-- The token, with a text in place of one that no source text gives. -/
def Token.writable : Token → Token
  | ident name => ident (if isName name then name else "a")
  | int digits => int (if digits ≠ "" ∧ digits.toList.all Char.isDigit then digits else "0")
  | str contents => str (if contents.toList.all (fun c => !isQuote c) then contents else "")
  | t => t

namespace Token

/-- A token that a source text gives stays as it is. -/
theorem writable_eq {t : Token} (h : t.IsValid) : t.writable = t := by
  cases t with
  | ident name => exact congrArg ident (if_pos h)
  | int digits => exact congrArg int (if_pos (by simpa [IsValid] using h))
  | str contents => exact congrArg str (if_pos (by simpa [IsValid] using h))
  | _ => rfl

theorem isValid_writable {t : Token} (h : Grammar.isUsable t) : t.writable.IsValid := by
  cases t with
  | ident name =>
      by_cases hname : isName name
      · rwa [writable, if_pos hname]
      · rw [writable, if_neg hname]
        show isName "a"
        decide
  | int digits =>
      by_cases hdigits : digits ≠ "" ∧ digits.toList.all Char.isDigit
      · rw [writable, if_pos hdigits]
        simpa [IsValid] using hdigits
      · rw [writable, if_neg hdigits]
        simp [IsValid]
  | str contents =>
      by_cases hcontents : contents.toList.all (fun c => !isQuote c)
      · rw [writable, if_pos hcontents]
        simpa [IsValid] using hcontents
      · rw [writable, if_neg hcontents]
        simp [IsValid]
  | illegal c => cases h
  | symbol _ | keyword _ => trivial

theorem map_writable_eq {ts : List Token} (h : ∀ t ∈ ts, t.IsValid) : ts.map writable = ts := by
  rw [List.map_congr_left fun t ht => writable_eq (h t ht), List.map_id']

@[simp] theorem goesOn_writable (t : Token) : t.writable.goesOn = t.goesOn := by
  cases t <;> simp [writable, goesOn, BinaryOp.all]

end Token

namespace Grammar

/-! ## Phrases that can be written -/

theorem map_writable_parameterTokens (params : List String) :
    ∃ params', (parameterTokens params).map Token.writable = parameterTokens params' := by
  cases params with
  | nil => exact ⟨[], rfl⟩
  | cons p ps =>
      have hmore : ∃ ps' : List String,
          (ps.flatMap (fun q => [.symbol .comma, .ident q])).map Token.writable
            = ps'.flatMap (fun q => [.symbol .comma, .ident q]) := by
        induction ps with
        | nil => exact ⟨[], rfl⟩
        | cons q ps ih =>
            obtain ⟨ps', hps⟩ := ih
            refine ⟨(if isName q then q else "a") :: ps', ?_⟩
            simp [Token.writable, hps]
      obtain ⟨ps', hps⟩ := hmore
      refine ⟨(if isName p then p else "a") :: ps', ?_⟩
      simp [parameterTokens, Token.writable, hps]

/-- **Every phrase can be written**, if its names and literals are replaced where they cannot. -/
theorem Derives.writable {n : Phrase} {tree : n.Tree} {ts : List Token} (h : Derives n tree ts) :
    ∃ tree', Derives n tree' (ts.map Token.writable) := by
  induction h with
  | name n => exact ⟨_, .name _⟩
  | int digits hvalue =>
      refine ⟨_, .int _ ?_⟩
      split
      · exact hvalue
      · decide
  | str contents => exact ⟨_, .str _⟩
  | trueWord => exact ⟨_, .trueWord⟩
  | falseWord => exact ⟨_, .falseWord⟩
  | group _ ih =>
      obtain ⟨_, h⟩ := ih
      exact ⟨_, by simpa [enclosed, Token.writable] using Derives.group h⟩
  | cond _ _ ihc iht =>
      obtain ⟨_, hc⟩ := ihc
      obtain ⟨_, ht⟩ := iht
      exact ⟨_, by simpa [enclosed, Token.writable] using Derives.cond hc ht⟩
  | condElse _ _ _ ihc iht ihe =>
      obtain ⟨_, hc⟩ := ihc
      obtain ⟨_, ht⟩ := iht
      obtain ⟨_, he⟩ := ihe
      exact ⟨_, by simpa [enclosed, Token.writable] using Derives.condElse hc ht he⟩
  | fn params _ ih =>
      obtain ⟨params', hparams⟩ := map_writable_parameterTokens params
      obtain ⟨_, h⟩ := ih
      exact ⟨_, by simpa [enclosed, Token.writable, hparams] using Derives.fn params' h⟩
  | array _ ih =>
      obtain ⟨_, h⟩ := ih
      exact ⟨_, by simpa [enclosed, Token.writable] using Derives.array h⟩
  | map _ ih =>
      obtain ⟨_, h⟩ := ih
      exact ⟨_, by simpa [enclosed, Token.writable] using Derives.map h⟩
  | chainHead _ ih =>
      obtain ⟨_, h⟩ := ih
      exact ⟨_, .chainHead h⟩
  | call _ _ ihf ihargs =>
      obtain ⟨_, hf⟩ := ihf
      obtain ⟨_, hargs⟩ := ihargs
      exact ⟨_, by simpa [enclosed, Token.writable] using Derives.call hf hargs⟩
  | index _ _ ihc ihp =>
      obtain ⟨_, hc⟩ := ihc
      obtain ⟨_, hp⟩ := ihp
      exact ⟨_, by simpa [enclosed, Token.writable] using Derives.index hc hp⟩
  | bare _ ih =>
      obtain ⟨_, h⟩ := ih
      exact ⟨_, .bare h⟩
  | signed op _ ih =>
      obtain ⟨_, h⟩ := ih
      exact ⟨_, .signed op h⟩
  | noLinks => exact ⟨_, .noLinks⟩
  | link op _ _ ihe ihls =>
      obtain ⟨_, he⟩ := ihe
      obtain ⟨_, hls⟩ := ihls
      exact ⟨_, by simpa [Token.writable] using Derives.link op he hls⟩
  | expression _ _ ihe ihls =>
      obtain ⟨_, he⟩ := ihe
      obtain ⟨_, hls⟩ := ihls
      exact ⟨_, by simpa using Derives.expression he hls⟩
  | noMoreItems => exact ⟨_, .noMoreItems⟩
  | moreItems _ _ ihe ihes =>
      obtain ⟨_, he⟩ := ihe
      obtain ⟨_, hes⟩ := ihes
      exact ⟨_, by simpa [Token.writable] using Derives.moreItems he hes⟩
  | noItems => exact ⟨_, .noItems⟩
  | items _ _ ihe ihes =>
      obtain ⟨_, he⟩ := ihe
      obtain ⟨_, hes⟩ := ihes
      exact ⟨_, by simpa using Derives.items he hes⟩
  | noPairs => exact ⟨_, .noPairs⟩
  | lastPair _ _ ihk ihv =>
      obtain ⟨_, hk⟩ := ihk
      obtain ⟨_, hv⟩ := ihv
      exact ⟨_, by simpa [Token.writable] using Derives.lastPair hk hv⟩
  | pair _ _ _ ihk ihv ihps =>
      obtain ⟨_, hk⟩ := ihk
      obtain ⟨_, hv⟩ := ihv
      obtain ⟨_, hps⟩ := ihps
      exact ⟨_, by simpa [Token.writable] using Derives.pair hk hv hps⟩
  | const name _ ih =>
      obtain ⟨_, h⟩ := ih
      exact ⟨_, .const _ h⟩
  | ret _ ih =>
      obtain ⟨_, h⟩ := ih
      exact ⟨_, .ret h⟩
  | expr _ ih =>
      obtain ⟨_, h⟩ := ih
      exact ⟨_, .expr h⟩
  | noStatements => exact ⟨_, .noStatements⟩
  | closed _ _ ihs ihss =>
      obtain ⟨_, hs⟩ := ihs
      obtain ⟨_, hss⟩ := ihss
      exact ⟨_, by simpa [Token.writable] using Derives.closed hs hss⟩
  | @unclosed _ _ _ us _ _ hnext ihs ihss =>
      obtain ⟨_, hs⟩ := ihs
      obtain ⟨_, hss⟩ := ihss
      have hnext' : ∀ t ∈ (us.map Token.writable).head?, ¬ t.goesOn := by
        simpa using hnext
      exact ⟨_, by simpa using Derives.unclosed hs hss hnext'⟩

/-! ## Texts -/

/-- The beginning of a list of statements is the beginning of a text without syntax errors. -/
theorem Viable.exists_text {before : List Token} (h : Viable .statements before)
    (hbefore : ∀ t ∈ before, t.IsValid) :
    ∃ (text : String) (tail : List Token), Token.scan text.toList = before ++ tail ∧
      (Program.parse text).errors = [] := by
  obtain ⟨ss, tail, hderives⟩ := h
  obtain ⟨ss', hwritable⟩ := hderives.writable
  have hvalid : ∀ t ∈ (before ++ tail).map Token.writable, t.IsValid := by
    simp only [List.mem_map]
    rintro _ ⟨t, ht, rfl⟩
    exact Token.isValid_writable (hderives.isUsable t ht)
  obtain ⟨text, htext⟩ := Token.exists_scan_eq hvalid
  refine ⟨text, tail.map Token.writable, ?_, ?_⟩
  · rw [htext, List.map_append, Token.map_writable_eq hbefore]
  · rw [Program.parse, htext, Program.ofTokens, hwritable.ofSegments_eq]
    rfl

end Grammar

end ConstScript
