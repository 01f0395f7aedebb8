import ConstScript.Proofs.Grammar.RoundTrip
import ConstScript.Proofs.Token.LongestMatch
import ConstScript.Syntax.Equality

set_option autoImplicit false

/-! # Trees that are read can be written down

The names and literals of a tree that the grammar derives are the texts of its tokens, and scanning
gives a token only such texts as can be scanned again. So what is read from a source text has a
canonical text. This is so next to errors, too: what could not be read is not kept, and each of the
statements that are kept is derived from its own tokens. -/

namespace ConstScript

namespace Grammar

/-- Whether what a phrase denotes can be written down. -/
def Phrase.isWellFormed : (n : Phrase) → n.Tree → Bool
  | .primary, e | .chained, e | .unary, e | .expression, e => Expr.isWellFormed e
  | .links, ls => ls.all fun l => l.operand.isWellFormed
  | .moreItems, es | .items, es => Expr.areWellFormed es
  | .pairs, ps => Expr.pairsAreWellFormed ps
  | .statement, s => Stmt.isWellFormed s
  | .statements, ss => Stmt.areWellFormed ss

/-- A chain of operators nests without a change to its operands. -/
theorem isWellFormed_nest (e : Expr) (ls : List Link) :
    (nest e ls).isWellFormed = (e.isWellFormed && ls.all fun l => l.operand.isWellFormed) := by
  fun_induction nest e ls with
  | case1 e ls h => simp [loosest_eq_none h]
  | case2 e ls before m after h _ _ ihBefore ihAfter =>
      rw [Expr.isWellFormed, ihBefore, ihAfter, (loosest_spec h).1, List.all_append, List.all_cons,
        Bool.and_assoc]

theorem isName_of_mem_parameterTokens {params : List String}
    (h : ∀ t ∈ parameterTokens params, t.IsValid) : ∀ p ∈ params, isName p := by
  intro p hp
  refine h (.ident p) ?_
  cases params with
  | nil => exact absurd hp (by simp)
  | cons q ps => simpa [parameterTokens, eq_comm] using hp

theorem Derives.isWellFormed {n : Phrase} {tree : n.Tree} {ts : List Token}
    (h : Derives n tree ts) (hts : ∀ t ∈ ts, t.IsValid) : n.isWellFormed tree := by
  induction h with
  | name n => exact hts _ List.mem_cons_self
  | int _ hvalue => exact decide_eq_true hvalue
  | str contents =>
      have hcontents : ∀ c ∈ contents.toList, ¬ isQuote c := hts _ List.mem_cons_self
      simpa [Phrase.isWellFormed, Expr.isWellFormed] using hcontents
  | trueWord | falseWord | noLinks | noMoreItems | noItems | noPairs | noStatements => rfl
  | fn params _ ih =>
      simp only [enclosed, List.forall_mem_cons, List.forall_mem_append] at hts
      obtain ⟨-, ⟨-, hparams, -⟩, -, hbody, -⟩ := hts
      simp only [Phrase.isWellFormed, Expr.isWellFormed, Bool.and_eq_true, List.all_eq_true]
      exact ⟨isName_of_mem_parameterTokens hparams, ih hbody⟩
  | expression _ _ ihOperand ihLinks =>
      obtain ⟨he, hls⟩ := List.forall_mem_append.1 hts
      simp only [Phrase.isWellFormed, isWellFormed_nest, Bool.and_eq_true]
      exact ⟨ihOperand he, ihLinks hls⟩
  | const name _ ih =>
      simp only [List.forall_mem_cons] at hts
      obtain ⟨-, hname, -, he⟩ := hts
      exact Bool.and_eq_true_iff.2 ⟨hname, ih he⟩
  -- The others are put together from phrases and from tokens that are the same in each of them.
  | _ =>
      simp_all [enclosed, Phrase.isWellFormed, Expr.isWellFormed, Expr.areWellFormed,
        Expr.pairsAreWellFormed, Stmt.isWellFormed, Stmt.areWellFormed, or_imp, forall_and]

/-- The statements that are kept of an input can be written down. -/
theorem areWellFormed_ofSegments (depth : Nat) (ts : List Token) (hts : ∀ t ∈ ts, t.IsValid) :
    Stmt.areWellFormed (Reading.ofSegments (segments depth ts)).program.statements := by
  by_cases hne : ts = []
  · rw [hne, segments_nil]
    rfl
  · obtain ⟨used, rest, hsplit, hused, hfirst⟩ := segments_cases depth hne
    have hlt : rest.length < ts.length := by
      rw [hsplit, List.length_append]
      exact Nat.lt_add_of_pos_left (List.length_pos_iff.2 hused)
    have hrest := areWellFormed_ofSegments (openBrackets depth used) rest fun t ht =>
      hts t (by rw [hsplit]; exact List.mem_append_right used ht)
    rcases hfirst with ⟨s, ⟨us, hs, hread⟩, hsegs⟩ | ⟨fault, -, -, hsegs⟩
    · have hus : ∀ t ∈ us, t.IsValid := by
        intro t ht
        rcases hread with hread | ⟨hread, -⟩ <;> exact hts t (by simp [hread, ht])
      rw [hsegs, Reading.ofSegments_ok]
      exact Bool.and_eq_true_iff.2 ⟨hs.isWellFormed hus, hrest⟩
    · rwa [hsegs, Reading.ofSegments_error]
termination_by ts.length

end Grammar

/-- What is kept of a source text can be written down. -/
theorem Program.isWellFormed_parse (source : String) : (parse source).program.isWellFormed :=
  Grammar.areWellFormed_ofSegments 0 _ fun _ => Token.isValid_of_mem_scan

/-- **What is kept can be written down.** Whatever errors a source text has, each name in the
    program that is kept of it is a word that is not reserved, each integer literal is within range,
    and no string literal contains a quote; and the canonical text of this program is read as the
    same program, without an error. -/
theorem Program.parse_text_parse (source : String) :
    (parse source).program.isWellFormed ∧
      parse (parse source).program.text = ⟨(parse source).program, []⟩ :=
  have h := isWellFormed_parse source
  ⟨h, ((parse source).program.written h).parse_eq⟩

/-- Zeros in front of an integer, an error, and a string literal without its closing quote. -/
example : (Program.parse "const a = 007; fn(x, 1) \x7b y; \x7d; \"b").program.statements =
    [.const "a" (.int 7), .expr (.str "b")] := by
  decide +kernel

end ConstScript
