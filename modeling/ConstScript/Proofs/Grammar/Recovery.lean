import ConstScript.Proofs.Grammar.Language
import ConstScript.Proofs.Token.Scan

set_option autoImplicit false

/-! # Where reading goes on after an error

Recovery counts brackets from wherever a statement failed, and it is not obvious that this is the
count from the start of the statement. It is, because reading gets stuck only after the beginning of
some statement, and a statement has each `;` inside at least one bracket of its own: whatever was
read before the failure holds no `;` at which reading could have gone on.

So the segments partition the input, and no bracket is open where one of them begins. -/

namespace ConstScript

namespace Grammar

/-! ## Brackets of phrases -/

/-- The tokens close the brackets that they open and no others, and each `;` among them is inside at
    least `margin` of these. -/
structure Balanced (margin : Nat) (ts : List Token) : Prop where
  openBrackets_eq : ∀ depth, openBrackets depth ts = depth
  le_openBrackets : ∀ depth before after, ts = before ++ .symbol .semicolon :: after →
    depth + margin ≤ openBrackets depth before

/-- A `;` of two stretches is in the first or in the second. -/
theorem exists_of_append_eq {ts us before after : List Token}
    (h : ts ++ us = before ++ .symbol .semicolon :: after) :
    (∃ bs, ts = before ++ .symbol .semicolon :: bs) ∨
    (∃ as, before = ts ++ as ∧ us = as ++ .symbol .semicolon :: after) := by
  rcases List.append_eq_append_iff.1 h with ⟨as, hbefore, hus⟩ | ⟨bs, hts, hbs⟩
  · exact .inr ⟨as, hbefore, hus⟩
  · cases bs with
    | nil => exact .inr ⟨[], by simpa using hts.symm, hbs.symm⟩
    | cons t bs =>
        obtain ⟨rfl, -⟩ := List.cons.inj hbs
        exact .inl ⟨bs, hts⟩

/-- A token that is neither a bracket nor a `;`. -/
def isPlain : Token → Bool
  | .symbol s => !s.opens && !s.closes && s ≠ .semicolon
  | _ => true

theorem bracketsAfter_of_isPlain {t : Token} (h : isPlain t) (depth : Nat) :
    t.bracketsAfter depth = depth := by
  cases t with
  | symbol s => cases s <;> first | rfl | exact absurd h (by decide)
  | _ => rfl

namespace Balanced

variable {margin : Nat} {ts us : List Token}

theorem nil : Balanced margin [] where
  openBrackets_eq _ := rfl
  le_openBrackets _ before after h := by simp at h

theorem cons {t : Token} (ht : isPlain t) (h : Balanced margin ts) : Balanced margin (t :: ts) where
  openBrackets_eq depth := by
    rw [openBrackets_cons, bracketsAfter_of_isPlain ht, h.openBrackets_eq]
  le_openBrackets depth before after heq := by
    cases before with
    | nil =>
        obtain ⟨rfl, -⟩ := List.cons.inj heq
        exact absurd ht (by decide)
    | cons t' before =>
        obtain ⟨rfl, rfl⟩ := List.cons.inj heq
        rw [openBrackets_cons, bracketsAfter_of_isPlain ht]
        exact h.le_openBrackets depth before after rfl

theorem append (hts : Balanced margin ts) (hus : Balanced margin us) :
    Balanced margin (ts ++ us) where
  openBrackets_eq depth := by
    rw [openBrackets_append, hts.openBrackets_eq, hus.openBrackets_eq]
  le_openBrackets depth before after heq := by
    rcases exists_of_append_eq heq with ⟨bs, hts'⟩ | ⟨as, rfl, hus'⟩
    · exact hts.le_openBrackets depth before bs hts'
    · rw [openBrackets_append, hts.openBrackets_eq]
      exact hus.le_openBrackets depth as after hus'

/-- A `;` that is at a margin is so without it. -/
theorem loosen (h : Balanced margin ts) : Balanced 0 ts where
  openBrackets_eq := h.openBrackets_eq
  le_openBrackets depth before after heq :=
    Nat.le_trans (Nat.le_add_right _ _) (h.le_openBrackets depth before after heq)

theorem semicolon : Balanced 0 [.symbol .semicolon] where
  openBrackets_eq _ := rfl
  le_openBrackets depth before after heq := by
    cases before with
    | nil => exact Nat.le_refl _
    | cons t before => simp at heq

/-- Brackets shelter each `;` between them. -/
theorem enclosed {opening closing : Symbol} (hopening : opening.opens) (hclosing : closing.closes)
    (h : Balanced 0 ts) : Balanced 1 (enclosed opening closing ts) := by
  have hopen : ∀ depth, (Token.symbol opening).bracketsAfter depth = depth + 1 := by
    intro depth
    rw [Token.bracketsAfter, if_pos hopening]
  have hclose : ∀ depth, (Token.symbol closing).bracketsAfter (depth + 1) = depth := by
    intro depth
    cases closing <;> first | rfl | exact absurd hclosing (by decide)
  refine ⟨fun depth => ?_, fun depth before after heq => ?_⟩
  · rw [Grammar.enclosed, openBrackets_cons, openBrackets_append, hopen, h.openBrackets_eq,
      openBrackets_cons, hclose, openBrackets_nil]
  · cases before with
    | nil =>
        obtain ⟨hsemi, -⟩ := List.cons.inj heq
        rw [Token.symbol.inj hsemi] at hopening
        exact absurd hopening (by decide)
    | cons t before =>
        obtain ⟨rfl, hinner⟩ := List.cons.inj heq
        rw [openBrackets_cons, hopen]
        rcases exists_of_append_eq hinner with ⟨bs, hts⟩ | ⟨as, -, has⟩
        · exact h.le_openBrackets (depth + 1) before bs hts
        · have hsemi : Token.symbol .semicolon ∈ [Token.symbol closing] := by
            rw [has]
            exact List.mem_append_right _ List.mem_cons_self
          rw [← Token.symbol.inj (List.mem_singleton.1 hsemi)] at hclosing
          exact absurd hclosing (by decide)

end Balanced

theorem balanced_parameterTokens (params : List String) :
    Balanced 0 (parameterTokens params) := by
  have hmore : ∀ ps : List String,
      Balanced 0 (ps.flatMap (fun q => [.symbol .comma, .ident q])) := by
    intro ps
    induction ps with
    | nil => exact .nil
    | cons q ps ih => exact .cons rfl (.cons rfl ih)
  cases params with
  | nil => exact .nil
  | cons p ps => exact .cons rfl (hmore ps)

/-- By how many brackets each `;` of a phrase is enclosed at least. -/
def Phrase.margin : Phrase → Nat
  | .statements => 0
  | _ => 1

/-- The brackets of a phrase are balanced, and each `;` of it is inside some of them unless the
    phrase is a list of statements. -/
theorem Derives.balanced {n : Phrase} {tree : n.Tree} {ts : List Token} (h : Derives n tree ts) :
    Balanced n.margin ts := by
  induction h with
  | name | int | str | trueWord | falseWord => exact .cons rfl .nil
  | noLinks | noMoreItems | noItems | noPairs | noStatements => exact .nil
  | group _ ih | array _ ih | map _ ih => exact .enclosed rfl rfl ih.loosen
  | cond _ _ ihc iht => exact .cons rfl (ihc.append (.enclosed rfl rfl iht))
  | condElse _ _ _ ihc iht ihe =>
      exact .cons rfl ((ihc.append (.enclosed rfl rfl iht)).append
        (.cons rfl (.enclosed rfl rfl ihe)))
  | fn params _ ih =>
      exact .cons rfl ((Balanced.enclosed rfl rfl (balanced_parameterTokens params)).append
        (.enclosed rfl rfl ih))
  | chainHead _ ih | bare _ ih | expr _ ih => exact ih
  | call _ _ ihf ihargs => exact ihf.append (.enclosed rfl rfl ihargs.loosen)
  | index _ _ ihc ihp => exact ihc.append (.enclosed rfl rfl ihp.loosen)
  | signed op _ ih => exact ih.cons (by cases op <;> rfl)
  | link op _ _ ihe ihls => exact (ihe.append ihls).cons (by cases op <;> rfl)
  | expression _ _ ihe ihls | items _ _ ihe ihls => exact ihe.append ihls
  | moreItems _ _ ihe ihes => exact (ihe.append ihes).cons rfl
  | lastPair _ _ ihk ihv => exact ihk.append (ihv.cons rfl)
  | pair _ _ _ ihk ihv ihps => exact ihk.append ((ihv.append (ihps.cons rfl)).cons rfl)
  | const name _ ih => exact .cons rfl (.cons rfl (ih.cons rfl))
  | ret _ ih => exact ih.cons rfl
  | closed _ _ ihs ihss => exact ihs.loosen.append (Balanced.semicolon.append ihss)
  | unclosed _ _ _ ihs ihss => exact ihs.loosen.append ihss

/-! ## Failures -/

/-- The beginning of a statement holds no `;` at which reading could go on. -/
theorem Balanced.noStop {ts whole : List Token} (h : Balanced 1 whole) (hts : ts <+: whole)
    (depth : Nat) : NoStop depth depth ts := by
  rintro before after rfl
  obtain ⟨tail, rfl⟩ := hts
  have hle := h.le_openBrackets depth before (after ++ tail) (by simp)
  exact Nat.ne_of_gt hle

theorem position_le (fault : Fault) (ts : List Token) :
    fault.position ts ≤ ts.length - fault.unread.length := by
  unfold Fault.position
  split
  · exact Nat.sub_le _ _
  · exact Nat.le_refl _

/-- **Recovery from where a statement began.** Reading goes on as if the brackets had been counted
    from the start of the failed statement. -/
theorem Stuck.afterFailure_eq {ts : List Token} {fault : Fault} (h : Stuck .statement ts fault)
    (depth : Nat) : afterFailure depth fault ts = recover depth depth ts := by
  obtain ⟨passed, hts, s, tail, hs⟩ := h
  have hposition : fault.position ts ≤ passed.length := by
    have hle := position_le fault ts
    rwa [hts, List.length_append, Nat.add_sub_cancel, ← hts] at hle
  have hleft : ts.take (fault.position ts) <+: passed ++ tail := by
    have htake : ts.take (fault.position ts) = passed.take (fault.position ts) := by
      rw [hts] at hposition ⊢
      exact List.take_append_of_le_length hposition
    rw [htake]
    exact (List.take_prefix _ _).trans (List.prefix_append _ _)
  have hnone : NoStop depth depth (ts.take (fault.position ts)) := hs.balanced.noStop hleft depth
  unfold afterFailure
  rw [← recover_append hnone, List.take_append_drop]

/-! ## Segments -/

/-- What the outcome of a segment says about its tokens and those after it: a statement is read from
    the tokens alone, too, and a fault goes up to the first `;` at which no bracket is open, or to
    the end of the input. -/
inductive Fits : Except Fault Stmt → List Token → List Token → Prop
  | kept {s : Stmt} {ts rest : List Token} :
      Program.ofTokens ts = ⟨⟨[s]⟩, []⟩ → Fits (.ok s) ts rest
  | skipped {fault : Fault} {ts rest : List Token} :
      openBrackets 0 ts = 0 → NoStop 0 0 ts →
      Fits (.error fault) (ts ++ [.symbol .semicolon]) rest
  | last {fault : Fault} {ts : List Token} : NoStop 0 0 ts → Fits (.error fault) ts []

/-- The tokens are the segments one after another. None of them is empty, and no bracket is open
    before any of them. -/
inductive Partition : List Segment → List Token → Prop
  | nil : Partition [] []
  | cons {seg : Segment} {segs : List Segment} {rest : List Token} :
      seg.tokens ≠ [] → seg.depth = 0 → Fits seg.outcome seg.tokens rest → Partition segs rest →
      Partition (seg :: segs) (seg.tokens ++ rest)

theorem Partition.flatMap_tokens {segs : List Segment} {ts : List Token} (h : Partition segs ts) :
    segs.flatMap Segment.tokens = ts := by
  induction h with
  | nil => rfl
  | cons _ _ _ _ ih => rw [List.flatMap_cons, ih]

theorem Partition.length_le {segs : List Segment} {ts : List Token} (h : Partition segs ts) :
    segs.length ≤ ts.length := by
  induction h with
  | nil => exact Nat.le_refl _
  | cons hne _ _ _ ih =>
      have hpos := List.length_pos_iff.2 hne
      rw [List.length_cons, List.length_append]
      omega

/-- The tokens of a statement that is read, with its `;`, are a program of that statement. -/
theorem ReadsStatement.derives_alone {ts used rest : List Token} {s : Stmt}
    (h : ReadsStatement ts s rest) (hts : ts = used ++ rest) :
    Derives .statements [s] used := by
  obtain ⟨us, hs, hread | ⟨hread, -⟩⟩ := h
  · have hused : used = us ++ [.symbol .semicolon] := by
      rw [hts, List.append_cons us] at hread
      exact List.append_cancel_right hread
    rw [hused]
    exact .closed hs .noStatements
  · have hused : used = us ++ [] := by
      rw [hts] at hread
      rw [List.append_cancel_right hread, List.append_nil]
    rw [hused]
    exact .unclosed hs .noStatements (by simp)

/-- **The segments partition the input.** -/
theorem segments_partition (ts : List Token) : Partition (segments 0 ts) ts := by
  by_cases hne : ts = []
  · rw [hne, segments_nil]
    exact .nil
  · obtain ⟨used, rest, hts, hused, hfirst⟩ := segments_cases 0 hne
    have hlt : rest.length < ts.length := by
      rw [hts, List.length_append]
      exact Nat.lt_add_of_pos_left (List.length_pos_iff.2 hused)
    have hrest := segments_partition rest
    -- In each case the first segment leaves no bracket open, so `hrest` is about the others.
    rcases hfirst with ⟨s, hread, hsegs⟩ | ⟨fault, hstuck, hafter, hsegs⟩
    · have halone := hread.derives_alone hts
      have hzero : openBrackets 0 used = 0 := halone.balanced.openBrackets_eq 0
      rw [hsegs, hzero, hts]
      exact .cons hused rfl (.kept (halone.ofSegments_eq 0)) hrest
    · rw [hstuck.afterFailure_eq] at hafter
      rw [hsegs]
      rcases recover_spec 0 0 ts with ⟨skipped, hskipped, hopen, hnone⟩ | ⟨hend, hnone⟩
      · have hused' : used = skipped ++ [.symbol .semicolon] := by
          rw [← hafter, hts, List.append_cons skipped] at hskipped
          exact List.append_cancel_right hskipped
        have hzero : openBrackets 0 used = 0 := by
          rw [hused', openBrackets_append, hopen]
          rfl
        rw [hzero, hts]
        refine .cons hused rfl ?_ hrest
        rw [hused']
        exact .skipped hopen hnone
      · rw [hend] at hafter
        subst hafter
        rw [List.append_nil] at hts
        subst hts
        rw [segments_nil]
        have hwhole : Partition [⟨0, ts, .error fault⟩] (ts ++ []) :=
          .cons hne rfl (.last hnone) .nil
        rwa [List.append_nil] at hwhole
termination_by ts.length

/-- Each segment of a scanned text is scanned from a stretch of it. -/
theorem Partition.exists_infix {segs : List Segment} {ts : List Token} (h : Partition segs ts)
    {cs : List Char} (hcs : Token.scan cs = ts) :
    ∀ seg ∈ segs, ∃ a, a <:+: cs ∧ Token.scan a = seg.tokens := by
  induction h generalizing cs with
  | nil => simp
  | cons _ _ _ _ ih =>
      obtain ⟨a, b, rfl, ha, hb⟩ := Token.exists_scan_append hcs
      refine List.forall_mem_cons.2 ⟨⟨a, (List.prefix_append a b).isInfix, ha⟩, ?_⟩
      intro seg hseg
      obtain ⟨stretch, hstretch, hscan⟩ := ih hb seg hseg
      exact ⟨stretch, hstretch.trans (List.suffix_append a b).isInfix, hscan⟩

theorem Partition.fits {segs : List Segment} {ts : List Token} (h : Partition segs ts) :
    ∀ seg ∈ segs, ∃ rest, Fits seg.outcome seg.tokens rest := by
  induction h with
  | nil => simp
  | cons _ _ hfits _ ih => exact List.forall_mem_cons.2 ⟨⟨_, hfits⟩, ih⟩

end Grammar

/-! ## Programs -/

open Grammar

/-- The segments in which a source text is read. -/
def Program.segments (source : String) : List Segment :=
  Grammar.segments 0 (Token.scan source.toList)

/-- **Error recovery partitions the input.** The tokens of a source text are its segments, each of
    which was read as one statement or one error, in order; a statement is read in the same way from
    the stretch of the text that its segment stands for. -/
theorem Program.parse_partition (source : String) :
    Partition (Program.segments source) (Token.scan source.toList) ∧
    (Program.segments source).flatMap Segment.tokens = Token.scan source.toList ∧
    Program.parse source = Reading.ofSegments (Program.segments source) ∧
    (Program.parse source).program.statements.length + (Program.parse source).errors.length
      = (Program.segments source).length ∧
    (Program.segments source).length ≤ (Token.scan source.toList).length ∧
    ∀ seg ∈ Program.segments source, ∃ text : String, text.toList <:+: source.toList ∧
      Token.scan text.toList = seg.tokens ∧
      ∀ s, seg.outcome = .ok s → Program.parse text = ⟨⟨[s]⟩, []⟩ := by
  have hpartition := segments_partition (Token.scan source.toList)
  refine ⟨hpartition, hpartition.flatMap_tokens, rfl, ?_, hpartition.length_le, ?_⟩
  · rw [Reading.errors, List.length_map]
    exact Reading.length_ofSegments _
  · intro seg hseg
    obtain ⟨cs, hcs, hscan⟩ := hpartition.exists_infix rfl seg hseg
    refine ⟨String.ofList cs, by rwa [String.toList_ofList], by rwa [String.toList_ofList], ?_⟩
    intro s hs
    obtain ⟨rest, hfits⟩ := hpartition.fits seg hseg
    rw [hs] at hfits
    cases hfits with
    | kept halone => rwa [Program.parse, String.toList_ofList, hscan]

end ConstScript
