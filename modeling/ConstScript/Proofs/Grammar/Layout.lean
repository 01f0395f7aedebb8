import ConstScript.Grammar.Program
import ConstScript.Proofs.Token.Writing

set_option autoImplicit false

/-! # The layout of a source text

What is read from a text depends on nothing but its tokens, and these can be found in it again
whatever blanks stand between them. So a text can be laid out freely: where two tokens are
neighbours there has to be a blank, and else it does not matter where the blanks are, which ones
they are and how many. -/

namespace ConstScript

namespace Token

/-- The text of tokens that are written one after another, each with some characters in front of it,
    and with some more at the end. -/
def layOut (spaced : List (List Char × Token)) (last : List Char) : String :=
  String.ofList (spaced.flatMap (fun p => p.1 ++ p.2.written) ++ last)

/-- Only blanks stand around the tokens, and there are some wherever two tokens are neighbours. -/
structure KeepsApart (spaced : List (List Char × Token)) (last : List Char) : Prop where
  blanks : ∀ p ∈ spaced, ∀ c ∈ p.1, isBlank c
  apart : ∀ p ∈ spaced.tail, p.1 ≠ []
  last : ∀ c ∈ last, isBlank c

variable {spaced : List (List Char × Token)} {last : List Char}

/-- Tokens that are laid out are scanned as the same tokens. -/
theorem KeepsApart.scan_layOut (h : KeepsApart spaced last)
    (hvalid : ∀ p ∈ spaced, p.2.IsValid) :
    scan (layOut spaced last).toList = spaced.map Prod.snd := by
  let occurrence (p : List Char × Token) : Occurrence := ⟨p.1, p.2, p.2.written⟩
  have hwritten : WrittenOut (spaced.map occurrence) last := by
    refine ⟨List.forall_mem_map.2 hvalid, List.forall_mem_map.2 fun _ _ => rfl,
      List.forall_mem_map.2 h.blanks, ?_, h.last⟩
    rw [← List.map_tail]
    exact List.forall_mem_map.2 h.apart
  have hscan := hwritten.scan_eq
  rw [List.flatMap_map, List.map_map] at hscan
  rw [layOut, String.toList_ofList]
  exact hscan

end Token

/-- What is read from a text depends on its tokens only. -/
theorem Program.parse_congr {source source' : String}
    (h : Token.scan source.toList = Token.scan source'.toList) :
    Program.parse source = Program.parse source' := by
  rw [parse, parse, h]

open Token

/-- **Layout is free.** Let blanks keep tokens apart. If source texts can give these tokens, the
    text that is laid out in this way is scanned into exactly them, and readings report them one
    after another and from then on the end of the input. All tokens of a source text are such
    tokens; and if they are the tokens of a source text, the text is read as that one is. -/
theorem Program.parse_layOut {spaced : List (List Char × Token)} {last : List Char}
    (h : KeepsApart spaced last) :
    ((∀ p ∈ spaced, p.2.IsValid) →
      scan (layOut spaced last).toList = spaced.map Prod.snd ∧
      ∀ n, report (nthNext n (layOut spaced last).toList) = report (spaced.map Prod.snd)[n]?) ∧
    ∀ source : String, (∀ t ∈ scan source.toList, t.IsValid) ∧
      (spaced.map Prod.snd = scan source.toList →
        Program.parse (layOut spaced last) = Program.parse source) := by
  refine ⟨fun hvalid => ?_, fun source => ⟨fun t => isValid_of_mem_scan, fun hsource => ?_⟩⟩
  · have hscan := h.scan_layOut hvalid
    exact ⟨hscan, fun n => by rw [nthNext_eq_getElem?, hscan]⟩
  · have hvalid : ∀ p ∈ spaced, p.2.IsValid := by
      intro p hp
      have hmem : p.2 ∈ scan source.toList := hsource ▸ List.mem_map_of_mem hp
      exact isValid_of_mem_scan hmem
    exact parse_congr ((h.scan_layOut hvalid).trans hsource)

/-- Neighbours that would run together without a blank, a name that starts with a reserved word, and
    a string literal with blanks, symbols and a letter of several bytes in it. -/
theorem Program.parse_layOut_neighbours :
    let source := "fnx= ==fn007\"if \n = é\"@"
    let spaced : List (List Char × Token) :=
      [(['\n'], .ident "fnx"), ([' '], .symbol .assign), (['\t', '\r'], .symbol .equal),
        ([' '], .keyword .fn), ([' '], .int "007"), (['\r', '\n'], .str "if \n = é"),
        ([' '], .illegal '@')]
    KeepsApart spaced [' '] ∧ (∀ p ∈ spaced, p.2.IsValid) ∧
    layOut spaced [' '] = "\nfnx =\t\r== fn 007\r\n\"if \n = é\" @ " ∧
    scan (layOut spaced [' ']).toList = spaced.map Prod.snd ∧
    Program.parse (layOut spaced [' ']) = Program.parse source := by
  intro source spaced
  have hapart : KeepsApart spaced [' '] := by
    refine ⟨?_, by decide, ?_⟩ <;> simp [spaced, isBlank]
  have hsource : spaced.map Prod.snd = scan source.toList := by decide +kernel
  obtain ⟨hscan, hparse⟩ := Program.parse_layOut hapart
  have hvalid : ∀ p ∈ spaced, p.2.IsValid := by
    intro p hp
    have hmem : p.2 ∈ scan source.toList := hsource ▸ List.mem_map_of_mem hp
    exact (hparse source).1 p.2 hmem
  exact ⟨hapart, hvalid, by decide +kernel, (hscan hvalid).1, (hparse source).2 hsource⟩

end ConstScript
