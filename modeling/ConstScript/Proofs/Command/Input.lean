import ConstScript.Command.Interactive

set_option autoImplicit false

/-! # How an input is cut and decoded

The lines of an input are the only way to cut it after each line feed (`lines_eq_iff`). So an input
that is put together from lines is cut into the same lines again, and each line of an input can be
taken out without an effect on how the others are cut.

Bytes are decoded if they are the encoding of some text, and to this text. -/

namespace ConstScript.Command

/-! ## Lines -/

/-- What an input is cut into: each line is not empty, and ends with its only line feed, but the last
    one may be without. -/
inductive AreLines : List (List UInt8) → Prop
  | nil : AreLines []
  | unended {line : List UInt8} : line ≠ [] → 10 ∉ line → AreLines [line]
  | ended {line : List UInt8} {rest : List (List UInt8)} : 10 ∉ line → AreLines rest →
      AreLines ((line ++ [10]) :: rest)

theorem firstLine_of_not_mem {bytes : List UInt8} (h : 10 ∉ bytes) :
    firstLine bytes = (bytes, []) := by
  induction bytes with
  | nil => rfl
  | cons b bytes ih =>
      rw [List.mem_cons, not_or] at h
      rw [firstLine, if_neg (Ne.symm h.1), ih h.2]

theorem firstLine_append {line : List UInt8} (h : 10 ∉ line) (rest : List UInt8) :
    firstLine (line ++ 10 :: rest) = (line ++ [10], rest) := by
  induction line with
  | nil => rfl
  | cons b line ih =>
      rw [List.mem_cons, not_or] at h
      rw [List.cons_append, firstLine, if_neg (Ne.symm h.1), ih h.2]
      rfl

theorem lines_of_not_mem {bytes : List UInt8} (hne : bytes ≠ []) (h : 10 ∉ bytes) :
    lines bytes = [bytes] := by
  obtain ⟨b, bytes, rfl⟩ := List.exists_cons_of_ne_nil hne
  rw [lines, firstLine_of_not_mem h, lines]

theorem lines_append {line : List UInt8} (h : 10 ∉ line) (rest : List UInt8) :
    lines (line ++ 10 :: rest) = (line ++ [10]) :: lines rest := by
  have hfirst := firstLine_append h rest
  obtain ⟨b, bytes, heq⟩ := List.exists_cons_of_ne_nil
    (List.append_ne_nil_of_right_ne_nil line (List.cons_ne_nil 10 rest))
  rw [heq] at hfirst ⊢
  rw [lines, hfirst]

/-- An input is cut into lines, which make up the input again. -/
theorem areLines_lines (bytes : List UInt8) :
    AreLines (lines bytes) ∧ (lines bytes).flatten = bytes := by
  induction h : bytes.length using Nat.strongRecOn generalizing bytes with
  | _ n ih =>
      by_cases hfeed : 10 ∈ bytes
      · obtain ⟨line, rest, rfl, hline⟩ := List.eq_append_cons_of_mem hfeed
        obtain ⟨hrest, hflatten⟩ := ih rest.length (by simp at h; omega) rest rfl
        rw [lines_append hline]
        exact ⟨.ended hline hrest, by rw [List.flatten_cons, hflatten, List.append_assoc]; rfl⟩
      · by_cases hne : bytes = []
        · subst hne
          rw [lines]
          exact ⟨.nil, rfl⟩
        · rw [lines_of_not_mem hne hfeed]
          exact ⟨.unended hne hfeed, by simp⟩

/-- What is cut into lines already is cut into the same ones. -/
theorem AreLines.lines_flatten {ls : List (List UInt8)} (h : AreLines ls) :
    lines ls.flatten = ls := by
  induction h with
  | nil => rw [List.flatten_nil, lines]
  | unended hne hline => rw [List.flatten_singleton, lines_of_not_mem hne hline]
  | ended hline _ ih =>
      rw [List.flatten_cons, List.append_assoc, List.singleton_append, lines_append hline, ih]

/-- The lines of an input are the only ones. -/
theorem lines_eq_iff {bytes : List UInt8} {ls : List (List UInt8)} :
    lines bytes = ls ↔ AreLines ls ∧ ls.flatten = bytes := by
  constructor
  · rintro rfl
    exact areLines_lines bytes
  · rintro ⟨hls, rfl⟩
    exact hls.lines_flatten

/-- A line can be taken out. -/
theorem AreLines.remove {before after : List (List UInt8)} {line : List UInt8}
    (h : AreLines (before ++ line :: after)) : AreLines (before ++ after) := by
  induction before with
  | nil =>
      cases h with
      | unended => exact .nil
      | ended _ hafter => exact hafter
  | cons first before ih =>
      generalize hls : before ++ line :: after = ls at h ih
      rw [List.cons_append, hls] at h
      cases h with
      | unended => exact absurd hls (by simp)
      | ended hfirst hrest => exact .ended hfirst (ih hrest)

/-! ## Texts -/

/-- The bytes of a text. -/
def encoded (text : String) : List UInt8 := text.toUTF8.data.toList

theorem fromUTF8?_eq_some_iff {bytes : ByteArray} {text : String} :
    String.fromUTF8? bytes = some text ↔ text.toUTF8 = bytes := by
  unfold String.fromUTF8?
  constructor
  · intro h
    split at h
    · obtain rfl := Option.some.inj h
      rfl
    · cases h
  · rintro rfl
    exact dif_pos text.isValidUTF8

theorem decodeText_encoded (text : String) : decodeText (encoded text) = .ok text := by
  rw [decodeText, encoded, Array.toArray_toList, fromUTF8?_eq_some_iff.2 rfl]

/-- Bytes cannot be decoded if they are the encoding of no text, and only then. -/
theorem decodeText_eq (bytes : List UInt8) :
    (∃ text, encoded text = bytes ∧ decodeText bytes = .ok text) ∨
      (∀ text, encoded text ≠ bytes) ∧ decodeText bytes = .error .notText := by
  cases h : String.fromUTF8? ⟨bytes.toArray⟩ with
  | some text =>
      refine .inl ⟨text, ?_, by rw [decodeText, h]⟩
      rw [encoded, fromUTF8?_eq_some_iff.1 h]
  | none =>
      refine .inr ⟨?_, by rw [decodeText, h]⟩
      rintro text rfl
      rw [encoded, Array.toArray_toList, fromUTF8?_eq_some_iff.2 rfl] at h
      cases h

end ConstScript.Command
