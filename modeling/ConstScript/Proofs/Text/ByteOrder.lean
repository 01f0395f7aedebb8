import Mathlib.Data.String.Basic
import Mathlib.Order.Defs.LinearOrder
import Mathlib.Tactic.SplitIfs

set_option autoImplicit false

/-! # The order of texts by their bytes

Texts are compared character by character, by the numbers of the characters. Comparing them byte by
byte, as they are encoded in UTF-8, comes to the same: of two different characters the smaller one
has the smaller bytes, and they differ before either of them ends. -/

namespace ConstScript

/-- The bytes of a text, which is encoded in UTF-8. -/
def utf8Bytes (text : String) : List UInt8 :=
  text.toUTF8.data.toList

theorem utf8Bytes_eq (text : String) :
    utf8Bytes text = text.toList.flatMap String.utf8EncodeChar := by
  conv => lhs; rw [utf8Bytes, ← String.ofList_toList (s := text)]
  exact List.toList_data_toByteArray

theorem toNat_byte {n : Nat} (h : n < 256) : (UInt8.ofNat n).toNat = n :=
  UInt8.toNat_ofNat_of_lt h

/-- A smaller character has smaller bytes, whatever follows either of them. -/
theorem utf8EncodeChar_append_lt {c d : Char} (h : c < d) (xs ys : List UInt8) :
    String.utf8EncodeChar c ++ xs < String.utf8EncodeChar d ++ ys := by
  have hlt : c.val.toNat < d.val.toNat := h
  have hmax : d.val.toNat < 1114112 := by
    rcases d.valid with hd | hd
    · exact Nat.lt_trans hd (by decide)
    · exact hd.2
  -- What is left of the number above six, twelve and eighteen bits.
  have hbits (n : Nat) : n / 64 / 64 = n / 4096 ∧ n / 4096 / 64 = n / 262144 ∧
      (n < 1114112 → n / 262144 % 8 = n / 262144) :=
    ⟨Nat.div_div_eq_div_mul n 64 64, Nat.div_div_eq_div_mul n 4096 64, by omega⟩
  have hc := hbits c.val.toNat
  have hd := hbits d.val.toNat
  -- A longer encoding begins with a larger byte; encodings of one length count upwards.
  simp only [String.utf8EncodeChar]
  split_ifs <;>
  · simp (disch := omega) only [List.cons_append, List.cons_lt_cons_iff, UInt8.lt_iff_toNat_lt,
      ← UInt8.toNat_inj, toNat_byte]
    omega

theorem nil_lt_utf8EncodeChar_append (c : Char) (xs : List UInt8) :
    [] < String.utf8EncodeChar c ++ xs := by
  obtain ⟨b, bs, hbytes⟩ := List.exists_cons_of_ne_nil (String.utf8EncodeChar_ne_nil (c := c))
  rw [hbytes]
  exact List.nil_lt_cons _ _

/-- What is the same at the beginning does not matter. -/
theorem append_lt_append_left_iff (bs xs ys : List UInt8) : bs ++ xs < bs ++ ys ↔ xs < ys := by
  induction bs with
  | nil => rfl
  | cons b bs ih => simp [ih]

/-- Lists of characters are ordered as their encodings. -/
theorem flatMap_utf8EncodeChar_lt_iff (cs ds : List Char) :
    cs.flatMap String.utf8EncodeChar < ds.flatMap String.utf8EncodeChar ↔ cs < ds := by
  induction cs generalizing ds with
  | nil =>
      cases ds with
      | nil => simp
      | cons d ds => simp [nil_lt_utf8EncodeChar_append]
  | cons c cs ih =>
      cases ds with
      | nil => simp
      | cons d ds =>
          rw [List.flatMap_cons, List.flatMap_cons, List.cons_lt_cons_iff]
          rcases lt_trichotomy c d with hlt | rfl | hgt
          · simp [utf8EncodeChar_append_lt hlt, hlt]
          · simp [append_lt_append_left_iff, ih]
          · have hnot := List.lt_asymm (utf8EncodeChar_append_lt hgt
              (ds.flatMap String.utf8EncodeChar) (cs.flatMap String.utf8EncodeChar))
            simp [hnot, hgt.ne', lt_asymm hgt]

/-- **Texts are ordered as their bytes.** -/
theorem utf8Bytes_lt_iff (s t : String) : utf8Bytes s < utf8Bytes t ↔ s < t := by
  rw [utf8Bytes_eq, utf8Bytes_eq, flatMap_utf8EncodeChar_lt_iff, String.lt_iff_toList_lt]

end ConstScript
