import Mathlib
import ConstScript.Value.Render

set_option autoImplicit false

/-! # Data and their texts

Integers, booleans, arrays of data, and maps from integers and booleans to data are values that have
literals. Their texts look like these literals. A map can be shown with its pairs in any order, and
so a value has more than one text; `Value.text` is the one in which the pairs of each map are in the
order of its table. -/

namespace ConstScript

/-! ## Data -/

/-- The keys that are shown as they are written. -/
def Key.isData : Key → Bool
  | int _ | bool _ => true
  | str _ => false

/-- Values that are made of integers, booleans, arrays and maps only. Maps have one entry for each
    key, and in whatever order the table lists them. -/
inductive Value.IsData [Hashing] : Value → Prop
  | int (n : Int64) : IsData (.int n)
  | bool (b : Bool) : IsData (.bool b)
  | array {id : ObjectId} {items : List Value} : (∀ v ∈ items, IsData v) →
      IsData (.array id items)
  | map {id : ObjectId} {entries : List (Entry Value)} : (entries.map Entry.hashed).Nodup →
      (∀ e ∈ entries, e.hashed = e.key.hashed) → (∀ e ∈ entries, e.key.isData) →
      (∀ e ∈ entries, IsData e.value) → IsData (.map id entries)

/-- The integer is in the value: it is the value itself, or it is an item, a key or a value in an
    array or a map, at any depth. -/
inductive Value.Mentions (n : Int64) : Value → Prop
  | self : Mentions n (.int n)
  | item {id : ObjectId} {items : List Value} {v : Value} : v ∈ items → Mentions n v →
      Mentions n (.array id items)
  | key {id : ObjectId} {entries : List (Entry Value)} {e : Entry Value} : e ∈ entries →
      e.key = .int n → Mentions n (.map id entries)
  | entry {id : ObjectId} {entries : List (Entry Value)} {e : Entry Value} : e ∈ entries →
      Mentions n e.value → Mentions n (.map id entries)

namespace Value

variable {m n : Int64} {id : ObjectId}

@[simp] theorem mentions_int : (int m).Mentions n ↔ m = n :=
  ⟨fun h => by cases h; rfl, fun h => h ▸ .self⟩

@[simp] theorem not_mentions_bool {b : Bool} : ¬ (bool b).Mentions n := nofun

@[simp] theorem mentions_array {items : List Value} :
    (array id items).Mentions n ↔ ∃ v ∈ items, v.Mentions n := by
  constructor
  · intro h
    cases h with
    | item hv hn => exact ⟨_, hv, hn⟩
  · exact fun ⟨v, hv, hn⟩ => .item hv hn

@[simp] theorem mentions_map {entries : List (Entry Value)} :
    (map id entries).Mentions n ↔ ∃ e ∈ entries, e.key = .int n ∨ e.value.Mentions n := by
  constructor
  · intro h
    cases h with
    | key he hn => exact ⟨_, he, .inl hn⟩
    | entry he hn => exact ⟨_, he, .inr hn⟩
  · rintro ⟨e, he, hn | hn⟩
    · exact .key he hn
    · exact .entry he hn

end Value

/-! ## Texts -/

mutual

/-- The text is one of the value, with the pairs of each map in some order. -/
inductive Value.Shows : Value → String → Prop
  | array {id : ObjectId} {items : List Value} {texts : List String} :
      List.Forall₂ Value.Shows items texts →
      Value.Shows (.array id items) ("[" ++ joinWith ", " texts ++ "]")
  | map {id : ObjectId} {entries shown : List (Entry Value)} {texts : List String} :
      shown.Perm entries → List.Forall₂ Value.ShowsPair shown texts →
      Value.Shows (.map id entries) ("\x7b" ++ joinWith ", " texts ++ "\x7d")
  | other {v : Value} : v.kind ≠ .array → v.kind ≠ .map → Value.Shows v v.text

/-- The text is one of a pair of a map. -/
inductive Value.ShowsPair : Entry Value → String → Prop
  | mk (hashed : HashedKey) (k : Key) {v : Value} {text : String} : Value.Shows v text →
      Value.ShowsPair ⟨hashed, k, v⟩ (k.text ++ ": " ++ text)

end

mutual

/-- The text of a value is one of its texts. -/
theorem Value.shows_text : (v : Value) → v.Shows v.text
  | .array _ items => .array (Value.show_texts items)
  | .map _ entries => .map (.refl _) (Value.show_entryTexts entries)
  | .int _ | .bool _ | .str _ | .null | .function _ | .builtin _ | .error _ =>
      .other nofun nofun

theorem Value.show_texts : (vs : List Value) → List.Forall₂ Value.Shows vs (Value.texts vs)
  | [] => .nil
  | v :: vs => .cons v.shows_text (Value.show_texts vs)

theorem Value.show_entryTexts : (entries : List (Entry Value)) →
    List.Forall₂ Value.ShowsPair entries (Value.entryTexts entries)
  | [] => .nil
  | ⟨hashed, k, v⟩ :: entries =>
      .cons (.mk hashed k v.shows_text) (Value.show_entryTexts entries)

end

/-- A map is shown like one whose pairs are in another order. -/
theorem Value.shows_of_perm {id : ObjectId} {entries shown : List (Entry Value)}
    (h : shown.Perm entries) : (Value.map id entries).Shows (Value.map id shown).text :=
  .map h (Value.show_entryTexts shown)

end ConstScript
