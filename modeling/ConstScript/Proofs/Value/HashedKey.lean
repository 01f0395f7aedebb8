import Mathlib
import ConstScript.Proofs.Value.Table

set_option autoImplicit false

/-! # Keys that are told apart

Different keys can have the same hashed key, but only if they are strings that the hash function
confuses. As long as it tells the strings among some keys apart, a table that values are put into
under these keys finds under each of them the value that was put there last. -/

namespace ConstScript

variable [Hashing]

/-- Different strings among the keys have different hashes. -/
def TellsApart (keys : List Key) : Prop :=
  ∀ s t : String, .str s ∈ keys → .str t ∈ keys → Hashing.hash s = Hashing.hash t → s = t

variable {keys : List Key} {key k l : Key}

theorem TellsApart.mono {keys' : List Key} (h : TellsApart keys) (hsub : keys' ⊆ keys) :
    TellsApart keys' :=
  fun s t hs ht => h s t (hsub hs) (hsub ht)

/-- Keys that are told apart have different hashed keys. -/
theorem Key.hashed_inj (h : TellsApart keys) (hk : k ∈ keys) (hl : l ∈ keys) :
    k.hashed = l.hashed ↔ k = l := by
  refine ⟨fun heq => ?_, fun heq => heq ▸ rfl⟩
  cases k with
  | int m => cases l with
    | int n =>
        have hbits : m.toUInt64 = n.toUInt64 := congrArg HashedKey.hash heq
        exact congrArg Key.int (Int64.toBitVec_inj.1 (congrArg UInt64.toBitVec hbits))
    | bool c | str t => simp [hashed] at heq
  | bool b => cases l with
    | bool c =>
        have hinj : ∀ b c : Bool, b.toUInt64 = c.toUInt64 → b = c := by decide
        exact congrArg Key.bool (hinj b c (congrArg HashedKey.hash heq))
    | int n | str t => simp [hashed] at heq
  | str s => cases l with
    | str t => exact congrArg Key.str (h s t hk hl (congrArg HashedKey.hash heq))
    | int n | bool c => simp [hashed] at heq

/-! ## Values put under keys -/

namespace Table

variable {α : Type} {values : List (Key × α)}

/-- The entries that are made for keys and values. -/
def entries (values : List (Key × α)) : List (Entry α) :=
  values.map fun p => entry p.1 p.2

theorem map_hashed_entries (values : List (Key × α)) :
    (entries values).map Entry.hashed = (values.map Prod.fst).map Key.hashed := by
  rw [entries, List.map_map, List.map_map]
  rfl

theorem hashed_eq_of_mem_entries {e : Entry α} (h : e ∈ entries values) :
    e.hashed = e.key.hashed := by
  obtain ⟨p, -, rfl⟩ := List.mem_map.1 h
  rfl

/-- Under the hashed key of a key, a table has what was put last under this hashed key. -/
theorem find?_ofPuts_entries (key : Key) (values : List (Key × α)) :
    find? key.hashed (ofPuts (entries values))
      = (values.reverse.find? fun p => p.1.hashed = key.hashed).map fun p => entry p.1 p.2 := by
  rw [find?_ofPuts, entries, ← List.map_reverse, find?, List.find?_map]
  rfl

/-- If the keys are told apart, this is what was put last under the key itself. -/
theorem find?_hashed_eq_lookup (h : TellsApart (key :: values.map Prod.fst)) :
    (values.find? fun p => p.1.hashed = key.hashed) = (values.lookup key).map (key, ·) := by
  induction values with
  | nil => rfl
  | cons p values ih =>
      have hrest : TellsApart (key :: values.map Prod.fst) := h.mono (by simp)
      have hiff : p.1.hashed = key.hashed ↔ p.1 = key :=
        Key.hashed_inj h (by simp) List.mem_cons_self
      by_cases hkey : p.1 = key
      · subst hkey
        rw [List.find?_cons_of_pos (by simp), List.lookup_cons, beq_self_eq_true]
        rfl
      · rw [List.find?_cons_of_neg (by simpa [hiff] using hkey), ih hrest, List.lookup_cons,
          beq_false_of_ne (Ne.symm hkey)]

theorem find?_ofPuts_entries_of_tellsApart (h : TellsApart (key :: values.map Prod.fst)) :
    find? key.hashed (ofPuts (entries values)) = (values.reverse.lookup key).map (entry key) := by
  have hreverse : TellsApart (key :: values.reverse.map Prod.fst) := h.mono (by simp)
  rw [find?_ofPuts_entries, find?_hashed_eq_lookup hreverse, Option.map_map]
  rfl

/-- If the keys are told apart, a table has as many entries as there are different keys. -/
theorem length_ofPuts_entries (h : TellsApart (values.map Prod.fst)) :
    (ofPuts (entries values)).length = (values.map Prod.fst).dedup.length := by
  have hnodup : ((values.map Prod.fst).dedup.map Key.hashed).Nodup := by
    refine (List.nodup_dedup _).map_on fun k hk l hl heq => ?_
    exact (Key.hashed_inj h (List.mem_dedup.1 hk) (List.mem_dedup.1 hl)).1 heq
  have hperm : ((ofPuts (entries values)).map Entry.hashed).Perm
      ((values.map Prod.fst).dedup.map Key.hashed) := by
    refine (List.perm_ext_iff_of_nodup (nodup_ofPuts _) hnodup).2 fun hashed => ?_
    rw [map_hashed_ofPuts, Hashing.mem_order_iff, map_hashed_entries]
    simp only [List.mem_map, List.mem_dedup]
  rw [← List.length_map Entry.hashed, hperm.length_eq, List.length_map]

end Table

end ConstScript
