import ConstScript.Value.Basic
import Mathlib.Data.List.Nodup

set_option autoImplicit false

/-! # What is in a table

A table that entries were put into holds under each hashed key the entry that was put there last, and
nothing else: `Table.find?_ofPuts`. It has one entry for each hashed key (`Table.nodup_ofPuts`), so
its entries are those that are found. The order in which it lists them does not matter for any of
this. -/

namespace ConstScript

namespace Table

variable {α : Type} {hashed : HashedKey} {e : Entry α} {entries puts : List (Entry α)}

/-! ## Finding -/

theorem mem_of_find? (h : find? hashed entries = some e) : e ∈ entries :=
  List.mem_of_find?_eq_some h

theorem hashed_of_find? (h : find? hashed entries = some e) : e.hashed = hashed := by
  simpa using List.find?_some h

theorem find?_cons_self (e : Entry α) (entries : List (Entry α)) :
    find? e.hashed (e :: entries) = some e := by
  simp [find?]

theorem find?_cons_of_ne (h : e.hashed ≠ hashed) (entries : List (Entry α)) :
    find? hashed (e :: entries) = find? hashed entries := by
  simp [find?, h]

theorem isSome_find?_iff : (find? hashed entries).isSome ↔ hashed ∈ entries.map Entry.hashed := by
  simp [find?]

/-- If there is one entry for each hashed key, each of them is found. -/
theorem find?_eq_some_iff (h : (entries.map Entry.hashed).Nodup) :
    find? hashed entries = some e ↔ e ∈ entries ∧ e.hashed = hashed := by
  refine ⟨fun hfind => ⟨mem_of_find? hfind, hashed_of_find? hfind⟩, ?_⟩
  rintro ⟨hmem, rfl⟩
  induction entries with
  | nil => cases hmem
  | cons first rest ih =>
      obtain ⟨hfirst, hrest⟩ := List.nodup_cons.1 h
      rcases List.mem_cons.1 hmem with rfl | hmem
      · exact find?_cons_self _ rest
      · have hne : first.hashed ≠ e.hashed := fun heq => hfirst (heq ▸ List.mem_map_of_mem hmem)
        rw [find?_cons_of_ne hne, ih hrest hmem]

/-! ## What was put into a table -/

variable [Hashing]

/-- A table has what was put last under one of its hashed keys. -/
theorem mem_ofPuts_iff : e ∈ ofPuts puts ↔ find? e.hashed puts.reverse = some e := by
  rw [ofPuts, List.mem_filterMap]
  constructor
  · rintro ⟨hashed, -, hfind⟩
    rwa [hashed_of_find? hfind]
  · intro hfind
    have hmem : e ∈ puts := List.mem_reverse.1 (mem_of_find? hfind)
    exact ⟨e.hashed, (Hashing.mem_order_iff _ _).2 (List.mem_map_of_mem hmem), hfind⟩

theorem mem_of_mem_ofPuts (h : e ∈ ofPuts puts) : e ∈ puts :=
  List.mem_reverse.1 (mem_of_find? (mem_ofPuts_iff.1 h))

/-- The hashed keys are listed in the order of the table. -/
theorem map_hashed_ofPuts (puts : List (Entry α)) :
    (ofPuts puts).map Entry.hashed = Hashing.order (puts.map Entry.hashed) := by
  have hall : ∀ hashed ∈ Hashing.order (puts.map Entry.hashed),
      (find? hashed puts.reverse).map Entry.hashed = some hashed := by
    intro hashed hmem
    have hput : hashed ∈ puts.reverse.map Entry.hashed := by
      rw [List.map_reverse, List.mem_reverse]
      exact (Hashing.mem_order_iff _ _).1 hmem
    obtain ⟨e, he⟩ := Option.isSome_iff_exists.1 (isSome_find?_iff.2 hput)
    rw [he, Option.map_some, hashed_of_find? he]
  rw [ofPuts, List.map_filterMap, List.filterMap_congr hall, List.filterMap_some]

/-- There is one entry for each hashed key. -/
theorem nodup_ofPuts (puts : List (Entry α)) : ((ofPuts puts).map Entry.hashed).Nodup := by
  rw [map_hashed_ofPuts]
  exact Hashing.nodup_order _

/-- Under different hashed keys nothing takes the place of anything else. -/
theorem ofPuts_perm (h : (puts.map Entry.hashed).Nodup) : (ofPuts puts).Perm puts := by
  have hreverse : (puts.reverse.map Entry.hashed).Nodup := by
    rw [List.map_reverse]
    exact List.nodup_reverse.2 h
  refine (List.perm_ext_iff_of_nodup (nodup_ofPuts puts).of_map h.of_map).2 fun e => ?_
  rw [mem_ofPuts_iff, find?_eq_some_iff hreverse, List.mem_reverse]
  exact and_iff_left rfl

/-- A table finds what was put last under the hashed key. -/
theorem find?_ofPuts (hashed : HashedKey) (puts : List (Entry α)) :
    find? hashed (ofPuts puts) = find? hashed puts.reverse := by
  refine Option.ext fun e => ?_
  rw [find?_eq_some_iff (nodup_ofPuts puts), mem_ofPuts_iff]
  constructor
  · rintro ⟨hfind, rfl⟩
    exact hfind
  · intro hfind
    have hhashed := hashed_of_find? hfind
    exact ⟨hhashed ▸ hfind, hhashed⟩

end Table

end ConstScript
