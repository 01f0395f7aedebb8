import ConstScript.Proofs.Value.Equality

set_option autoImplicit false

/-! # Equality of structure

`Value.equal` is an equivalence among well-formed values. Tables are compared in one direction: there
are as many entries in both, and for each entry of the first there is one under the same hashed key
in the second, with an equal key and an equal value. As no hashed key occurs twice, this means that
there are the same hashed keys in both, and equal keys and values under each of them, in whatever
order these were put there and are listed. -/

namespace ConstScript

/-! ## Comparing in one direction -/

/-- If two finite tables have equally many keys, they only have to be compared in one direction. -/
theorem forall_lookup_iff {κ α : Type} {keys keys' : Finset κ} {f f' : κ → Option α}
    (hkeys : ∀ k, k ∈ keys ↔ (f k).isSome) (hkeys' : ∀ k, k ∈ keys' ↔ (f' k).isSome)
    (r : α → α → Prop) :
    (keys.card = keys'.card ∧ ∀ k a, f k = some a → ∃ b, f' k = some b ∧ r a b) ↔
      keys = keys' ∧ ∀ k a b, f k = some a → f' k = some b → r a b := by
  constructor
  · rintro ⟨hcard, hall⟩
    have hsub : keys ⊆ keys' := by
      intro k hk
      obtain ⟨a, ha⟩ := Option.isSome_iff_exists.1 ((hkeys k).1 hk)
      obtain ⟨b, hb, -⟩ := hall k a ha
      exact (hkeys' k).2 (Option.isSome_iff_exists.2 ⟨b, hb⟩)
    refine ⟨Finset.eq_of_subset_of_card_le hsub (Nat.le_of_eq hcard.symm), ?_⟩
    intro k a b ha hb
    obtain ⟨b', hb', hr⟩ := hall k a ha
    obtain rfl := Option.some.inj (hb.symm.trans hb')
    exact hr
  · rintro ⟨rfl, hall⟩
    refine ⟨rfl, fun k a ha => ?_⟩
    have hk : k ∈ keys := (hkeys k).2 (Option.isSome_iff_exists.2 ⟨a, ha⟩)
    obtain ⟨b, hb⟩ := Option.isSome_iff_exists.1 ((hkeys' k).1 hk)
    exact ⟨b, hb, hall k a b ha hb⟩

namespace Value

section

variable {id id' : ObjectId} {es fs : List (Entry Value)}

/-- Tables in which no hashed key occurs twice are equal if they have the same hashed keys, and equal
    keys and values under each of them. -/
theorem equal_map_iff (hes : (es.map Entry.hashed).Nodup) (hfs : (fs.map Entry.hashed).Nodup) :
    (map id es).equal (map id' fs) = true ↔
      (∀ hashed, hashed ∈ es.map Entry.hashed ↔ hashed ∈ fs.map Entry.hashed) ∧
        ∀ hashed e f, Table.find? hashed es = some e → Table.find? hashed fs = some f →
          e.key = f.key ∧ e.value.equal f.value = true := by
  have hmem : ∀ (all : List (Entry Value)) (hashed : HashedKey),
      hashed ∈ (all.map Entry.hashed).toFinset ↔ (Table.find? hashed all).isSome :=
    fun all hashed => by rw [List.mem_toFinset, Table.isSome_find?_iff]
  have hcard : ∀ {all : List (Entry Value)}, (all.map Entry.hashed).Nodup →
      (all.map Entry.hashed).toFinset.card = all.length := fun hall => by
    rw [List.toFinset_card_of_nodup hall, List.length_map]
  have hfound : (∀ e ∈ es, ∃ f, Table.find? e.hashed fs = some f ∧
        e.key = f.key ∧ e.value.equal f.value = true) ↔
      ∀ hashed e, Table.find? hashed es = some e → ∃ f, Table.find? hashed fs = some f ∧
        e.key = f.key ∧ e.value.equal f.value = true := by
    simp only [Table.find?_eq_some_iff hes]
    constructor
    · rintro hall _ e ⟨he, rfl⟩
      exact hall e he
    · exact fun hall e he => hall _ e ⟨he, rfl⟩
  rw [equal_map, ← hcard hes, ← hcard hfs, hfound, forall_lookup_iff (hmem es) (hmem fs)
    (fun e f => e.key = f.key ∧ e.value.equal f.value = true), Finset.ext_iff]
  simp only [List.mem_toFinset]

/-- The order in which a table lists its entries does not matter. -/
theorem equal_map_of_perm (h : (map id es).WellFormed) (hperm : es.Perm fs) :
    (map id es).equal (map id' fs) = true := by
  obtain ⟨hes, hvalues⟩ := wellFormed_map.1 h
  have hfs : (fs.map Entry.hashed).Nodup := (hperm.map Entry.hashed).nodup_iff.1 hes
  refine equal_map.2 ⟨hperm.length_eq, fun e he => ⟨e, ?_, rfl, equal_refl (hvalues e he)⟩⟩
  exact (Table.find?_eq_some_iff hfs).2 ⟨hperm.mem_iff.1 he, rfl⟩

end

/-! ## Arrays -/

theorem equal_array_iff {id id' : ObjectId} {vs ws : List Value} :
    (array id vs).equal (array id' ws) = true ↔
      vs.length = ws.length ∧
        ∀ (i : Nat) (v w : Value), vs[i]? = some v → ws[i]? = some w → v.equal w = true := by
  rw [equal_array, List.forall₂_iff_get]
  refine and_congr_right fun _ => ⟨fun h i v w hv hw => ?_, fun h i hi hi' => ?_⟩
  · obtain ⟨hi, rfl⟩ := List.getElem?_eq_some_iff.1 hv
    obtain ⟨hi', rfl⟩ := List.getElem?_eq_some_iff.1 hw
    exact h i hi hi'
  · exact h i _ _ (List.getElem?_eq_getElem hi) (List.getElem?_eq_getElem hi')

/-! ## An equivalence -/

theorem equal_symm {v w : Value} (hv : v.WellFormed) (hw : w.WellFormed) (h : v.equal w = true) :
    w.equal v = true := by
  induction v using nestedInduction generalizing w with
  | array id vs ih =>
      cases w with
      | array id' ws =>
          obtain ⟨hlength, hitems⟩ := equal_array_iff.1 h
          refine equal_array_iff.2 ⟨hlength.symm, fun i w v hw' hv' => ?_⟩
          have hmem : v ∈ vs := List.mem_of_getElem? hv'
          exact ih v hmem (wellFormed_array.1 hv v hmem)
            (wellFormed_array.1 hw w (List.mem_of_getElem? hw')) (hitems i v w hv' hw')
      | _ => simp [equal] at h
  | map id es ih =>
      cases w with
      | map id' fs =>
          obtain ⟨hes, hvalues⟩ := wellFormed_map.1 hv
          obtain ⟨hfs, hvalues'⟩ := wellFormed_map.1 hw
          obtain ⟨hkeys, hpairs⟩ := (equal_map_iff hes hfs).1 h
          refine (equal_map_iff hfs hes).2 ⟨fun hashed => (hkeys hashed).symm, ?_⟩
          intro hashed f e hf he
          obtain ⟨hkey, hvalue⟩ := hpairs hashed e f he hf
          have hmem : e ∈ es := Table.mem_of_find? he
          exact ⟨hkey.symm,
            ih e hmem (hvalues e hmem) (hvalues' f (Table.mem_of_find? hf)) hvalue⟩
      | _ => simp [equal] at h
  | other v harray hmap =>
      cases v
      case array => exact absurd rfl harray
      case map => exact absurd rfl hmap
      all_goals
        cases w <;> simp [equal] at h
        simp [equal, h]

/-- Tables are compared in one direction, and so one after another. -/
theorem equal_trans {u v w : Value} (h : u.equal v = true) (h' : v.equal w = true) :
    u.equal w = true := by
  induction u using nestedInduction generalizing v w with
  | array id us ih =>
      cases v with
      | array id' vs =>
          cases w with
          | array id'' ws =>
              obtain ⟨hlength, hitems⟩ := equal_array_iff.1 h
              obtain ⟨hlength', hitems'⟩ := equal_array_iff.1 h'
              refine equal_array_iff.2 ⟨hlength.trans hlength', fun i u w hu hw => ?_⟩
              have hi : i < vs.length := hlength ▸ (List.getElem?_eq_some_iff.1 hu).1
              have hv : vs[i]? = some vs[i] := List.getElem?_eq_getElem hi
              exact ih u (List.mem_of_getElem? hu) (hitems i u _ hu hv) (hitems' i _ w hv hw)
          | _ => simp [equal] at h'
      | _ => simp [equal] at h
  | map id es ih =>
      cases v with
      | map id' fs =>
          cases w with
          | map id'' gs =>
              obtain ⟨hlength, hpairs⟩ := equal_map.1 h
              obtain ⟨hlength', hpairs'⟩ := equal_map.1 h'
              refine equal_map.2 ⟨hlength.trans hlength', fun e he => ?_⟩
              obtain ⟨f, hf, hkey, hvalue⟩ := hpairs e he
              obtain ⟨g, hg, hkey', hvalue'⟩ := hpairs' f (Table.mem_of_find? hf)
              rw [Table.hashed_of_find? hf] at hg
              exact ⟨g, hg, hkey.trans hkey', ih e he hvalue hvalue'⟩
          | _ => simp [equal] at h'
      | _ => simp [equal] at h
  | other u harray hmap =>
      cases u
      case array => exact absurd rfl harray
      case map => exact absurd rfl hmap
      all_goals
        cases v <;> simp [equal] at h
        cases w <;> simp [equal] at h'
        simp [equal, h, h']

/-! ## Equality as a whole -/

/-- What it means for two values to have the same structure. -/
structure StructuralEquality [Hashing] : Prop where
  /-- It is an equivalence among all values in which no map has two entries under one hashed key. -/
  equivalence : Equivalence fun v w : {v : Value // v.WellFormed} => v.1.equal w.1 = true
  /-- Arrays have the same length, and the same structure at each position. -/
  arrays : ∀ (id id' : ObjectId) (vs ws : List Value),
    (array id vs).equal (array id' ws) = true ↔
      vs.length = ws.length ∧
        ∀ (i : Nat) (v w : Value), vs[i]? = some v → ws[i]? = some w → v.equal w = true
  /-- Maps have the same hashed keys, and under each of them equal keys, and values that have the
      same structure. -/
  maps : ∀ (id id' : ObjectId) (es fs : List (Entry Value)),
    (es.map Entry.hashed).Nodup → (fs.map Entry.hashed).Nodup →
      ((map id es).equal (map id' fs) = true ↔
        (∀ hashed, hashed ∈ es.map Entry.hashed ↔ hashed ∈ fs.map Entry.hashed) ∧
          ∀ hashed e f, Table.find? hashed es = some e → Table.find? hashed fs = some f →
            e.key = f.key ∧ e.value.equal f.value = true)
  /-- Such values are what tables come to that such values are put into. -/
  built : ∀ (id : ObjectId) (puts : List (Entry Value)), (∀ e ∈ puts, e.value.WellFormed) →
    (map id (Table.ofPuts puts)).WellFormed
  /-- If entries are put into tables, one after another, those count that are put last under their
      hashed key. -/
  puts : ∀ (id id' : ObjectId) (puts puts' : List (Entry Value)),
    (map id (Table.ofPuts puts)).equal (map id' (Table.ofPuts puts')) = true ↔
      (∀ hashed, hashed ∈ puts.map Entry.hashed ↔ hashed ∈ puts'.map Entry.hashed) ∧
        ∀ hashed e f, Table.find? hashed puts.reverse = some e →
          Table.find? hashed puts'.reverse = some f →
            e.key = f.key ∧ e.value.equal f.value = true
  /-- In which order entries are put under different hashed keys does not matter. -/
  order : ∀ (id id' : ObjectId) (puts puts' : List (Entry Value)),
    (puts.map Entry.hashed).Nodup → (∀ e ∈ puts, e.value.WellFormed) → puts.Perm puts' →
      (map id (Table.ofPuts puts)).equal (map id' (Table.ofPuts puts')) = true

/-- **Equality of structure is an equivalence**, whatever the values are made of, and does not depend
    on the order in which the values of a map were put there. -/
theorem structuralEquality [Hashing] : StructuralEquality where
  equivalence :=
    ⟨fun v => equal_refl v.2, fun {v w} h => equal_symm v.2 w.2 h, fun h h' => equal_trans h h'⟩
  arrays _ _ _ _ := equal_array_iff
  maps _ _ _ _ hes hfs := equal_map_iff hes hfs
  built _ _ := wellFormed_map_ofPuts
  puts id id' puts puts' := by
    rw [equal_map_iff (Table.nodup_ofPuts puts) (Table.nodup_ofPuts puts')]
    simp only [Table.map_hashed_ofPuts, Hashing.mem_order_iff, Table.find?_ofPuts]
  order id id' puts puts' hnodup hvalues hperm := by
    have hnodup' : (puts'.map Entry.hashed).Nodup := (hperm.map Entry.hashed).nodup_iff.1 hnodup
    refine equal_map_of_perm (wellFormed_map_ofPuts hvalues) ?_
    exact (Table.ofPuts_perm hnodup).trans (hperm.trans (Table.ofPuts_perm hnodup').symm)

end Value

end ConstScript
