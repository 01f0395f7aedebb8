import ConstScript.Proofs.Eval.DataFlow
import ConstScript.Proofs.Eval.Order
import ConstScript.Session

set_option autoImplicit false

/-! # Map literals

A map literal puts the values of its pairs under the hashed keys of their keys, from left to right,
so that under each hashed key there is the last one. As long as different strings have different
hashes, this is the last one for each key. A map literal stops at the first key that cannot be one,
before the value of that pair is evaluated. -/

theorem List.lookup_eq_none_of_forall_ne {α β : Type} [BEq α] [LawfulBEq α] {ps : List (α × β)}
    {a : α} (h : ∀ p ∈ ps, p.1 ≠ a) : ps.lookup a = none :=
  List.lookup_eq_none_iff.2 fun p hp => by simpa using (h p hp).symm

namespace ConstScript

variable [Hashing]

open Eval

/-! ## Putting values under keys -/

section

variable {call : Closure → List Value → Eval Value} {scope : ScopeId} {st mid : Store}
  {pairs before : List (Expr × Expr)} {values : List (Key × Value)}

/-- What a map literal puts into its table comes from its pairs, one after another. -/
theorem Expr.PairValues.evalPairs_eq (h : PairValues call scope pairs st values mid)
    (puts : List (Entry Value)) :
    Expr.evalPairs call scope puts pairs st = .ok (puts ++ Table.entries values) mid := by
  induction h generalizing puts with
  | nil =>
      rw [Table.entries, List.map_nil, List.append_nil]
      rfl
  | @cons _ _ _ _ v key values _ _ _ _ hk hkey he _ ih =>
      have hputs : puts ++ Table.entries ((key, v) :: values)
          = puts ++ [Table.entry key v] ++ Table.entries values :=
        List.append_cons _ _ _
      rw [hputs]
      refine (bind_of_ok hk).trans ?_
      refine (bind_of_ok (asKey_of_toKey? hkey _)).trans ?_
      exact (bind_of_ok he).trans (ih _)

theorem Expr.PairValues.eval_map (h : PairValues call scope pairs st values mid) :
    (Expr.map pairs).eval call scope st
      = .ok (.map mid.objects (Table.ofPuts (Table.entries values))) mid.freshObject.2 :=
  bind_of_ok (h.evalPairs_eq [])

/-! ## The first key that cannot be one -/

variable {k e : Expr} {w : Value} {st' : Store}

theorem Expr.PairValues.evalPairs_unusable (h : PairValues call scope before st values mid)
    (hk : k.eval call scope mid = .ok w st') (hw : w.toKey? = none) (e : Expr)
    (rest : List (Expr × Expr)) :
    Expr.evalPairs call scope [] (before ++ (k, e) :: rest) st
      = .error (.failed (.unusableKey w.kind)) st' := by
  rw [Expr.evalPairs_append, bind_of_ok (h.evalPairs_eq [])]
  exact (bind_of_ok hk).trans (bind_of_error (asKey_of_toKey?_eq_none hw st'))

/-- Nothing comes after a key that cannot be one. -/
theorem Inside.of_unusable {m : Moment} {rest : List (Expr × Expr)}
    (hm : Inside call scope ⟨.expr (.map (before ++ (k, e) :: rest)), st⟩ m)
    (h : Expr.PairValues call scope before st values mid)
    (hk : k.eval call scope mid = .ok w st') (hw : w.toKey? = none) :
    Inside call scope ⟨.expr (.map before), st⟩ m ∨ m = ⟨.expr k, mid⟩ := by
  obtain ⟨before', k', e', rest', puts, st'', hpairs, hbefore, hpair⟩ := hm.of_map
  rcases append_cons_cases hpairs with ⟨rfl, hsame, -⟩ | ⟨more, rfl⟩ | ⟨more, rfl⟩
  · obtain ⟨rfl, rfl⟩ := Prod.mk.inj hsame
    obtain ⟨-, rfl⟩ := ok_unique (h.evalPairs_eq []) hbefore
    cases hpair with
    | key => exact .inr rfl
    | value hk' hkey =>
        obtain ⟨rfl, -⟩ := ok_unique hk hk'
        rw [hw] at hkey
        cases hkey
  · cases hbefore.symm.trans (h.evalPairs_unusable hk hw e more)
  · cases hpair with
    | key => exact .inl (.key before' hbefore)
    | value hk' hkey => exact .inl (.value before' hbefore hk' hkey)

end

/-! ## What is under a key -/

/-- The table has one entry for each hashed key that values were put under, which is the last one,
    under the hashed key of its own key. -/
structure Table.HoldsLast (entries : List (Entry Value)) (values : List (Key × Value)) : Prop where
  nodup : (entries.map Entry.hashed).Nodup
  own_key : ∀ e ∈ entries, e.hashed = e.key.hashed
  find? : ∀ key : Key, Table.find? key.hashed entries
    = (values.reverse.find? fun p => p.1.hashed = key.hashed).map fun p => Table.entry p.1 p.2

theorem Table.holdsLast_ofPuts (values : List (Key × Value)) :
    HoldsLast (ofPuts (entries values)) values where
  nodup := nodup_ofPuts _
  own_key _ he := hashed_eq_of_mem_entries (mem_of_mem_ofPuts he)
  find? key := find?_ofPuts_entries key values

/-- Under each key the map has the value of the last pair with this key, and `null` under keys that
    no pair has, as long as the key and those of the pairs are told apart. -/
structure Value.LastWins (m : Value) (values : List (Key × Value)) : Prop where
  last : ∀ (before after : List (Key × Value)) (key : Key) (v : Value),
    TellsApart (key :: values.map Prod.fst) → values = before ++ (key, v) :: after →
    (∀ p ∈ after, p.1 ≠ key) → m.index key.toValue = .ok v
  missing : ∀ key : Key, TellsApart (key :: values.map Prod.fst) → (∀ p ∈ values, p.1 ≠ key) →
    m.index key.toValue = .ok .null

theorem Value.lastWins_ofPuts (id : ObjectId) (values : List (Key × Value)) :
    (Value.map id (Table.ofPuts (Table.entries values))).LastWins values where
  last before after key v hkeys hvalues hafter := by
    have hnone : after.reverse.lookup key = none :=
      List.lookup_eq_none_of_forall_ne fun p hp => hafter p (List.mem_reverse.1 hp)
    rw [Value.index_map, Table.find?_ofPuts_entries_of_tellsApart hkeys, hvalues,
      List.reverse_append, List.reverse_cons, List.append_assoc, List.lookup_append, hnone,
      Option.none_or, List.singleton_append, List.lookup_cons_self]
    rfl
  missing key hkeys hkey := by
    have hnone : values.reverse.lookup key = none :=
      List.lookup_eq_none_of_forall_ne fun p hp => hkey p (List.mem_reverse.1 hp)
    rw [Value.index_map, Table.find?_ofPuts_entries_of_tellsApart hkeys, hnone]
    rfl

/-- **The last write wins.** Let the keys and the values of pairs be evaluated one after another,
    and let all keys be such that they can be keys. Then their literal is evaluated to a map that has
    one entry for each hashed key, under the hashed key of its own key, and in it the value that was
    put there last. If the hash function tells the strings among the keys apart, these are the values
    of the last pairs with each key, and there are as many of them as there are keys. If a key
    follows that cannot be one, the literal fails with the kind of this key, and nothing is
    evaluated after this key. -/
theorem Expr.eval_map_lastWins {call : Closure → List Value → Eval Value} {scope : ScopeId}
    {st mid : Store} {before : List (Expr × Expr)} {values : List (Key × Value)}
    (h : PairValues call scope before st values mid) :
    (∃ entries,
      (Expr.map before).eval call scope st
        = .ok (.map mid.objects entries) mid.freshObject.2 ∧
      Table.HoldsLast entries values ∧
      (Value.map mid.objects entries).LastWins values ∧
      (TellsApart (values.map Prod.fst) →
        entries.length = (values.map Prod.fst).dedup.length)) ∧
    ∀ (k : Expr) (w : Value) (st' : Store), k.eval call scope mid = .ok w st' →
      w.toKey? = none → ∀ (e : Expr) (rest : List (Expr × Expr)),
      (Expr.map (before ++ (k, e) :: rest)).eval call scope st
        = .error (.failed (.unusableKey w.kind)) st' ∧
      ∀ m, Inside call scope ⟨.expr (.map (before ++ (k, e) :: rest)), st⟩ m →
        Inside call scope ⟨.expr (.map before), st⟩ m ∨ m = ⟨.expr k, mid⟩ := by
  constructor
  · exact ⟨_, h.eval_map, Table.holdsLast_ofPuts values, Value.lastWins_ofPuts _ values,
      Table.length_ofPuts_entries⟩
  · intro k w st' hk hw e rest
    exact ⟨bind_of_error (h.evalPairs_unusable hk hw e rest), fun m hm => hm.of_unusable h hk hw⟩

omit [Hashing] in
/-- The literal `{1: 10, true: 20, -1: 30, "a": 40, 1: 50}` has a repeated key, and three keys whose
    hashes are 1 as soon as that of a string is its length. -/
theorem Expr.eval_map_lastWins_repeated :
    let _ : Hashing := .inOrder fun s => s.length.toUInt64
    let pairs : List (Expr × Expr) := [(.int 1, .int 10), (.bool true, .int 20),
      (.unary .negate (.int 1), .int 30), (.str "a", .int 40), (.int 1, .int 50)]
    let values : List (Key × Value) := [(.int 1, .int 10), (.bool true, .int 20),
      (.int (-1), .int 30), (.str "a", .int 40), (.int 1, .int 50)]
    let start := Session.start
    PairValues (Closure.call 0) start.1 pairs start.2 values start.2 ∧
    (∃ entries,
      (Expr.map pairs).eval (Closure.call 0) start.1 start.2
        = .ok (.map 0 entries) start.2.freshObject.2 ∧
      Table.HoldsLast entries values ∧
      entries.length = 4 ∧
      (Value.map 0 entries).index (.int 1) = .ok (.int 50) ∧
      (Value.map 0 entries).index (.bool true) = .ok (.int 20) ∧
      (Value.map 0 entries).index (.int 0) = .ok .null) ∧
    (Expr.map (pairs ++ [(.array [], .int 60)])).eval (Closure.call 0) start.1 start.2
      = .error (.failed (.unusableKey .array)) start.2.freshObject.2 := by
  intro _ pairs values start
  have hvalues : PairValues (Closure.call 0) start.1 pairs start.2 values start.2 :=
    .cons rfl rfl rfl (.cons rfl rfl rfl (.cons rfl rfl rfl (.cons rfl rfl rfl
      (.cons rfl rfl rfl .nil))))
  -- One string is not confused with itself, and no other key with a string.
  have happart : ∀ keys : List Key, keys ⊆ .int 0 :: values.map Prod.fst → TellsApart keys := by
    intro keys hkeys s t hs ht _
    have hstring : ∀ u, .str u ∈ keys → u = "a" := fun u hu => by
      simpa [values] using hkeys hu
    rw [hstring s hs, hstring t ht]
  obtain ⟨⟨entries, hmap, hholds, hlast, hlength⟩, hfails⟩ := Expr.eval_map_lastWins hvalues
  refine ⟨hvalues, ⟨entries, hmap, hholds, ?_, ?_, ?_, ?_⟩, ?_⟩
  · exact hlength (happart _ (by simp))
  · exact hlast.last (values.take 4) [] (.int 1) _ (happart _ (by decide)) rfl (by simp)
  · exact hlast.last (values.take 1) (values.drop 2) (.bool true) _ (happart _ (by decide)) rfl
      (by decide)
  · exact hlast.missing (.int 0) (happart _ (by simp)) (by decide)
  · exact (hfails (.array []) (.array 0 []) start.2.freshObject.2 rfl rfl (.int 60) []).1

end ConstScript
