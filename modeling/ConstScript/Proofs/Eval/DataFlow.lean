import ConstScript.Proofs.Eval.Growth
import ConstScript.Proofs.Scope.Matching
import ConstScript.Proofs.Value.HashedKey

set_option autoImplicit false

/-! # Reading back what was put somewhere

A value that is bound, passed, returned, captured or put into an array or a map comes out again as
the same value. For names this holds for as long as the run goes on, in every store that extends the
one in which the name was bound. -/

namespace ConstScript

namespace Store

variable {st : Store} {scope : ScopeId} {name : String}

/-- What a scope binds itself hides what is around it. -/
theorem lookup_of_getOwn? {v : Value} (h : st.getOwn? scope name = some v) :
    st.lookup scope name = some v := by
  obtain ⟨s, hs, hget⟩ := exists_of_getOwn? h
  rw [lookup, chain, hs]
  simp [hget]

/-- What a scope does not bind itself is looked up around it. -/
theorem lookup_of_not_binds {outer : ScopeId} {s : Scope} (hs : st.scopes[scope]? = some s)
    (houter : s.outer = some outer) (hlt : outer < scope) (hname : ¬ st.binds scope name) :
    st.lookup scope name = st.lookup outer name := by
  have hnone : s.get? name = none := by
    rw [binds, getOwn?_of_getElem? hs] at hname
    simpa using hname
  rw [lookup_of_getElem? hs (by simp [houter, hlt]), hnone, houter, Option.none_or,
    Option.bind_some]

end Store

namespace Eval

/-- A name is resolved in the same way in two scopes in which it has the same value. -/
theorem resolve_congr {scope scope' : ScopeId} {name : String} {st : Store}
    (h : st.lookup scope name = st.lookup scope' name) :
    resolve scope name st = resolve scope' name st := by
  rw [resolve_run, resolve_run, h]

theorem resolve_of_getOwn? {scope : ScopeId} {name : String} {v : Value} {st : Store}
    (h : st.getOwn? scope name = some v) : resolve scope name st = .ok v st := by
  rw [resolve_run, Store.lookup_of_getOwn? h]

/-- A name that was defined is bound to its value. -/
theorem getOwn?_of_define {scope : ScopeId} {name : String} {v : Value} {st st' : Store}
    (hscope : scope < st.scopes.size) (h : define scope name v st = .ok () st') :
    st'.getOwn? scope name = some v := by
  by_cases hbinds : st.binds scope name
  · rw [define_of_binds hbinds] at h
    cases h
  · rw [define_of_not_binds hbinds] at h
    cases h
    rw [Store.getOwn?_addBinding hscope, if_pos ⟨rfl, rfl⟩]

theorem getOwn?_of_defineAll {scope : ScopeId} {bindings : List (String × Value)} {st st' : Store}
    (hscope : scope < st.scopes.size) (h : defineAll scope bindings st = .ok () st') :
    ∀ b ∈ bindings, st'.getOwn? scope b.1 = some b.2 := by
  induction bindings generalizing st with
  | nil => simp
  | cons b bindings ih =>
      obtain ⟨_, mid, hdefine, hrest⟩ := exists_of_bind_eq_ok h
      have hfirst := Grows.of_ok (stable_grows.define scope b.1 b.2) hdefine
      have hsecond := Grows.of_ok (stable_grows.defineAll scope bindings) hrest
      have hown := getOwn?_of_define hscope hdefine
      exact List.forall_mem_cons.2
        ⟨hsecond.bindings _ _ _ hown, ih (hfirst.lt_size hscope) hrest⟩

end Eval

/-! ## Names -/

open Eval

section

variable {f : Closure} {args : List Value} {st st' later : Store} {scope : ScopeId} {name : String}

/-- A call opens a new scope in that of the function, and binds the parameters in it. -/
theorem Closure.enter_spec (h : f.enter args st = .ok scope st') :
    scope = st.scopes.size ∧ (∃ s, st'.scopes[scope]? = some s ∧ s.outer = some f.scope) ∧
      ∀ b ∈ f.params.zip args, st'.getOwn? scope b.1 = some b.2 := by
  obtain ⟨_, mid, hcount, hrest⟩ := exists_of_bind_eq_ok h
  obtain ⟨-, rfl⟩ := eq_of_ofExcept_eq_ok hcount
  obtain ⟨opened, inside, hopened, hdefines⟩ := exists_of_bind_eq_ok hrest
  obtain ⟨_, bound, hbound, hscope⟩ := exists_of_bind_eq_ok hdefines
  cases hscope
  cases hopened
  have hself := mid.getElem?_openScope_self (some f.scope)
  have hextends := Grows.of_ok (stable_grows.defineAll _ _) hbound
  refine ⟨rfl, hextends.outer _ _ hself, getOwn?_of_defineAll ?_ hbound⟩
  exact (Array.getElem?_eq_some_iff.1 hself).1

/-- A parameter is bound to the argument. -/
theorem Closure.resolve_parameter (h : f.enter args st = .ok scope st') {i : Nat} {v : Value}
    (hname : f.params[i]? = some name) (hv : args[i]? = some v) (hlater : st'.Extends later) :
    resolve scope name later = .ok v later := by
  have hzip : (f.params.zip args)[i]? = some (name, v) :=
    List.getElem?_zip_eq_some.2 ⟨hname, hv⟩
  have hown := (Closure.enter_spec h).2.2 _ (List.mem_of_getElem? hzip)
  exact resolve_of_getOwn? (hlater.bindings _ _ _ hown)

/-- A name that a call does not bind itself is what it is around the function. -/
theorem Closure.resolve_captured (hscope : f.scope < st.scopes.size)
    (h : f.enter args st = .ok scope st') (hlater : st'.Extends later)
    (hname : ¬ later.binds scope name) : resolve scope name later = resolve f.scope name later := by
  obtain ⟨rfl, ⟨s, hs, houter⟩, -⟩ := Closure.enter_spec h
  obtain ⟨s', hs', houter'⟩ := hlater.outer _ s hs
  exact resolve_congr (Store.lookup_of_not_binds hs' (houter'.trans houter) hscope hname)

/-- A name is bound to the value that was given to it. -/
theorem Stmt.resolve_const [Hashing] {depth : Nat} {e : Expr} {w : Value}
    (hscope : scope < st.scopes.size)
    (h : (Stmt.const name e).eval (Closure.call depth) scope st = .ok w st') :
    ∃ v mid, e.eval (Closure.call depth) scope st = .ok v mid ∧
      ∀ later, st'.Extends later → resolve scope name later = .ok v later := by
  obtain ⟨v, mid, he, h⟩ := exists_of_bind_eq_ok h
  obtain ⟨_, bound, hdefine, h⟩ := exists_of_bind_eq_ok h
  cases h
  have hmid := (Expr.grows_eval depth scope e).of_ok he
  have hown := getOwn?_of_define (hmid.lt_size hscope) hdefine
  exact ⟨v, mid, he, fun later hlater => resolve_of_getOwn? (hlater.bindings _ _ _ hown)⟩

end

/-! ## Arrays and maps -/

variable [Hashing]

theorem Value.index_array {id : ObjectId} {items : List Value} {n : Int64} {v : Value}
    (hn : 0 ≤ n.toInt) (hv : items[n.toInt.toNat]? = some v) :
    (Value.array id items).index (.int n) = .ok v := by
  have hposition : positionOfInteger n = some n.toInt.toNat := if_pos hn
  simp only [Value.index, hposition, Option.bind_some, hv, Option.getD_some]

section

variable {call : Closure → List Value → Eval Value} {scope : ScopeId} {st st' : Store} {v : Value}

/-- An array literal holds the values of its items. -/
theorem Expr.eq_of_eval_array {items : List Expr}
    (h : (Expr.array items).eval call scope st = .ok v st') :
    ∃ vs mid, Expr.evalAll call scope items st = .ok vs mid ∧ v = .array mid.objects vs := by
  obtain ⟨vs, mid, hitems, hnew⟩ := exists_of_bind_eq_ok h
  exact ⟨vs, mid, hitems, (EStateM.Result.ok.inj hnew).1.symm⟩

/-- The keys and the values that the pairs of a map literal come to, one after another. -/
inductive Expr.PairValues (call : Closure → List Value → Eval Value) (scope : ScopeId) :
    List (Expr × Expr) → Store → List (Key × Value) → Store → Prop
  | nil {st : Store} : PairValues call scope [] st [] st
  | cons {k e : Expr} {pairs : List (Expr × Expr)} {w v : Value} {key : Key}
      {values : List (Key × Value)} {st mid mid' st' : Store} :
      k.eval call scope st = .ok w mid → w.toKey? = some key → e.eval call scope mid = .ok v mid' →
      PairValues call scope pairs mid' values st' →
      PairValues call scope ((k, e) :: pairs) st ((key, v) :: values) st'

/-- The values of the pairs are put under their keys, one after another. -/
theorem Expr.exists_pairValues {pairs : List (Expr × Expr)} {puts all : List (Entry Value)}
    (h : Expr.evalPairs call scope puts pairs st = .ok all st') :
    ∃ values, Expr.PairValues call scope pairs st values st' ∧
      all = puts ++ Table.entries values := by
  induction pairs generalizing puts st with
  | nil =>
      cases h
      exact ⟨[], .nil, (List.append_nil _).symm⟩
  | cons pair pairs ih =>
      obtain ⟨w, mid, hk, hasKey⟩ := exists_of_bind_eq_ok h
      obtain ⟨key, _, hkey, hvalue⟩ := exists_of_bind_eq_ok hasKey
      obtain ⟨hsome, rfl⟩ := eq_of_asKey_eq_ok hkey
      obtain ⟨v, mid', he, hrest⟩ := exists_of_bind_eq_ok hvalue
      obtain ⟨values, hvalues, rfl⟩ := ih hrest
      exact ⟨(key, v) :: values, .cons hk hsome he hvalues, List.append_assoc ..⟩

/-- A map has the value that its table has under the hashed key of the key, or `null`. -/
theorem Value.index_map (id : ObjectId) (entries : List (Entry Value)) (key : Key) :
    (Value.map id entries).index key.toValue
      = .ok (((Table.find? key.hashed entries).map Entry.value).getD .null) := by
  cases key <;> rfl

/-- A map literal has under each key the value that was put last under the hashed key of this key, or
    `null` if there is none. If the keys are told apart, this is the value of the last pair with this
    key. -/
theorem Expr.index_of_eval_map {pairs : List (Expr × Expr)}
    (h : (Expr.map pairs).eval call scope st = .ok v st') :
    ∃ values mid, Expr.PairValues call scope pairs st values mid ∧ ∀ key : Key,
      v.index key.toValue = .ok (((values.reverse.find? fun p => p.1.hashed = key.hashed).map
        Prod.snd).getD .null) ∧
      (TellsApart (key :: values.map Prod.fst) →
        ∀ u, values.reverse.lookup key = some u → v.index key.toValue = .ok u) := by
  obtain ⟨puts, mid, hpairs, hnew⟩ := exists_of_bind_eq_ok h
  obtain ⟨rfl, -⟩ := EStateM.Result.ok.inj hnew
  obtain ⟨values, hvalues, rfl⟩ := Expr.exists_pairValues hpairs
  refine ⟨values, mid, hvalues, fun key => ⟨?_, fun hkeys u hu => ?_⟩⟩
  · rw [Value.index_map, List.nil_append, Table.find?_ofPuts_entries, Option.map_map]
    rfl
  · rw [Value.index_map, List.nil_append, Table.find?_ofPuts_entries_of_tellsApart hkeys, hu]
    rfl

end

end ConstScript
