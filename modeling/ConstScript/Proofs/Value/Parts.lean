import ConstScript.Proofs.Value.ErrorFree
import ConstScript.Proofs.Value.Matching

set_option autoImplicit false

/-! # What is in values that match

A matching is about identities and scopes, and these are in a value at any depth. So whether values
match under another matching is a matter of the functions in them, and whatever is in a value that
matches another one matches something, too. -/

theorem List.Forall₂.exists_of_mem {α β : Type} {r : α → β → Prop} {xs : List α} {ys : List β}
    (h : List.Forall₂ r xs ys) {x : α} (hx : x ∈ xs) : ∃ y ∈ ys, r x y := by
  induction h with
  | nil => exact absurd hx List.not_mem_nil
  | cons hr _ ih =>
      rcases List.mem_cons.1 hx with rfl | hx
      · exact ⟨_, List.mem_cons_self, hr⟩
      · obtain ⟨y, hy, hxy⟩ := ih hx
        exact ⟨y, List.mem_cons_of_mem _ hy, hxy⟩

namespace ConstScript

/-- The same matching for all values. -/
def Matching.toFull {voc : Vocabulary} (m : Matching voc) : Matching .full :=
  { m with }

namespace Value

variable {voc voc' : Vocabulary} {m : Matching voc} {m' : Matching voc'}

section

variable (hobjects : ∀ a b, m.objects a b → m'.objects a b) (herrors : voc.errors → voc'.errors)

include hobjects herrors

set_option linter.unusedSectionVars false in
mutual

/-- Values match under another matching if the functions in them do: if what these are made of is in
    its vocabulary, and their scopes correspond there as well. -/
theorem Matches.transfer : {v w : Value} → v.Matches m w →
    (∀ f, Contains (.function f) v → (Expr.fn f.params f.body).Uses voc' ∧
      ∀ j, m.scopes f.scope j → m'.scopes f.scope j) → v.Matches m' w
  | .int _, _, .int n, _ => .int n
  | .bool _, _, .bool b, _ => .bool b
  | .str _, _, .str s, _ => .str s
  | .null, _, .null, _ => .null
  | .array .., _, .array hobj h, hfunctions =>
      .array (hobjects _ _ hobj) (all_transfer h fun _ hv f hf => hfunctions f (.item hv hf))
  | .map .., _, .map hobj h, hfunctions =>
      .map (hobjects _ _ hobj) (entries_transfer h fun _ hp f hf => hfunctions f (.entry hp hf))
  | .function _, _, .function hobj hscope _, hfunctions =>
      .function (hobjects _ _ hobj) ((hfunctions _ .self).2 _ hscope) (hfunctions _ .self).1
  | .builtin _, _, .builtin b, _ => .builtin b
  | .error _, _, .error e h, _ => .error e (herrors h)

theorem all_transfer : {vs ws : List Value} → List.Forall₂ (Matches m) vs ws →
    (∀ v ∈ vs, ∀ f, Contains (.function f) v → (Expr.fn f.params f.body).Uses voc' ∧
      ∀ j, m.scopes f.scope j → m'.scopes f.scope j) → List.Forall₂ (Matches m') vs ws
  | [], _, .nil, _ => .nil
  | v :: _, _, .cons h hs, hfunctions =>
      .cons (h.transfer (hfunctions v List.mem_cons_self))
        (all_transfer hs fun w hw => hfunctions w (List.mem_cons_of_mem v hw))

theorem entries_transfer : {es fs : List (Entry Value)} → List.Forall₂ (EntryMatches m) es fs →
    (∀ p ∈ es, ∀ f, Contains (.function f) p.value → (Expr.fn f.params f.body).Uses voc' ∧
      ∀ j, m.scopes f.scope j → m'.scopes f.scope j) → List.Forall₂ (EntryMatches m') es fs
  | [], _, .nil, _ => .nil
  | ⟨hashed, k, _⟩ :: _, _, .cons (.mk _ _ h) hs, hfunctions =>
      .cons (.mk hashed k (h.transfer (hfunctions _ List.mem_cons_self)))
        (entries_transfer hs fun p hp => hfunctions p (List.mem_cons_of_mem _ hp))

end

end

theorem Matches.toFull {v w : Value} (h : v.Matches m w) : v.Matches m.toFull w := by
  refine h.transfer ?_ (fun _ => trivial) fun f _ => ⟨Expr.uses_full _, ?_⟩
  · exact fun _ _ hab => hab
  · exact fun _ hj => hj

/-- What is in a value that matches another one matches something, too. -/
theorem Matches.of_contains {u v w : Value} (hu : Contains u v) (h : v.Matches m w) :
    ∃ u', u.Matches m u' := by
  induction hu generalizing w with
  | self => exact ⟨w, h⟩
  | item hv _ ih =>
      cases h with
      | array _ hs =>
          obtain ⟨_, -, hw⟩ := hs.exists_of_mem hv
          exact ih hw
  | entry hv _ ih =>
      cases h with
      | map _ hs =>
          obtain ⟨_, -, hw⟩ := hs.exists_of_mem hv
          cases hw with
          | mk _ _ hw => exact ih hw

end Value

end ConstScript
