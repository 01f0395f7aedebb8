import ConstScript.Proofs.Eval.Sequence
import ConstScript.Proofs.Scope.Matching

set_option autoImplicit false

/-! # Evaluations that run in lockstep

Two evaluations run in *lockstep* under a matching if, from any stores that match, they print the
same text, leave stores that match behind, and end alike: with matching values, with the same
runtime error, or by exceeding the depth. What they create is added to the matching on the way.

A phrase runs in lockstep with itself in corresponding scopes, provided that calls of matching
functions do. So do calls themselves, by induction on how deeply they nest. Everything that an
evaluation cannot depend on follows from this: the numbers of scopes and identities, and whatever
else a store contains. -/

namespace ConstScript

variable {voc : Vocabulary} {α β γ δ : Type}

/-! ## Lockstep -/

/-- Two evaluations stopped for the same reason. -/
inductive Stop.Matches (m : Matching voc) : Stop → Stop → Prop where
  | failed (e : RuntimeError) : Stop.Matches m (.failed e) (.failed e)
  | returned {v w : Value} : v.Matches m w → Stop.Matches m (.returned v) (.returned w)
  | tooDeep : Stop.Matches m .tooDeep .tooDeep

namespace Eval

/-- Two evaluations that started in stores that match have ended alike, with results that are
    related under the matching that they have arrived at. -/
inductive Alike (r : Matching voc → α → β → Prop) (m : Matching voc) (st st' : Store) :
    EStateM.Result Stop Store α → EStateM.Result Stop Store β → Prop where
  | ok {m' : Matching voc} {a : α} {b : β} {after after' : Store} :
      Store.Advance m m' st st' after after' → r m' a b →
      Alike r m st st' (.ok a after) (.ok b after')
  | error {m' : Matching voc} {stop stop' : Stop} {after after' : Store} :
      Store.Advance m m' st st' after after' → stop.Matches m' stop' →
      Alike r m st st' (.error stop after) (.error stop' after')

/-- Two evaluations end alike from any stores that match. -/
def Lockstep (r : Matching voc → α → β → Prop) (m : Matching voc) (x : Eval α) (y : Eval β) :
    Prop :=
  ∀ st st' : Store, st.Matches m st' → Alike r m st st' (x st) (y st')

variable {r : Matching voc → α → β → Prop} {s : Matching voc → γ → δ → Prop}
  {m m' : Matching voc}

theorem Alike.after {st st' mid mid' : Store} {p : EStateM.Result Stop Store α}
    {q : EStateM.Result Stop Store β} (h : Alike r m' mid mid' p q)
    (hadv : Store.Advance m m' st st' mid mid') : Alike r m st st' p q := by
  cases h with
  | ok hadv' hab => exact .ok (hadv.trans hadv') hab
  | error hadv' hstop => exact .error (hadv.trans hadv') hstop

/-! ### Steps -/

namespace Lockstep

/-- Two steps run in lockstep if the first ones do, and the second ones from related results on,
    under whatever matching that has led to. -/
theorem bind {x : Eval α} {y : Eval β} {f : α → Eval γ} {g : β → Eval δ} (hxy : Lockstep r m x y)
    (hfg : ∀ {m' : Matching voc} {a : α} {b : β}, m ≤ m' → r m' a b → Lockstep s m' (f a) (g b)) :
    Lockstep s m (x >>= f) (y >>= g) := by
  intro st st' h
  have hfirst := hxy st st' h
  generalize hx : x st = p at hfirst
  generalize hy : y st' = q at hfirst
  cases hfirst with
  | ok hadv hab =>
      rw [bind_of_ok hx, bind_of_ok hy]
      exact (hfg hadv.le hab _ _ hadv.stores).after hadv
  | error hadv hstop =>
      rw [bind_of_error hx, bind_of_error hy]
      exact .error hadv hstop

theorem pure {a : α} {b : β} (hab : r m a b) : Lockstep r m (Pure.pure a) (Pure.pure b) :=
  fun _ _ h => .ok (.refl h) hab

theorem throw {stop stop' : Stop} (hstop : stop.Matches m stop') :
    Lockstep r m (MonadExcept.throw stop : Eval α) (MonadExcept.throw stop' : Eval β) :=
  fun _ _ h => .error (.refl h) hstop

theorem fail (e : RuntimeError) : Lockstep r m (Eval.fail e : Eval α) (Eval.fail e : Eval β) :=
  .throw (.failed e)

theorem ofExcept {x : Except RuntimeError α} {y : Except RuntimeError β}
    (h : ExceptRel (r m) x y) : Lockstep r m (Eval.ofExcept x) (Eval.ofExcept y) := by
  cases h with
  | ok hab => exact .pure hab
  | error e => exact .fail e

theorem get_bind {f : Store → Eval α} {g : Store → Eval β}
    (h : ∀ st st' : Store, st.Matches m st' → Lockstep r m (f st) (g st')) :
    Lockstep r m (get >>= f) (get >>= g) :=
  fun st st' hst => h st st' hst st st' hst

theorem catchReturn {x y : Eval Value} (h : Lockstep Value.Matches m x y) :
    Lockstep Value.Matches m (Eval.catchReturn x) (Eval.catchReturn y) := by
  intro st st' hst
  have hrun := h st st' hst
  unfold Eval.catchReturn
  generalize x st = p at hrun
  generalize y st' = q at hrun
  cases hrun with
  | ok hadv hv => exact .ok hadv hv
  | error hadv hstop =>
      cases hstop with
      | failed e => exact .error hadv (.failed e)
      | returned hv => exact .ok hadv hv
      | tooDeep => exact .error hadv .tooDeep

end Lockstep

/-! ### What evaluations do with the store -/

theorem lockstep_freshObject :
    Lockstep (fun m => m.objects) m freshObject freshObject := by
  intro st st' h
  obtain ⟨m', hadv, hobj⟩ := h.freshObject
  exact .ok hadv hobj

theorem lockstep_enclose {i j : ScopeId} (hij : m.scopes i j) :
    Lockstep (fun m => m.scopes) m (enclose i) (enclose j) := by
  intro st st' h
  obtain ⟨m', hadv, hnew⟩ := h.openScope (.some hij)
  exact .ok hadv hnew

theorem lockstep_printLine (text : String) :
    Lockstep (fun _ _ _ => True) m (printLine text) (printLine text) :=
  fun _ _ h => .ok (h.print (text ++ "\n")) trivial

theorem lockstep_newArray {vs ws : List Value} (h : List.Forall₂ (Value.Matches m) vs ws) :
    Lockstep Value.Matches m (newArray vs) (newArray ws) :=
  lockstep_freshObject.bind fun hle hobj => .pure (.array hobj (Value.all_mono hle h))

theorem lockstep_newMap [Hashing] {es fs : List (Entry Value)}
    (h : List.Forall₂ (Value.EntryMatches m) es fs) :
    Lockstep Value.Matches m (newMap es) (newMap fs) :=
  lockstep_freshObject.bind fun hle hobj =>
    .pure (.map hobj (Value.entries_ofPuts (Value.entries_mono hle h)))

theorem lockstep_newFunction {params : List String} {body : List Stmt} {i j : ScopeId}
    (huses : (Expr.fn params body).Uses voc) (hij : m.scopes i j) :
    Lockstep Value.Matches m (newFunction params body i) (newFunction params body j) :=
  lockstep_freshObject.bind fun hle hobj => .pure (.function hobj (hle.2 _ _ hij) huses)

theorem lockstep_asKey {v w : Value} (h : v.Matches m w) :
    Lockstep (fun _ => Eq) m (asKey v) (asKey w) := by
  unfold asKey
  rw [h.toKey?_eq, h.kind_eq]
  split
  · exact .pure rfl
  · exact .fail _

section

variable {i j : ScopeId} {name : String}

theorem lockstep_resolve (hij : m.scopes i j) (hname : voc.names name) :
    Lockstep Value.Matches m (resolve i name) (resolve j name) := by
  refine Lockstep.get_bind fun st st' h => ?_
  have hlookup := h.lookup hij hname
  generalize st.lookup i name = x at hlookup
  generalize st'.lookup j name = y at hlookup
  cases hlookup with
  | some hv => exact .pure hv
  | none =>
      dsimp only
      split
      · exact .pure (.builtin _)
      · exact .fail _

theorem lockstep_define (hij : m.scopes i j) (hname : voc.names name) {v w : Value}
    (hv : v.Matches m w) :
    Lockstep (fun _ _ _ => True) m (define i name v) (define j name w) := by
  refine Lockstep.get_bind fun st st' h => ?_
  rw [h.binds_eq hij hname]
  split
  · exact .fail _
  · exact fun st st' h => .ok (h.addBinding hij name hv) trivial

theorem lockstep_defineAll {params : List String} (hparams : ∀ p ∈ params, voc.names p)
    {vs ws : List Value} (hij : m.scopes i j) (h : List.Forall₂ (Value.Matches m) vs ws) :
    Lockstep (fun _ _ _ => True) m (defineAll i (params.zip vs)) (defineAll j (params.zip ws)) := by
  induction params generalizing vs ws m with
  | nil => exact .pure trivial
  | cons p params ih =>
      cases h with
      | nil => exact .pure trivial
      | cons hv hvs =>
          refine (lockstep_define hij (hparams p List.mem_cons_self) hv).bind fun hle _ => ?_
          exact ih (fun q hq => hparams q (List.mem_cons_of_mem p hq)) (hle.2 _ _ hij)
            (Value.all_mono hle hvs)

end

end Eval

/-! ## Built-in functions -/

namespace Builtin

open Eval

variable {m : Matching voc} {args args' : List Value}

theorem oneArgument_matches (h : List.Forall₂ (Value.Matches m) args args') :
    ExceptRel (Value.Matches m) (oneArgument args) (oneArgument args') := by
  have hlength := h.length_eq
  cases h with
  | nil => exact .error _
  | cons hv hrest =>
      cases hrest with
      | nil => exact .ok hv
      | cons _ _ =>
          simp only [oneArgument, hlength]
          exact .error _

theorem oneArray_matches (b : Builtin) (h : List.Forall₂ (Value.Matches m) args args') :
    ExceptRel (List.Forall₂ (Value.Matches m)) (oneArray b args) (oneArray b args') := by
  refine (oneArgument_matches h).bind fun v w hv => ?_
  cases hv with
  | array _ hitems => exact .ok hitems
  | _ => exact .error _

/-- The same length is the same integer, or too large on both sides. -/
theorem integerOfLength_matches {k n : Nat} (h : k = n) :
    ExceptRel (Value.Matches m) (return .int (← integerOfLength k))
      (return .int (← integerOfLength n)) := by
  rw [h]
  cases integerOfLength n with
  | ok i => exact .ok (.int i)
  | error e => exact .error e

theorem applyLength_matches (h : List.Forall₂ (Value.Matches m) args args') :
    ExceptRel (Value.Matches m) (applyLength args) (applyLength args') := by
  refine (oneArgument_matches h).bind fun v w hv => ?_
  cases hv with
  | str s => exact integerOfLength_matches rfl
  | array _ hitems => exact integerOfLength_matches hitems.length_eq
  | _ => exact .error _

theorem applyLastIndex_matches (h : List.Forall₂ (Value.Matches m) args args') :
    ExceptRel (Value.Matches m) (applyLastIndex args) (applyLastIndex args') := by
  refine (oneArray_matches .lastIndex h).bind fun vs ws hitems => ?_
  cases hitems with
  | nil => exact .ok .null
  | cons _ hrest => exact integerOfLength_matches hrest.length_eq

theorem pushArguments_matches (h : List.Forall₂ (Value.Matches m) args args') :
    ExceptRel (fun p q => List.Forall₂ (Value.Matches m) p.1 q.1 ∧ p.2.Matches m q.2)
      (pushArguments args) (pushArguments args') := by
  have hlength := h.length_eq
  cases h with
  | nil => exact .error _
  | cons hv hrest =>
      cases hrest with
      | nil => cases hv <;> exact .error _
      | cons hw hrest =>
          cases hrest with
          | nil =>
              cases hv with
              | array _ hitems => exact .ok ⟨hitems, hw⟩
              | _ => exact .error _
          | cons _ _ =>
              simp only [pushArguments, hlength]
              exact .error _

theorem lockstep_printLines (h : List.Forall₂ (Value.Matches m) args args') :
    Lockstep (fun _ _ _ => True) m (args.forM fun v => printLine v.text)
      (args'.forM fun v => printLine v.text) := by
  induction args generalizing args' m with
  | nil =>
      cases h
      exact .pure trivial
  | cons v vs ih =>
      cases h with
      | @cons _ w _ _ hv hvs =>
          have hfirst : Lockstep (fun _ _ _ => True) m (printLine v.text) (printLine w.text) := by
            rw [hv.text_eq]
            exact lockstep_printLine w.text
          exact hfirst.bind fun hle _ => ih (Value.all_mono hle hvs)

/-- Built-in functions take matching arguments to matching results. -/
theorem lockstep_apply (b : Builtin) (h : List.Forall₂ (Value.Matches m) args args') :
    Lockstep Value.Matches m (b.apply args) (b.apply args') := by
  cases b with
  | length => exact .ofExcept (applyLength_matches h)
  | lastIndex => exact .ofExcept (applyLastIndex_matches h)
  | tail =>
      refine (Lockstep.ofExcept (r := fun m => List.Forall₂ (Value.Matches m))
        (oneArray_matches .tail h)).bind fun _ hitems => lockstep_newArray ?_
      cases hitems with
      | nil => exact .nil
      | cons _ hrest => exact hrest
  | push =>
      refine (Lockstep.ofExcept (r := fun m p q =>
        List.Forall₂ (Value.Matches m) p.1 q.1 ∧ p.2.Matches m q.2)
        (pushArguments_matches h)).bind fun _ hpush => lockstep_newArray ?_
      exact List.rel_append hpush.1 (.cons hpush.2 .nil)
  | print => exact (lockstep_printLines h).bind fun _ _ => .pure .null

end Builtin

/-! ## Phrases -/

variable [Hashing]

section

open Eval

variable {call call' : Closure → List Value → Eval Value}
  (hcall : ∀ {m : Matching voc} {f g : Closure} {args args' : List Value},
    (Value.function f).Matches m (.function g) → List.Forall₂ (Value.Matches m) args args' →
      Lockstep Value.Matches m (call f args) (call' g args'))

include hcall

omit [Hashing] in
theorem Value.lockstep_apply {m : Matching voc} {v w : Value} {args args' : List Value}
    (h : v.Matches m w) (hargs : List.Forall₂ (Value.Matches m) args args') :
    Lockstep Value.Matches m (v.apply call args) (w.apply call' args') := by
  cases h with
  | function hobj hscope huses => exact hcall (.function hobj hscope huses) hargs
  | builtin b => exact b.lockstep_apply hargs
  | _ => exact .fail _

set_option linter.unusedSectionVars false in
mutual

/-- An expression is evaluated in lockstep with itself in corresponding scopes. Each part is
    evaluated under what the matching has become by then, and the values of earlier parts are
    carried over to it. -/
theorem Expr.lockstep_eval : (e : Expr) → e.Uses voc → {m : Matching voc} → {i j : ScopeId} →
    m.scopes i j → Lockstep Value.Matches m (e.eval call i) (e.eval call' j)
  | .name _, huses, _, _, _, hij => lockstep_resolve hij huses
  | .int _, _, _, _, _, _ => .pure (.int _)
  | .str _, _, _, _, _, _ => .pure (.str _)
  | .bool _, _, _, _, _, _ => .pure (.bool _)
  | .unary op operand, huses, _, _, _, hij =>
      (Expr.lockstep_eval operand huses hij).bind fun _ hv => .ofExcept (op.apply_matches hv)
  | .binary op left right, huses, _, _, _, hij =>
      (Expr.lockstep_eval left huses.1 hij).bind fun hle hv =>
        (Expr.lockstep_eval right huses.2 (hle.2 _ _ hij)).bind fun hle' hw =>
          .ofExcept (op.apply_matches (hv.mono hle') hw)
  | .cond condition thenBlock none, huses, _, _, _, hij => by
      refine (Expr.lockstep_eval condition huses.1 hij).bind fun hle hc => ?_
      rw [hc.isTruthy_eq]
      split
      · exact Stmt.lockstep_evalAll thenBlock huses.2 (hle.2 _ _ hij) .null
      · exact .pure .null
  | .cond condition thenBlock (some elseBlock), huses, _, _, _, hij => by
      refine (Expr.lockstep_eval condition huses.1 hij).bind fun hle hc => ?_
      rw [hc.isTruthy_eq]
      split
      · exact Stmt.lockstep_evalAll thenBlock huses.2.1 (hle.2 _ _ hij) .null
      · exact Stmt.lockstep_evalAll elseBlock huses.2.2 (hle.2 _ _ hij) .null
  | .fn _ _, huses, _, _, _, hij => lockstep_newFunction huses hij
  | .call callee args, huses, _, _, _, hij =>
      (Expr.lockstep_eval callee huses.1 hij).bind fun hle hf =>
        (Expr.lockstep_evalAll args huses.2 (hle.2 _ _ hij)).bind fun hle' hvs =>
          Value.lockstep_apply hcall (hf.mono hle') hvs
  | .array items, huses, _, _, _, hij =>
      (Expr.lockstep_evalAll items huses hij).bind fun _ hvs => lockstep_newArray hvs
  | .map pairs, huses, _, _, _, hij =>
      (Expr.lockstep_evalPairs pairs huses hij .nil).bind fun _ hes => lockstep_newMap hes
  | .index collection position, huses, _, _, _, hij =>
      (Expr.lockstep_eval collection huses.1 hij).bind fun hle hv =>
        (Expr.lockstep_eval position huses.2 (hle.2 _ _ hij)).bind fun hle' hw =>
          .ofExcept (Value.index_matches (hv.mono hle') hw)

theorem Expr.lockstep_evalAll : (es : List Expr) → Expr.AllUse voc es → {m : Matching voc} →
    {i j : ScopeId} → m.scopes i j → Lockstep (fun m => List.Forall₂ (Value.Matches m)) m
      (Expr.evalAll call i es) (Expr.evalAll call' j es)
  | [], _, _, _, _, _ => .pure .nil
  | e :: es, huses, _, _, _, hij =>
      (Expr.lockstep_eval e huses.1 hij).bind fun hle hv =>
        (Expr.lockstep_evalAll es huses.2 (hle.2 _ _ hij)).bind fun hle' hvs =>
          .pure (.cons (hv.mono hle') hvs)

theorem Expr.lockstep_evalPairs : (pairs : List (Expr × Expr)) → Expr.PairsUse voc pairs →
    {m : Matching voc} → {i j : ScopeId} → m.scopes i j → {es fs : List (Entry Value)} →
    List.Forall₂ (Value.EntryMatches m) es fs →
    Lockstep (fun m => List.Forall₂ (Value.EntryMatches m)) m
      (Expr.evalPairs call i es pairs) (Expr.evalPairs call' j fs pairs)
  | [], _, _, _, _, _, _, _, hes => .pure hes
  | (key, value) :: pairs, huses, _, _, _, hij, _, _, hes =>
      (Expr.lockstep_eval key huses.1 hij).bind fun hle hk =>
        (lockstep_asKey hk).bind fun hle₁ hkey => by
          subst hkey
          refine (Expr.lockstep_eval value huses.2.1 ((hle.trans hle₁).2 _ _ hij)).bind
            fun hle₂ hv => ?_
          have hle₃ := (hle.trans hle₁).trans hle₂
          exact Expr.lockstep_evalPairs pairs huses.2.2 (hle₃.2 _ _ hij)
            (List.rel_append (Value.entries_mono hle₃ hes) (.cons (.mk _ _ hv) .nil))

theorem Stmt.lockstep_eval : (s : Stmt) → s.Uses voc → {m : Matching voc} → {i j : ScopeId} →
    m.scopes i j → Lockstep Value.Matches m (s.eval call i) (s.eval call' j)
  | .const _ value, huses, _, _, _, hij =>
      (Expr.lockstep_eval value huses.2 hij).bind fun hle hv =>
        (lockstep_define (hle.2 _ _ hij) huses.1 hv).bind fun _ _ => .pure .null
  | .ret value, huses, _, _, _, hij =>
      (Expr.lockstep_eval value huses hij).bind fun _ hv => .throw (.returned hv)
  | .expr e, huses, _, _, _, hij => Expr.lockstep_eval e huses hij

theorem Stmt.lockstep_evalAll : (ss : List Stmt) → Stmt.AllUse voc ss → {m : Matching voc} →
    {i j : ScopeId} → m.scopes i j → {last last' : Value} → last.Matches m last' →
    Lockstep Value.Matches m (Stmt.evalAll call i last ss) (Stmt.evalAll call' j last' ss)
  | [], _, _, _, _, _, _, _, hlast => .pure hlast
  | s :: ss, huses, _, _, _, hij, _, _, _ =>
      (Stmt.lockstep_eval s huses.1 hij).bind fun hle hv =>
        Stmt.lockstep_evalAll ss huses.2 (hle.2 _ _ hij) hv

end

end

/-! ## Calls -/

open Eval

variable {m : Matching voc}

omit [Hashing] in
theorem Closure.lockstep_enter {f g : Closure} {args args' : List Value}
    (h : (Value.function f).Matches m (.function g))
    (hargs : List.Forall₂ (Value.Matches m) args args') :
    Lockstep (fun m => m.scopes) m (f.enter args) (g.enter args') := by
  cases h with
  | function hobj hscope huses =>
      unfold Closure.enter
      rw [hargs.length_eq]
      refine (Lockstep.ofExcept (r := fun _ _ _ => True) ?_).bind fun hle _ => ?_
      · unfold checkArgumentCount
        split
        · exact .ok trivial
        · exact .error _
      · refine (lockstep_enclose (hle.2 _ _ hscope)).bind fun hle₁ hnew => ?_
        refine (lockstep_defineAll huses.2.1 hnew
          (Value.all_mono (hle.trans hle₁) hargs)).bind fun hle₂ _ => ?_
        exact .pure (hle₂.2 _ _ hnew)

/-- Calls of matching functions with matching arguments run in lockstep. -/
theorem Closure.lockstep_call (depth : Nat) {m : Matching voc} {f g : Closure}
    {args args' : List Value} (h : (Value.function f).Matches m (.function g))
    (hargs : List.Forall₂ (Value.Matches m) args args') :
    Lockstep Value.Matches m (Closure.call depth f args) (Closure.call depth g args') := by
  induction depth generalizing m f g args args' with
  | zero => exact (Closure.lockstep_enter h hargs).bind fun _ _ => .throw .tooDeep
  | succ depth ih =>
      refine (Closure.lockstep_enter h hargs).bind fun hle hscope => Lockstep.catchReturn ?_
      cases h with
      | function _ _ huses => exact Stmt.lockstep_evalAll ih _ huses.2.2 hscope .null

/-- Matching values are applied to matching arguments in lockstep. -/
theorem Value.lockstep_applyTo (depth : Nat) {v w : Value} {args args' : List Value}
    (h : v.Matches m w) (hargs : List.Forall₂ (Value.Matches m) args args') :
    Lockstep Value.Matches m (v.applyTo depth args) (w.applyTo depth args') :=
  Value.lockstep_apply (Closure.lockstep_call depth) h hargs

end ConstScript
