import ConstScript.Proofs.Eval.Creation
import ConstScript.Proofs.Eval.ErrorFree

set_option autoImplicit false

/-! # Where objects come from

Every object that an evaluation handles was created at a point of it: objects are passed on as they
are, and only literals and some built-in functions make new ones. This is stated for any collection
of points that contains with a point all those that the evaluation comes to from there. A value is
*traced* in a store if each object in it was created at one of these points, and this was over when
the store came about. -/

namespace ConstScript

variable [Hashing]

open Eval Relation

variable {V : Point → Prop}

/-! ## Traced values and stores -/

/-- The object was created at one of the points, before the store came about. -/
def Value.MadeBefore (V : Point → Prop) (st : Store) (v : Value) : Prop :=
  ∃ p, V p ∧ p.Creates v ∧ p.after.Extends st

/-- All objects in the value were created at the points, before the store came about. -/
def Value.Traced (V : Point → Prop) (st : Store) (v : Value) : Prop :=
  ∀ w : Value, w.Contains v → w.objectId?.isSome → w.MadeBefore V st

/-- All values that scopes bind are traced. -/
def Store.Traced (V : Point → Prop) (st : Store) : Prop :=
  ∀ (id : ScopeId) (name : String) (v : Value), st.getOwn? id name = some v → v.Traced V st

/-- The value of a `return` is traced. -/
def Stop.Traced (V : Point → Prop) (st : Store) : Stop → Prop
  | .returned v => v.Traced V st
  | .failed _ | .tooDeep => True

namespace Value

variable {st st' : Store} {v w : Value}

theorem madeBefore_of_makes {p : Point} (hp : V p) (hmakes : p.Makes)
    (houtcome : p.outcome = .ok v st) : v.MadeBefore V st :=
  ⟨p, hp, hmakes.creates houtcome, .of_eq (Point.after_of_outcome houtcome)⟩

theorem Traced.mono (h : v.Traced V st) (hextends : st.Extends st') : v.Traced V st' := by
  intro w hw hid
  obtain ⟨p, hp, hcreates, hafter⟩ := h w hw hid
  exact ⟨p, hp, hcreates, hafter.trans hextends⟩

theorem Traced.of_contains (h : v.Traced V st) (hw : w.Contains v) : w.Traced V st :=
  fun u hu hid => h u (hu.trans hw) hid

theorem traced_of_objectId? (h : v.objectId? = none) : v.Traced V st := by
  intro w hw hid
  obtain rfl := hw.eq_of_objectId? h
  rw [h] at hid
  cases hid

theorem traced_array {id : ObjectId} {items : List Value}
    (hmade : (array id items).MadeBefore V st) (hitems : ∀ v ∈ items, v.Traced V st) :
    (array id items).Traced V st := by
  intro w hw hid
  cases hw with
  | self => exact hmade
  | item hmem hw => exact hitems _ hmem w hw hid

theorem traced_map {id : ObjectId} {entries : List (Entry Value)}
    (hmade : (map id entries).MadeBefore V st) (hentries : ∀ e ∈ entries, e.value.Traced V st) :
    (map id entries).Traced V st := by
  intro w hw hid
  cases hw with
  | self => exact hmade
  | entry hmem hw => exact hentries _ hmem w hw hid

theorem traced_function {f : Closure} (hmade : (function f).MadeBefore V st) :
    (function f).Traced V st := by
  intro w hw hid
  cases hw with
  | self => exact hmade

/-- The identity of a traced object was given out before. -/
theorem Traced.lt_objects (h : v.Traced V st) {id : ObjectId} (hid : v.objectId? = some id) :
    id < st.objects := by
  obtain ⟨p, -, hcreates, hafter⟩ := h v .self (by rw [hid]; rfl)
  obtain ⟨mid, hmid, hfresh, -⟩ := hcreates.spec
  have hle := hafter.objects
  rw [hfresh] at hle
  obtain rfl := Option.some.inj (hid.symm.trans hmid)
  exact hle

end Value

namespace Store

variable {st : Store}

theorem traced_empty : empty.Traced V :=
  fun id _ _ h => by simp [getOwn?, empty] at h

theorem Traced.openScope (h : st.Traced V) (outer : Option ScopeId) :
    (st.openScope outer).2.Traced V := by
  intro id name v hv
  rw [getOwn?_openScope] at hv
  exact (h id name v hv).mono ((st.openScope_spec outer).1.extends (Nat.le_refl _))

theorem Traced.freshObject (h : st.Traced V) : st.freshObject.2.Traced V :=
  fun id name v hv => (h id name v hv).mono st.extends_freshObject

theorem Traced.print (h : st.Traced V) (text : String) : (st.print text).Traced V := by
  have hextends : st.Extends (st.print text) := Keeps.extends (.refl st) (Nat.le_refl _)
  exact fun id name v hv => (h id name v hv).mono hextends

theorem Traced.addBinding (h : st.Traced V) {v : Value} (hv : v.Traced V st) {id : ScopeId}
    {name : String} (hname : ¬ st.binds id name) : (st.addBinding id name v).Traced V := by
  have hextends : st.Extends (st.addBinding id name v) :=
    (addBinding_footprint v hname).extends (Nat.le_refl _)
  intro id' name' w hw
  rcases eq_or_getOwn?_of_addBinding hw with rfl | hw
  · exact hv.mono hextends
  · exact (h id' name' w hw).mono hextends

theorem Traced.lookup (h : st.Traced V) {id : ScopeId} {name : String} {v : Value}
    (hv : st.lookup id name = some v) : v.Traced V st := by
  obtain ⟨id', hown⟩ := exists_of_lookup hv
  exact h id' name v hown

end Store

/-! ## Evaluations -/

namespace Eval

variable {α β : Type} {P : Store → α → Prop} {Q : Store → β → Prop} {st : Store}

/-- An evaluation has ended in a traced store, with a result that has the property for the number of
    identities given out, or in a traced way. -/
inductive EndsTraced (V : Point → Prop) (P : Store → α → Prop) : EStateM.Result Stop Store α → Prop
  | ok {a : α} {st : Store} : P st a → st.Traced V → EndsTraced V P (.ok a st)
  | error {stop : Stop} {st : Store} : stop.Traced V st → st.Traced V →
      EndsTraced V P (.error stop st)

namespace EndsTraced

theorem of_ok {x : Eval α} (h : EndsTraced V P (x st)) {a : α} {st' : Store}
    (hrun : x st = .ok a st') : P st' a ∧ st'.Traced V := by
  rw [hrun] at h
  cases h with
  | ok ha hst' => exact ⟨ha, hst'⟩

theorem of_error {x : Eval α} (h : EndsTraced V P (x st)) {stop : Stop} {st' : Store}
    (hrun : x st = .error stop st') : stop.Traced V st' ∧ st'.Traced V := by
  rw [hrun] at h
  cases h with
  | error hstop hst' => exact ⟨hstop, hst'⟩

theorem after {x : Eval α} (h : EndsTraced V P (x st)) : (x.after st).Traced V := by
  unfold Eval.after
  generalize x st = r at h
  cases h with
  | ok _ hst' => exact hst'
  | error _ hst' => exact hst'

/-- What goes on can rely on how the first step went. -/
theorem bind {x : Eval α} {f : α → Eval β} (hx : EndsTraced V P (x st))
    (hf : ∀ a mid, x st = .ok a mid → P mid a → mid.Traced V →
      EndsTraced V Q (f a mid)) : EndsTraced V Q ((x >>= f) st) := by
  cases hrun : x st with
  | ok a mid =>
      obtain ⟨ha, hmid⟩ := hx.of_ok hrun
      rw [bind_of_ok hrun]
      exact hf a mid hrun ha hmid
  | error stop mid =>
      obtain ⟨hstop, hmid⟩ := hx.of_error hrun
      rw [bind_of_error hrun]
      exact .error hstop hmid

theorem ofExcept (hst : st.Traced V) {r : Except RuntimeError α}
    (h : ∀ a, r = .ok a → P st a) : EndsTraced V P (Eval.ofExcept r st) := by
  cases r with
  | ok a => exact .ok (h a rfl) hst
  | error e => exact .error trivial hst

theorem catchReturn {x : Eval Value} (h : EndsTraced V (Value.Traced V) (x st)) :
    EndsTraced V (Value.Traced V) (Eval.catchReturn x st) := by
  unfold Eval.catchReturn
  generalize x st = r at h
  cases h with
  | ok hv hst' => exact .ok hv hst'
  | @error stop _ hstop hst' =>
      cases stop with
      | returned v => exact .ok hstop hst'
      | failed e => exact .error hstop hst'
      | tooDeep => exact .error hstop hst'

end EndsTraced

/-! ### What evaluations do with the store -/

theorem traced_newArray (hst : st.Traced V) {items : List Value}
    (hitems : ∀ v ∈ items, v.Traced V st)
    (hmade : (Value.array st.objects items).MadeBefore V st.freshObject.2) :
    EndsTraced V (Value.Traced V) (newArray items st) :=
  .ok (Value.traced_array hmade fun v hv => (hitems v hv).mono st.extends_freshObject)
    hst.freshObject

theorem traced_newMap (hst : st.Traced V) {puts : List (Entry Value)}
    (hputs : ∀ e ∈ puts, e.value.Traced V st)
    (hmade : (Value.map st.objects (Table.ofPuts puts)).MadeBefore V st.freshObject.2) :
    EndsTraced V (Value.Traced V) (newMap puts st) := by
  refine .ok (Value.traced_map hmade fun e he => ?_) hst.freshObject
  exact (hputs e (Table.mem_of_mem_ofPuts he)).mono st.extends_freshObject

theorem traced_asKey (hst : st.Traced V) (v : Value) :
    EndsTraced V (fun _ _ => True) (asKey v st) := by
  unfold asKey
  cases v.toKey? with
  | some key => exact .ok trivial hst
  | none => exact .error trivial hst

theorem traced_resolve (hst : st.Traced V) (scope : ScopeId) (name : String) :
    EndsTraced V (Value.Traced V) (resolve scope name st) := by
  rw [resolve_run]
  cases hlookup : st.lookup scope name with
  | some v => exact .ok (hst.lookup hlookup) hst
  | none => cases Builtin.ofName? name with
    | some b => exact .ok (Value.traced_of_objectId? rfl) hst
    | none => exact .error trivial hst

theorem traced_define (hst : st.Traced V) (scope : ScopeId) (name : String) {v : Value}
    (hv : v.Traced V st) : EndsTraced V (fun _ _ => True) (define scope name v st) := by
  by_cases hbinds : st.binds scope name
  · rw [define_of_binds hbinds]
    exact .error trivial hst
  · rw [define_of_not_binds hbinds]
    exact .ok trivial (hst.addBinding hv hbinds)

theorem traced_defineAll (hst : st.Traced V) (scope : ScopeId) {bindings : List (String × Value)}
    (h : ∀ b ∈ bindings, b.2.Traced V st) :
    EndsTraced V (fun _ _ => True) (defineAll scope bindings st) := by
  induction bindings generalizing st with
  | nil => exact .ok trivial hst
  | cons b bindings ih =>
      obtain ⟨hb, hbindings⟩ := List.forall_mem_cons.1 h
      refine (traced_define hst scope b.1 hb).bind fun _ mid hrun _ hmid => ih hmid fun c hc => ?_
      exact (hbindings c hc).mono (Grows.of_ok (stable_grows.define scope b.1 b.2) hrun)

/-- A built-in function makes no object, or an array at the point of its call. -/
theorem traced_builtin (hst : st.Traced V) {b : Builtin} {args : List Value}
    (hargs : ∀ a ∈ args, a.Traced V st)
    (hmade : b.makesArray → ∀ v st', b.apply args st = .ok v st' → v.MadeBefore V st') :
    EndsTraced V (Value.Traced V) (b.apply args st) := by
  cases b with
  | length =>
      exact .ofExcept hst fun v hv =>
        Value.traced_of_objectId? (Builtin.objectId?_of_applyLength hv)
  | lastIndex =>
      exact .ofExcept hst fun v hv =>
        Value.traced_of_objectId? (Builtin.objectId?_of_applyLastIndex hv)
  | tail =>
      have htake : EndsTraced V (fun _ _ => True) (ofExcept (Builtin.oneArray .tail args) st) :=
        .ofExcept hst fun _ _ => trivial
      refine htake.bind fun items mid hrun _ hmid => ?_
      obtain ⟨hitems, rfl⟩ := eq_of_ofExcept_eq_ok hrun
      obtain ⟨id, rfl⟩ := Builtin.eq_of_oneArray hitems
      refine traced_newArray hmid (fun v hv => ?_) (hmade rfl _ _ (bind_of_ok hrun))
      exact (hargs _ (List.mem_singleton_self _)).of_contains
        (.item (List.mem_of_mem_tail hv) .self)
  | push =>
      have htake : EndsTraced V (fun _ _ => True) (ofExcept (Builtin.pushArguments args) st) :=
        .ofExcept hst fun _ _ => trivial
      refine htake.bind fun pair mid hrun _ hmid => ?_
      obtain ⟨items, w⟩ := pair
      obtain ⟨hitems, rfl⟩ := eq_of_ofExcept_eq_ok hrun
      obtain ⟨id, rfl⟩ := Builtin.eq_of_pushArguments hitems
      obtain ⟨harray, hw⟩ := List.forall_mem_cons.1 hargs
      refine traced_newArray hmid (List.forall_mem_append.2 ⟨fun v hv => ?_, hw⟩)
        (hmade rfl _ _ (bind_of_ok hrun))
      exact harray.of_contains (.item hv .self)
  | print =>
      have hlines : ∀ (vs : List Value) (st : Store), st.Traced V →
          EndsTraced V (fun _ _ => True) ((vs.forM fun v => printLine v.text) st) := by
        intro vs
        induction vs with
        | nil => exact fun st hst => .ok trivial hst
        | cons v vs ih =>
            intro st hst
            have hline : EndsTraced V (fun _ _ => True) (printLine v.text st) :=
              .ok trivial (hst.print _)
            exact hline.bind fun _ mid _ _ hmid => ih mid hmid
      exact (hlines args st hst).bind fun _ mid _ _ hmid =>
        .ok (Value.traced_of_objectId? rfl) hmid

end Eval

/-! ## Parts in lists -/

section

variable {depth : Nat} {scope : ScopeId} {st st' : Store}

/-- The points of the items of a list that is evaluated in the store are among the given ones. -/
def VisitsItems (V : Point → Prop) (depth : Nat) (scope : ScopeId) (es : List Expr)
    (st : Store) : Prop :=
  ∀ before e rest vs st', es = before ++ e :: rest →
    Expr.evalAll (Closure.call depth) scope before st = .ok vs st' →
    V ⟨depth, scope, .expr e, st'⟩

theorem VisitsItems.of_append {es es' : List Expr}
    (h : VisitsItems V depth scope (es ++ es') st) : VisitsItems V depth scope es st :=
  fun before e rest vs st' hes hbefore =>
    h before e (rest ++ es') vs st' (by rw [hes, List.append_assoc]; rfl) hbefore

theorem VisitsItems.tail {e : Expr} {es : List Expr} (h : VisitsItems V depth scope (e :: es) st)
    {v : Value} (he : e.eval (Closure.call depth) scope st = .ok v st') :
    VisitsItems V depth scope es st' := by
  intro before e' rest vs st'' hes hbefore
  refine h (e :: before) e' rest (v :: vs) st'' (by rw [hes]; rfl) ?_
  exact (bind_of_ok he).trans (bind_of_ok hbefore)

/-- The points of the keys and values of pairs that are evaluated in the store are among the given
    ones. -/
def VisitsPairs (V : Point → Prop) (depth : Nat) (scope : ScopeId) (puts : List (Entry Value))
    (pairs : List (Expr × Expr)) (st : Store) : Prop :=
  ∀ before k e rest puts' st' m, pairs = before ++ (k, e) :: rest →
    Expr.evalPairs (Closure.call depth) scope puts before st = .ok puts' st' →
    InPair (Closure.call depth) scope k e st' m → V ⟨depth, scope, m⟩

theorem VisitsPairs.of_append {puts : List (Entry Value)} {pairs pairs' : List (Expr × Expr)}
    (h : VisitsPairs V depth scope puts (pairs ++ pairs') st) :
    VisitsPairs V depth scope puts pairs st :=
  fun before k e rest puts' st' m hpairs hbefore =>
    h before k e (rest ++ pairs') puts' st' m (by rw [hpairs, List.append_assoc]; rfl) hbefore

theorem VisitsPairs.tail {puts : List (Entry Value)} {k e : Expr} {pairs : List (Expr × Expr)}
    (h : VisitsPairs V depth scope puts ((k, e) :: pairs) st) {v w : Value} {key : Key}
    {mid mid' : Store} (hk : k.eval (Closure.call depth) scope st = .ok v mid)
    (hkey : asKey v mid = .ok key mid')
    (he : e.eval (Closure.call depth) scope mid' = .ok w st') :
    VisitsPairs V depth scope (puts ++ [Table.entry key w]) pairs st' := by
  intro before k' e' rest puts' st'' m hpairs hbefore
  refine h ((k, e) :: before) k' e' rest puts' st'' m (by rw [hpairs]; rfl) ?_
  exact (bind_of_ok hk).trans ((bind_of_ok hkey).trans ((bind_of_ok he).trans hbefore))

/-- The points of statements that are executed in the store are among the given ones. -/
def VisitsStatements (V : Point → Prop) (depth : Nat) (scope : ScopeId) (last : Value)
    (ss : List Stmt) (st : Store) : Prop :=
  ∀ before s rest v st', ss = before ++ s :: rest →
    Stmt.evalAll (Closure.call depth) scope last before st = .ok v st' →
    V ⟨depth, scope, .stmt s, st'⟩

theorem VisitsStatements.of_append {last : Value} {ss ss' : List Stmt}
    (h : VisitsStatements V depth scope last (ss ++ ss') st) :
    VisitsStatements V depth scope last ss st :=
  fun before s rest v st' hss hbefore =>
    h before s (rest ++ ss') v st' (by rw [hss, List.append_assoc]; rfl) hbefore

theorem VisitsStatements.tail {last : Value} {s : Stmt} {ss : List Stmt}
    (h : VisitsStatements V depth scope last (s :: ss) st) {v : Value}
    (hs : s.eval (Closure.call depth) scope st = .ok v st') :
    VisitsStatements V depth scope v ss st' := by
  intro before s' rest w st'' hss hbefore
  refine h (s :: before) s' rest w st'' (by rw [hss]; rfl) ?_
  exact (bind_of_ok hs).trans hbefore

end

/-! ## Phrases -/

section

/-- With a point, the evaluation comes to others among those given. -/
def ClosedUnderSteps (V : Point → Prop) : Prop :=
  ∀ p q, V p → p.Step q → V q

section

variable (hV : ClosedUnderSteps V) {depth : Nat} {scope : ScopeId} {st : Store}

include hV

theorem ClosedUnderSteps.visitsItems {items : List Expr}
    (hp : V ⟨depth, scope, .expr (.array items), st⟩) : VisitsItems V depth scope items st := by
  rintro before e rest vs st' rfl hbefore
  exact hV _ _ hp (.inside (.item before hbefore))

theorem ClosedUnderSteps.visitsArguments {f : Expr} {args : List Expr}
    (hp : V ⟨depth, scope, .expr (.call f args), st⟩) {v : Value} {st' : Store}
    (hf : f.eval (Closure.call depth) scope st = .ok v st') : VisitsItems V depth scope args st' := by
  rintro before e rest vs st'' rfl hbefore
  exact hV _ _ hp (.inside (.argument before hf hbefore))

theorem ClosedUnderSteps.visitsPairs {pairs : List (Expr × Expr)}
    (hp : V ⟨depth, scope, .expr (.map pairs), st⟩) : VisitsPairs V depth scope [] pairs st := by
  rintro before k e rest puts st' m rfl hbefore hm
  cases hm with
  | key => exact hV _ _ hp (.inside (.key before hbefore))
  | value hk hkey => exact hV _ _ hp (.inside (.value before hbefore hk hkey))

theorem ClosedUnderSteps.visitsStatements {ss : List Stmt}
    (hp : V ⟨depth, scope, .block ss, st⟩) : VisitsStatements V depth scope .null ss st := by
  rintro before s rest v st' rfl hbefore
  exact hV _ _ hp (.inside (.statement before hbefore))

end

/-- From a store with traced arguments, a call ends in a traced way if the point of its body is among
    those given. -/
def CallsTraced (V : Point → Prop) (depth : Nat) : Prop :=
  ∀ (f : Closure) (args : List Value) (st : Store), st.Traced V →
    (∀ a ∈ args, a.Traced V st) →
    (∀ d scope st', depth = d + 1 → f.enter args st = .ok scope st' →
      V ⟨d, scope, .block f.body, st'⟩) →
    EndsTraced V (Value.Traced V) (Closure.call depth f args st)

variable (hV : ClosedUnderSteps V) {depth : Nat} (hcall : CallsTraced V depth) (scope : ScopeId)

include hV hcall

set_option linter.unusedSectionVars false in
mutual

theorem Expr.traced_eval : (e : Expr) → {st : Store} → V ⟨depth, scope, .expr e, st⟩ →
    st.Traced V → EndsTraced V (Value.Traced V) (e.eval (Closure.call depth) scope st)
  | .name n, _, _, hst => traced_resolve hst scope n
  | .int _, _, _, hst | .str _, _, _, hst | .bool _, _, _, hst =>
      .ok (Value.traced_of_objectId? rfl) hst
  | .fn _ _, _, hp, hst =>
      .ok (Value.traced_function (Value.madeBefore_of_makes hp .function rfl)) hst.freshObject
  | .unary _ operand, _, hp, hst =>
      (Expr.traced_eval operand (hV _ _ hp (.inside .operand)) hst).bind
        fun _ _ _ _ hmid => .ofExcept hmid fun _ hw =>
          Value.traced_of_objectId? (UnaryOp.objectId?_of_apply hw)
  | .binary _ left right, _, hp, hst =>
      (Expr.traced_eval left (hV _ _ hp (.inside .left)) hst).bind fun _ _ hl _ hmid =>
        (Expr.traced_eval right (hV _ _ hp (.inside (.right hl))) hmid).bind
          fun _ _ _ _ hmid => .ofExcept hmid fun _ hw =>
            Value.traced_of_objectId? (BinaryOp.objectId?_of_apply hw)
  | .cond condition thenBlock none, _, hp, hst => by
      refine (Expr.traced_eval condition (hV _ _ hp (.inside .condition)) hst).bind
        fun c mid hc _ hmid => ?_
      by_cases htrue : c.isTruthy
      · rw [if_pos htrue]
        exact Stmt.traced_evalAll thenBlock
          (hV.visitsStatements (hV _ _ hp (.inside (.thenBlock hc htrue))))
          (Value.traced_of_objectId? rfl) hmid
      · rw [if_neg htrue]
        exact .ok (Value.traced_of_objectId? rfl) hmid
  | .cond condition thenBlock (some elseBlock), _, hp, hst => by
      refine (Expr.traced_eval condition (hV _ _ hp (.inside .condition)) hst).bind
        fun c mid hc _ hmid => ?_
      by_cases htrue : c.isTruthy
      · rw [if_pos htrue]
        exact Stmt.traced_evalAll thenBlock
          (hV.visitsStatements (hV _ _ hp (.inside (.thenBlock hc htrue))))
          (Value.traced_of_objectId? rfl) hmid
      · rw [if_neg htrue]
        exact Stmt.traced_evalAll elseBlock
          (hV.visitsStatements (hV _ _ hp (.inside (.elseBlock hc htrue))))
          (Value.traced_of_objectId? rfl) hmid
  | .call callee args, st, hp, hst => by
      refine (Expr.traced_eval callee (hV _ _ hp (.inside .callee)) hst).bind
        fun f mid hf _ hmid => ?_
      refine (Expr.traced_evalAll args (hV.visitsArguments hp hf) hmid).bind
        fun vs mid' hargs hvs hmid' => ?_
      have hcalled {v : Value} {st' : Store}
          (happly : f.apply (Closure.call depth) vs mid' = .ok v st') :
          Point.outcome ⟨depth, scope, .expr (.call callee args), st⟩ = .ok v st' :=
        (bind_of_ok hf).trans ((bind_of_ok hargs).trans happly)
      cases f with
      | function g =>
          -- The body is reached only if the depth allows the call, so this is asked for then.
          refine hcall g vs mid' hmid' hvs fun d scope' st' hd henter => ?_
          subst hd
          exact hV _ _ hp (.enters (.body g hf hargs henter))
      | builtin b =>
          exact traced_builtin hmid' hvs fun hb v st' happly =>
            Value.madeBefore_of_makes hp (.builtin hb hf) (hcalled happly)
      | _ => exact .error trivial hmid'
  | .array items, st, hp, hst => by
      refine (Expr.traced_evalAll items (hV.visitsItems hp) hst).bind
        fun vs mid hitems hvs hmid => ?_
      exact traced_newArray hmid hvs (Value.madeBefore_of_makes hp .array (bind_of_ok hitems))
  | .map pairs, st, hp, hst => by
      refine (Expr.traced_evalPairs pairs (hV.visitsPairs hp) (by simp) hst).bind
        fun puts mid hpairs hputs hmid => ?_
      exact traced_newMap hmid hputs (Value.madeBefore_of_makes hp .map (bind_of_ok hpairs))
  | .index collection position, _, hp, hst => by
      refine (Expr.traced_eval collection (hV _ _ hp (.inside .collection)) hst).bind
        fun v mid hc hv hmid => ?_
      refine (Expr.traced_eval position (hV _ _ hp (.inside (.position hc))) hmid).bind
        fun w mid' hp' _ hmid' => .ofExcept hmid' fun u hu => ?_
      have hgrows := (Expr.grows_eval depth scope position).of_ok hp'
      rcases Value.null_or_contains_of_index hu with rfl | hcontains
      · exact Value.traced_of_objectId? rfl
      · exact (hv.of_contains hcontains).mono hgrows

theorem Expr.traced_evalAll : (es : List Expr) → {st : Store} →
    VisitsItems V depth scope es st → st.Traced V →
    EndsTraced V (fun n vs => ∀ v ∈ vs, v.Traced V n)
      (Expr.evalAll (Closure.call depth) scope es st)
  | [], _, _, hst => .ok (by simp) hst
  | e :: es, _, hes, hst => by
      refine (Expr.traced_eval e (hes [] e es [] _ rfl rfl) hst).bind fun v mid he hv hmid => ?_
      refine (Expr.traced_evalAll es (hes.tail he) hmid).bind fun vs mid' hrest hvs hmid' => ?_
      have hgrows := (Expr.grows_evalAll depth scope es).of_ok hrest
      exact .ok (List.forall_mem_cons.2 ⟨hv.mono hgrows, hvs⟩) hmid'

theorem Expr.traced_evalPairs : (pairs : List (Expr × Expr)) → {puts : List (Entry Value)} →
    {st : Store} → VisitsPairs V depth scope puts pairs st →
    (∀ e ∈ puts, e.value.Traced V st) → st.Traced V →
    EndsTraced V (fun n puts => ∀ e ∈ puts, e.value.Traced V n)
      (Expr.evalPairs (Closure.call depth) scope puts pairs st)
  | [], _, _, _, hputs, hst => .ok hputs hst
  | (key, value) :: pairs, _, _, hpairs, hputs, hst => by
      refine (Expr.traced_eval key (hpairs [] key value pairs _ _ _ rfl rfl .key) hst).bind
        fun k mid hk _ hmid => ?_
      refine (traced_asKey hmid k).bind fun k' mid' hkey _ hmid' => ?_
      obtain ⟨hsome, rfl⟩ := eq_of_asKey_eq_ok hkey
      have hvalue := hpairs [] key value pairs _ _ _ rfl rfl (.value hk (by rw [hsome]; rfl))
      refine (Expr.traced_eval value hvalue hmid').bind fun v mid he hv hmid => ?_
      have hgrows := ((Expr.grows_eval depth scope key).of_ok hk).trans
        ((Expr.grows_eval depth scope value).of_ok he)
      refine Expr.traced_evalPairs pairs (hpairs.tail hk hkey he) ?_ hmid
      refine List.forall_mem_append.2 ⟨fun p hp => (hputs p hp).mono hgrows, ?_⟩
      exact List.forall_mem_singleton.2 hv

theorem Stmt.traced_eval : (s : Stmt) → {st : Store} → V ⟨depth, scope, .stmt s, st⟩ →
    st.Traced V → EndsTraced V (Value.Traced V) (s.eval (Closure.call depth) scope st)
  | .const name value, _, hp, hst =>
      (Expr.traced_eval value (hV _ _ hp (.inside .initializer)) hst).bind
        fun _ _ _ hv hmid => (traced_define hmid scope name hv).bind
          fun _ _ _ _ hmid => .ok (Value.traced_of_objectId? rfl) hmid
  | .ret value, _, hp, hst =>
      (Expr.traced_eval value (hV _ _ hp (.inside .returned)) hst).bind
        fun _ _ _ hv hmid => .error hv hmid
  | .expr e, _, hp, hst => Expr.traced_eval e (hV _ _ hp (.inside .expression)) hst

theorem Stmt.traced_evalAll : (ss : List Stmt) → {last : Value} → {st : Store} →
    VisitsStatements V depth scope last ss st → last.Traced V st → st.Traced V →
    EndsTraced V (Value.Traced V) (Stmt.evalAll (Closure.call depth) scope last ss st)
  | [], _, _, _, hlast, hst => .ok hlast hst
  | s :: ss, _, _, hss, _, hst =>
      (Stmt.traced_eval s (hss [] s ss _ _ rfl rfl) hst).bind fun _ _ hs hv hmid =>
        Stmt.traced_evalAll ss (hss.tail hs) hv hmid

end

end

/-! ## Calls -/

theorem Closure.traced_enter (f : Closure) {args : List Value} {st : Store} (hst : st.Traced V)
    (hargs : ∀ a ∈ args, a.Traced V st) :
    EndsTraced V (fun _ _ => True) (f.enter args st) := by
  have hcount : EndsTraced V (fun _ _ => True)
      (ofExcept (checkArgumentCount args.length f.params.length) st) :=
    .ofExcept hst fun _ _ => trivial
  refine hcount.bind fun _ mid hrun _ hmid => ?_
  obtain ⟨-, rfl⟩ := eq_of_ofExcept_eq_ok hrun
  have hopened : EndsTraced V (fun _ _ => True) (enclose f.scope mid) :=
    .ok trivial (hmid.openScope _)
  refine hopened.bind fun scope mid' hrun _ hmid' => ?_
  have hbindings : ∀ b ∈ f.params.zip args, b.2.Traced V mid' := fun b hb =>
    (hargs b.2 (List.of_mem_zip hb).2).mono ((stable_grows.enclose f.scope).of_ok hrun)
  exact (traced_defineAll hmid' scope hbindings).bind fun _ mid _ _ hmid => .ok trivial hmid

theorem Closure.traced_call (hV : ClosedUnderSteps V) (depth : Nat) : CallsTraced V depth := by
  induction depth with
  | zero =>
      intro f args st hst hargs _
      exact (f.traced_enter hst hargs).bind fun _ _ _ _ hmid => .error trivial hmid
  | succ depth ih =>
      intro f args st hst hargs hbody
      refine (f.traced_enter hst hargs).bind fun scope mid henter _ hmid => ?_
      have hp := hbody depth scope mid rfl henter
      exact .catchReturn (Stmt.traced_evalAll hV ih scope f.body (hV.visitsStatements hp)
        (Value.traced_of_objectId? rfl) hmid)

/-! ## Points -/

section

variable (hV : ClosedUnderSteps V)

include hV

theorem Point.traced_outcome {p : Point} (hp : V p) (hst : p.moment.store.Traced V) :
    EndsTraced V (Value.Traced V) p.outcome := by
  obtain ⟨depth, scope, ⟨task, st⟩⟩ := p
  have hcall := Closure.traced_call hV depth
  cases task with
  | expr e => exact Expr.traced_eval hV hcall scope e hp hst
  | stmt s => exact Stmt.traced_eval hV hcall scope s hp hst
  | block ss =>
      exact Stmt.traced_evalAll hV hcall scope ss (hV.visitsStatements hp)
        (Value.traced_of_objectId? rfl) hst

/-- On its way to a part, an evaluation leaves the store traced. -/
theorem Inside.traced {depth : Nat} {scope : ScopeId} {m m' : Moment}
    (h : Inside (Closure.call depth) scope m m') (hp : V ⟨depth, scope, m⟩)
    (hm : m.store.Traced V) : m'.store.Traced V := by
  have hcall := Closure.traced_call hV depth
  have hpart {e : Expr} {v : Value} {st st' : Store} (hp : V ⟨depth, scope, .expr e, st⟩)
      (hst : st.Traced V) (hrun : e.eval (Closure.call depth) scope st = .ok v st') :
      st'.Traced V :=
    ((Expr.traced_eval hV hcall scope e hp hst).of_ok hrun).2
  cases h with
  | operand | left | condition | callee | collection | initializer | returned | expression =>
      exact hm
  | right hrun => exact hpart (hV _ _ hp (.inside .left)) hm hrun
  | position hrun => exact hpart (hV _ _ hp (.inside .collection)) hm hrun
  | thenBlock hrun _ | elseBlock hrun _ => exact hpart (hV _ _ hp (.inside .condition)) hm hrun
  | argument before hf hbefore =>
      have hmid := hpart (hV _ _ hp (.inside .callee)) hm hf
      have hvisits := (hV.visitsArguments hp hf).of_append
      exact ((Expr.traced_evalAll hV hcall scope before hvisits hmid).of_ok hbefore).2
  | item before hbefore =>
      have hvisits := (hV.visitsItems hp).of_append
      exact ((Expr.traced_evalAll hV hcall scope before hvisits hm).of_ok hbefore).2
  | key before hbefore =>
      have hvisits := (hV.visitsPairs hp).of_append
      exact ((Expr.traced_evalPairs hV hcall scope before hvisits (by simp) hm).of_ok hbefore).2
  | value before hbefore hk _ =>
      have hvisits := (hV.visitsPairs hp).of_append
      have hmid :=
        ((Expr.traced_evalPairs hV hcall scope before hvisits (by simp) hm).of_ok hbefore).2
      exact hpart (hV _ _ hp (.inside (.key before hbefore))) hmid hk
  | statement before hbefore =>
      have hvisits := (hV.visitsStatements hp).of_append
      exact ((Stmt.traced_evalAll hV hcall scope before hvisits
        (Value.traced_of_objectId? rfl) hm).of_ok hbefore).2

theorem Point.Enters.traced {p q : Point} (h : p.Enters q) (hp : V p)
    (hst : p.moment.store.Traced V) : q.moment.store.Traced V := by
  cases h with
  | @body depth scope _ callee args f _ _ _ _ _ hcallee hargs henter =>
      have hcall := Closure.traced_call hV (depth + 1)
      obtain ⟨-, h₁⟩ := (Expr.traced_eval hV hcall scope callee
        (hV _ _ hp (.inside .callee)) hst).of_ok hcallee
      obtain ⟨hvs, h₂⟩ := (Expr.traced_evalAll hV hcall scope args
        (hV.visitsArguments hp hcallee) h₁).of_ok hargs
      exact ((f.traced_enter h₂ hvs).of_ok henter).2

/-- All points that an evaluation comes to are among those given, and the stores there are
    traced. -/
theorem Point.traced_of_reaches {p q : Point} (h : ReflTransGen Point.Step p q) (hp : V p)
    (hst : p.moment.store.Traced V) : V q ∧ q.moment.store.Traced V := by
  induction h with
  | refl => exact ⟨hp, hst⟩
  | tail _ hstep ih =>
      refine ⟨hV _ _ ih.1 hstep, ?_⟩
      cases hstep with
      | inside hinside => exact hinside.traced hV ih.1 ih.2
      | enters henters => exact henters.traced hV ih.1 ih.2

/-- A value that is handled at a point is traced when this is over. -/
theorem Point.Handles.traced {p : Point} {v : Value} (h : p.Handles v) (hp : V p)
    (hst : p.moment.store.Traced V) : v.Traced V p.after := by
  obtain ⟨depth, scope, ⟨task, st⟩⟩ := p
  have hcall := Closure.traced_call hV depth
  have houtcome := Point.traced_outcome hV hp hst
  have hextends := Point.extends_after ⟨depth, scope, ⟨task, st⟩⟩
  cases h with
  | value hrun =>
      rw [Point.after_of_outcome hrun]
      exact (houtcome.of_ok hrun).1
  | returned hrun =>
      have hafter : Point.after ⟨depth, scope, ⟨task, st⟩⟩ = _ := after_of_error hrun
      rw [hafter]
      exact (houtcome.of_error hrun).1
  | boundBefore hv => exact (hst _ _ v hv).mono hextends
  | boundAfter hv => exact EndsTraced.after houtcome _ _ v hv
  | @passed callee args f _ vs _ st' htask hf hargs hv =>
      obtain rfl : task = _ := htask
      obtain ⟨hcallee, hmid⟩ := (Expr.traced_eval hV hcall scope _
        (hV _ _ hp (.inside .callee)) hst).of_ok hf
      obtain ⟨hvs, -⟩ := (Expr.traced_evalAll hV hcall scope _
        (hV.visitsArguments hp hf) hmid).of_ok hargs
      have hgrows := (Expr.grows_evalAll depth scope _).of_ok hargs
      have hafter : st'.Extends (Point.after ⟨depth, scope, .expr (.call callee args), st⟩) := by
        refine extends_bind_of_ok hf ?_
        exact extends_bind_of_ok hargs (Value.grows_apply depth f vs st')
      rcases List.mem_cons.1 hv with rfl | hv
      · exact (hcallee.mono hgrows).mono hafter
      · exact (hvs v hv).mono hafter
  | item htask hitems hv =>
      obtain rfl : task = _ := htask
      have hafter := extends_bind_of_ok hitems (stable_grows.newArray _ _)
      exact (((Expr.traced_evalAll hV hcall scope _ (hV.visitsItems hp) hst).of_ok
        hitems).1 v hv).mono hafter
  | entry htask hpairs hv =>
      obtain rfl : task = _ := htask
      have hafter := extends_bind_of_ok hpairs (stable_grows.newMap _ _)
      exact (((Expr.traced_evalPairs hV hcall scope _ (hV.visitsPairs hp) (by simp) hst).of_ok
        hpairs).1 _ hv).mono hafter

end

end ConstScript
