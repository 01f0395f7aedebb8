import ConstScript.Proofs.Scope.Matching
import Mathlib.Data.List.Induction

set_option autoImplicit false

/-! # Histories of environments

An environment is used through handles: a handle stands for a scope, and several handles can stand
for the same one. A *history* is a list of operations on handles. What a handle answers depends on
everything that was done before it, with any handle.

The history alone says what that is, without a store. It determines for each handle the scopes of
its chain (`chains`), and which definitions have succeeded on which scope (`DefinedAt`). The store
agrees with the history after every operation (`linkedBy`, `getOwn?_run`), so all answers can be
read off it (`WriteOnce`). -/

namespace ConstScript.Environment

/-! ## Handles and what is done with them -/

/-- What can be done with environments. A handle is the number of those given out before it. -/
inductive Operation where
  /-- Gives out a handle to a new scope that no other encloses. -/
  | new
  /-- Gives out a handle to a new scope inside that of a handle. -/
  | enclosed (handle : Nat)
  /-- Gives out another handle to the scope of a handle. -/
  | clone (handle : Nat)
  /-- Binds a name. -/
  | define (handle : Nat) (name : String) (v : Value)
  /-- Looks a name up. -/
  | get (handle : Nat) (name : String)

/-- The handle that an operation is about, unless it is about none. -/
def Operation.handle? : Operation → Option Nat
  | new => none
  | enclosed h | clone h | define h _ _ | get h _ => some h

/-- What an operation comes to. -/
inductive Answer where
  /-- A handle was given out. -/
  | handle
  | defined
  | refused (e : RuntimeError)
  | found (value : Option Value)
  /-- The operation is about a handle that was not given out. -/
  | unknown

/-- The scopes of all handles that were given out, in order, and the store. -/
structure Client where
  handles : List ScopeId
  store : Store

namespace Client

/-- Gives out a handle to a scope of a store. -/
def give (c : Client) (made : ScopeId × Store) : Client := ⟨c.handles ++ [made.1], made.2⟩

/-- Does something with the scope of a handle. -/
def on (c : Client) (h : Nat) (act : ScopeId → Client × Answer) : Client × Answer :=
  match c.handles[h]? with
  | some scope => act scope
  | none => (c, .unknown)

/-- Does one operation. -/
def step (c : Client) : Operation → Client × Answer
  | .new => (c.give (c.store.openScope none), .handle)
  | .enclosed h => c.on h fun scope => (c.give (c.store.openScope (some scope)), .handle)
  | .clone h => c.on h fun scope => (c.give (scope, c.store), .handle)
  | .define h name v => c.on h fun scope =>
    match c.store.define scope name v with
    | .ok st => ({ c with store := st }, .defined)
    | .error e => (c, .refused e)
  | .get h name => c.on h fun scope => (c, .found (c.store.lookup scope name))

end Client

/-- Does the operations of a history, one after another. -/
def run (ops : List Operation) : Client :=
  ops.foldl (fun c op => (c.step op).1) ⟨[], .empty⟩

/-- What an operation comes to after a history. -/
def answer (ops : List Operation) (op : Operation) : Answer := ((run ops).step op).2

/-! ## What the history says -/

/-- How many scopes were made, and for each handle the scopes of its chain from the inside out. A
    scope is the number of those made before it. -/
structure Chains where
  scopes : Nat
  ofHandles : List (List ScopeId)

/-- The chains after one more operation. -/
def Chains.after (cs : Chains) : Operation → Chains
  | .new => ⟨cs.scopes + 1, cs.ofHandles ++ [[cs.scopes]]⟩
  | .enclosed h =>
    match cs.ofHandles[h]? with
    | some chain => ⟨cs.scopes + 1, cs.ofHandles ++ [cs.scopes :: chain]⟩
    | none => cs
  | .clone h =>
    match cs.ofHandles[h]? with
    | some chain => { cs with ofHandles := cs.ofHandles ++ [chain] }
    | none => cs
  | .define .. | .get .. => cs

/-- The chains of all handles that a history gives out. -/
def chains (ops : List Operation) : Chains := ops.foldl Chains.after ⟨0, []⟩

/-- The chain of a handle, if a history gives it out. -/
def chainOf (ops : List Operation) (h : Nat) : Option (List ScopeId) := (chains ops).ofHandles[h]?

/-- The operation with the number `n` defines the name with success, on a handle of the scope. -/
def DefinedAt (ops : List Operation) (n : Nat) (scope : ScopeId) (name : String) (v : Value) :
    Prop :=
  ∃ h outer, ops[n]? = some (.define h name v) ∧ chainOf (ops.take n) h = some (scope :: outer) ∧
    answer (ops.take n) (.define h name v) = .defined

/-- Some operation of the history has defined the name with success, on a handle of the scope. -/
def IsDefined (ops : List Operation) (scope : ScopeId) (name : String) : Prop :=
  ∃ n v, DefinedAt ops n scope name v

variable {ops : List Operation} {h h' n n' : Nat} {scope : ScopeId} {chain outer : List ScopeId}
  {name : String} {v w : Value}

theorem run_concat (ops : List Operation) (op : Operation) :
    run (ops ++ [op]) = ((run ops).step op).1 := by
  rw [run, List.foldl_append, ← run, List.foldl_cons, List.foldl_nil]

theorem chains_concat (ops : List Operation) (op : Operation) :
    chains (ops ++ [op]) = (chains ops).after op := by
  rw [chains, List.foldl_append, ← chains, List.foldl_cons, List.foldl_nil]

/-- A history has defined what it had defined before its last operation, and what this defines. -/
theorem definedAt_concat (ops : List Operation) (op : Operation) (n : Nat) (scope : ScopeId)
    (name : String) (v : Value) :
    DefinedAt (ops ++ [op]) n scope name v ↔ DefinedAt ops n scope name v ∨
      n = ops.length ∧ ∃ h outer, op = .define h name v ∧ chainOf ops h = some (scope :: outer) ∧
        answer ops op = .defined := by
  -- The number is that of an earlier operation, of the last one, or of none.
  rcases Nat.lt_trichotomy n ops.length with hn | rfl | hn
  · rw [DefinedAt, List.getElem?_append_left hn, List.take_append_of_le_length (Nat.le_of_lt hn),
      ← DefinedAt]
    simp [Nat.ne_of_lt hn]
  · have hold : ¬ DefinedAt ops ops.length scope name v := by simp [DefinedAt]
    have hnew : (ops ++ [op])[ops.length]? = some op := by simp
    rw [DefinedAt, hnew, List.take_left]
    simp only [hold, false_or, true_and, Option.some.injEq]
    constructor
    · rintro ⟨h, outer, rfl, hchain, hanswer⟩
      exact ⟨h, outer, rfl, hchain, hanswer⟩
    · rintro ⟨h, outer, rfl, hchain, hanswer⟩
      exact ⟨h, outer, rfl, hchain, hanswer⟩
  · have hold : ops[n]? = none := List.getElem?_eq_none (Nat.le_of_lt hn)
    have hnew : (ops ++ [op])[n]? = none := by simpa using Nat.succ_le_of_lt hn
    simp [DefinedAt, hold, hnew, Nat.ne_of_gt hn]

/-! ## Chains in a store -/

/-- The scopes of a store lead from one to the next and are not inside any other in the end. -/
inductive Linked (st : Store) : List ScopeId → Prop
  | last {id : ScopeId} {s : Scope} : st.scopes[id]? = some s → s.outer = none → Linked st [id]
  | cons {id o : ScopeId} {s : Scope} {outer : List ScopeId} : st.scopes[id]? = some s →
      s.outer = some o → o < id → Linked st (o :: outer) → Linked st (id :: o :: outer)

variable {st st' : Store}

theorem Linked.lt_size (hl : Linked st (scope :: outer)) : scope < st.scopes.size := by
  cases hl with
  | last hs _ | cons hs _ _ _ => exact (Array.getElem?_eq_some_iff.1 hs).1

theorem Linked.mono (hl : Linked st chain) (h : ∀ (id : ScopeId) (s : Scope),
    st.scopes[id]? = some s → ∃ s', st'.scopes[id]? = some s' ∧ s'.outer = s.outer) :
    Linked st' chain := by
  induction hl with
  | last hs ho =>
      obtain ⟨s', hs', ho'⟩ := h _ _ hs
      exact .last hs' (ho'.trans ho)
  | cons hs ho hlt _ ih =>
      obtain ⟨s', hs', ho'⟩ := h _ _ hs
      exact .cons hs' (ho'.trans ho) hlt ih

/-- A name has the value that the first scope of the chain that binds it binds it to. -/
theorem Linked.lookup_eq (hl : Linked st (scope :: outer)) (name : String) :
    st.lookup scope name = (scope :: outer).findSome? fun id => st.getOwn? id name := by
  generalize hchain : scope :: outer = chain at hl
  induction hl generalizing scope outer with
  | last hs ho =>
      obtain ⟨rfl, rfl⟩ := List.cons.inj hchain
      rw [List.findSome?_cons, Store.getOwn?_of_getElem? hs,
        Store.lookup_of_getElem? hs (by simp [ho]), ho]
      cases Scope.get? _ name <;> rfl
  | cons hs ho hlt _ ih =>
      obtain ⟨rfl, rfl⟩ := List.cons.inj hchain
      rw [List.findSome?_cons, Store.getOwn?_of_getElem? hs,
        Store.lookup_of_getElem? hs (by simpa [ho] using hlt), ho, Option.bind_some, ih rfl]
      cases Scope.get? _ name <;> rfl

/-- A handle stands for a scope, and each scope was made before those inside it. -/
theorem Linked.pairwise (hl : Linked st chain) : chain ≠ [] ∧ chain.Pairwise (· > ·) := by
  refine ⟨by cases hl <;> simp, ?_⟩
  induction hl with
  | last _ _ => exact List.pairwise_singleton _ _
  | @cons id o _ outer _ _ hlt _ ih =>
      refine List.pairwise_cons.2 ⟨fun p hp => ?_, ih⟩
      rcases List.mem_cons.1 hp with rfl | hp
      · exact hlt
      · exact Nat.lt_trans (List.rel_of_pairwise_cons ih hp) hlt

/-! ## One operation -/

/-- All that one operation can do. -/
inductive Client.Steps (c : Client) : Operation → Client → Answer → Prop
  | new : Steps c .new (c.give (c.store.openScope none)) .handle
  | enclosed {h : Nat} {scope : ScopeId} : c.handles[h]? = some scope →
      Steps c (.enclosed h) (c.give (c.store.openScope (some scope))) .handle
  | clone {h : Nat} {scope : ScopeId} : c.handles[h]? = some scope →
      Steps c (.clone h) (c.give (scope, c.store)) .handle
  | defined {h : Nat} {scope : ScopeId} {name : String} (v : Value) :
      c.handles[h]? = some scope → ¬ c.store.binds scope name →
      Steps c (.define h name v) { c with store := c.store.addBinding scope name v } .defined
  | refused {h : Nat} {scope : ScopeId} {name : String} (v : Value) :
      c.handles[h]? = some scope → c.store.binds scope name →
      Steps c (.define h name v) c (.refused (.alreadyDeclared name))
  | get {h : Nat} {scope : ScopeId} (name : String) : c.handles[h]? = some scope →
      Steps c (.get h name) c (.found (c.store.lookup scope name))
  | unknown {op : Operation} {h : Nat} : op.handle? = some h → c.handles[h]? = none →
      Steps c op c .unknown

theorem Client.steps (c : Client) (op : Operation) : c.Steps op (c.step op).1 (c.step op).2 := by
  cases hhandle : op.handle? with
  | none =>
      cases op with
      | new => exact .new
      | _ => exact absurd hhandle (by simp [Operation.handle?])
  | some h =>
      cases hscope : c.handles[h]? with
      | none =>
          have hstep : c.step op = (c, .unknown) := by
            cases op <;> simp_all [Operation.handle?, step, on]
          rw [hstep]
          exact .unknown hhandle hscope
      | some scope =>
          cases op with
          | new => exact absurd hhandle (by simp [Operation.handle?])
          | define h' name v =>
              obtain rfl := Option.some.inj hhandle
              rw [step, on, hscope]
              by_cases hbinds : c.store.binds scope name
              · simpa [Store.define, hbinds] using Steps.refused v hscope hbinds
              · simpa [Store.define, hbinds] using Steps.defined v hscope hbinds
          | _ =>
              obtain rfl := Option.some.inj hhandle
              rw [step, on, hscope]
              constructor
              exact hscope

namespace Client.Steps

variable {c c' : Client} {op : Operation} {a : Answer}

/-- No operation removes a scope or puts it into another one. -/
theorem keeps_outer (hsteps : c.Steps op c' a) (id : ScopeId) (s : Scope)
    (hs : c.store.scopes[id]? = some s) :
    ∃ s', c'.store.scopes[id]? = some s' ∧ s'.outer = s.outer := by
  cases hsteps with
  | new | enclosed => exact ⟨s, (Store.openScope_spec c.store _).1 id s hs, rfl⟩
  | defined v _ hbinds => exact (Store.addBinding_footprint v hbinds).outer id s hs
  | clone | refused | get | unknown => exact ⟨s, hs, rfl⟩

/-- No operation changes what a handle stands for. -/
theorem handle_eq (hsteps : c.Steps op c' a) (hh : c.handles[h]? = some scope) :
    c'.handles[h]? = some scope := by
  have hlt : h < c.handles.length := (List.getElem?_eq_some_iff.1 hh).1
  cases hsteps with
  | new | enclosed | clone => rwa [give, List.getElem?_append_left hlt]
  | defined | refused | get | unknown => exact hh

end Client.Steps

/-! ## The store agrees with the history -/

/-- The scopes and handles are those that a history says. -/
structure Client.LinkedBy (c : Client) (cs : Chains) : Prop where
  scopes : c.store.scopes.size = cs.scopes
  handles : c.handles.map some = cs.ofHandles.map List.head?
  linked : ∀ chain ∈ cs.ofHandles, Linked c.store chain

namespace Client.LinkedBy

variable {c c' : Client} {cs : Chains} {op : Operation} {a : Answer}

theorem head?_chain (hl : c.LinkedBy cs) (h : Nat) :
    c.handles[h]?.map some = cs.ofHandles[h]?.map List.head? := by
  simpa using congrArg (fun l => l[h]?) hl.handles

theorem chain_eq_none (hl : c.LinkedBy cs) (hh : c.handles[h]? = none) :
    cs.ofHandles[h]? = none := by
  have hhead := hl.head?_chain h
  rw [hh] at hhead
  exact Option.map_eq_none_iff.1 hhead.symm

theorem exists_chain (hl : c.LinkedBy cs) (hh : c.handles[h]? = some scope) :
    ∃ outer, cs.ofHandles[h]? = some (scope :: outer) := by
  have hhead := hl.head?_chain h
  rw [hh] at hhead
  obtain ⟨chain, hchain, hhead⟩ := Option.map_eq_some_iff.1 hhead.symm
  obtain ⟨outer, rfl⟩ := List.head?_eq_some_iff.1 hhead
  exact ⟨outer, hchain⟩

theorem handle_eq (hl : c.LinkedBy cs) (hh : cs.ofHandles[h]? = some (scope :: outer)) :
    c.handles[h]? = some scope := by
  have hhead := hl.head?_chain h
  rw [hh] at hhead
  obtain ⟨id, hid, hhead⟩ := Option.map_eq_some_iff.1 hhead
  rw [hid, Option.some.inj hhead]

/-- A handle is given out to a scope that leads outwards. -/
theorem give (hl : c.LinkedBy cs) (made : ScopeId × Store)
    (hold : ∀ chain ∈ cs.ofHandles, Linked made.2 chain) (hnew : Linked made.2 (made.1 :: outer)) :
    (c.give made).LinkedBy ⟨made.2.scopes.size, cs.ofHandles ++ [made.1 :: outer]⟩ where
  scopes := rfl
  handles := by simp [Client.give, hl.handles]
  linked := List.forall_mem_append.2 ⟨hold, List.forall_mem_singleton.2 hnew⟩

/-- One operation makes the scopes and handles that the history says. -/
theorem step (hl : c.LinkedBy cs) (hsteps : c.Steps op c' a) : c'.LinkedBy (cs.after op) := by
  have hold : ∀ chain ∈ cs.ofHandles, Linked c'.store chain :=
    fun chain hchain => (hl.linked chain hchain).mono hsteps.keeps_outer
  have hfirst : ∀ o, (c.store.openScope o).1 = cs.scopes := fun _ => hl.scopes
  have hsize : ∀ o, (c.store.openScope o).2.scopes.size = cs.scopes + 1 := by
    simp [Store.openScope, hl.scopes]
  cases hsteps with
  | new =>
      have hnew := hl.give _ hold (.last (Store.getElem?_openScope_self c.store none) rfl)
      simpa [Chains.after, hfirst, hsize] using hnew
  | @enclosed h scope hh =>
      obtain ⟨outer, hchain⟩ := hl.exists_chain hh
      have hmem := List.mem_of_getElem? hchain
      have hself := Store.getElem?_openScope_self c.store (some scope)
      have hnew := hl.give _ hold (.cons hself rfl (hl.linked _ hmem).lt_size (hold _ hmem))
      simpa [Chains.after, hchain, hfirst, hsize] using hnew
  | @clone h scope hh =>
      obtain ⟨outer, hchain⟩ := hl.exists_chain hh
      have hmem := List.mem_of_getElem? hchain
      have hnew := hl.give (scope, c.store) hold (hold _ hmem)
      simpa [Chains.after, hchain, hl.scopes] using hnew
  | defined => exact ⟨by simpa [Store.addBinding, Chains.after] using hl.scopes, hl.handles, hold⟩
  | refused | get => exact hl
  | unknown hhandle hh =>
      have hafter : cs.after op = cs := by
        cases op <;> simp_all [Operation.handle?, Chains.after, hl.chain_eq_none hh]
      rwa [hafter]

/-- One operation binds what it defines with success. -/
theorem getOwn?_iff (hl : c.LinkedBy cs) (hsteps : c.Steps op c' a) (scope : ScopeId)
    (name : String) (v : Value) :
    c'.store.getOwn? scope name = some v ↔ c.store.getOwn? scope name = some v ∨
      ∃ h outer, op = .define h name v ∧ cs.ofHandles[h]? = some (scope :: outer) ∧
        a = .defined := by
  cases hsteps with
  | new | enclosed => simp [Client.give, Store.getOwn?_openScope]
  | clone | refused | get | unknown => simp [Client.give]
  | @defined h id name' w hh hbinds =>
      obtain ⟨outer, hchain⟩ := hl.exists_chain hh
      have hlt := (hl.linked _ (List.mem_of_getElem? hchain)).lt_size
      rw [Store.getOwn?_addBinding hlt]
      -- The scope did not bind the name before, so its only binding of it is the new one.
      by_cases hsame : id = scope ∧ name = name'
      · obtain ⟨rfl, rfl⟩ := hsame
        have hnone : c.store.getOwn? id name = none := by simpa [Store.binds] using hbinds
        rw [if_pos ⟨rfl, rfl⟩, hnone]
        constructor
        · intro hv
          obtain rfl := Option.some.inj hv
          exact .inr ⟨h, outer, rfl, hchain, rfl⟩
        · rintro (hv | ⟨_, _, hop, -, -⟩)
          · exact absurd hv (by simp)
          · cases hop
            rfl
      · rw [if_neg hsame]
        refine ⟨.inl, ?_⟩
        rintro (hv | ⟨_, _, hop, hchain', -⟩)
        · exact hv
        · cases hop
          obtain ⟨rfl, -⟩ := List.cons.inj (Option.some.inj (hchain.symm.trans hchain'))
          exact absurd ⟨rfl, rfl⟩ hsame

end Client.LinkedBy

theorem linkedBy (ops : List Operation) : (run ops).LinkedBy (chains ops) := by
  induction ops using List.reverseRecOn with
  | nil => exact ⟨rfl, rfl, by simp [chains]⟩
  | append_singleton ops op ih =>
      rw [run_concat, chains_concat]
      exact ih.step ((run ops).steps op)

theorem handle_of_chainOf (hchain : chainOf ops h = some (scope :: outer)) :
    (run ops).handles[h]? = some scope :=
  (linkedBy ops).handle_eq hchain

theorem linked_chainOf (hchain : chainOf ops h = some chain) : Linked (run ops).store chain :=
  (linkedBy ops).linked chain (List.mem_of_getElem? hchain)

/-- A scope binds what was defined on it with success. -/
theorem getOwn?_run (ops : List Operation) (scope : ScopeId) (name : String) (v : Value) :
    (run ops).store.getOwn? scope name = some v ↔ ∃ n, DefinedAt ops n scope name v := by
  induction ops using List.reverseRecOn with
  | nil => simp [run, Store.empty, Store.getOwn?, DefinedAt]
  | append_singleton ops op ih =>
      rw [run_concat, (linkedBy ops).getOwn?_iff ((run ops).steps op), ih]
      simp [definedAt_concat, exists_or, chainOf, answer]

theorem binds_run (ops : List Operation) (scope : ScopeId) (name : String) :
    (run ops).store.binds scope name ↔ IsDefined ops scope name := by
  rw [Store.binds, Option.isSome_iff_exists, IsDefined, exists_comm]
  exact exists_congr fun v => getOwn?_run ops scope name v

/-! ## What handles answer -/

/-- A define of a name that is defined on the scope is refused, and changes nothing. -/
theorem step_define_of_isDefined (hchain : chainOf ops h = some (scope :: outer))
    (hname : IsDefined ops scope name) (v : Value) :
    (run ops).step (.define h name v) = (run ops, .refused (.alreadyDeclared name)) := by
  rw [Client.step, Client.on, handle_of_chainOf hchain]
  simp [Store.define, (binds_run ops scope name).2 hname]

theorem answer_define_of_not_isDefined (hchain : chainOf ops h = some (scope :: outer))
    (hname : ¬ IsDefined ops scope name) (v : Value) :
    answer ops (.define h name v) = .defined := by
  have hbinds : ¬ (run ops).store.binds scope name := fun hb => hname ((binds_run _ _ _).1 hb)
  rw [answer, Client.step, Client.on, handle_of_chainOf hchain]
  simp [Store.define, hbinds]

/-- A name is looked up along the chain. -/
theorem answer_get (hchain : chainOf ops h = some chain) (name : String) :
    answer ops (.get h name)
      = .found (chain.findSome? fun scope => (run ops).store.getOwn? scope name) := by
  have hlinked := linked_chainOf hchain
  obtain ⟨scope, outer, rfl⟩ := List.exists_cons_of_ne_nil hlinked.pairwise.1
  rw [answer, Client.step, Client.on, handle_of_chainOf hchain, ← hlinked.lookup_eq]

theorem DefinedAt.take {m : Nat} (hv : DefinedAt ops n scope name v) (hm : n < m) :
    DefinedAt (ops.take m) n scope name v := by
  rw [DefinedAt, List.getElem?_take_of_lt hm, List.take_take, Nat.min_eq_left (Nat.le_of_lt hm)]
  exact hv

/-- After a define that succeeds, no other one of the name does so on the scope. -/
theorem DefinedAt.not_lt (hv : DefinedAt ops n scope name v) (hw : DefinedAt ops n' scope name w) :
    ¬ n < n' := by
  intro hlt
  obtain ⟨h, outer, -, hchain, hanswer⟩ := hw
  have hrefused := step_define_of_isDefined hchain ⟨n, v, hv.take hlt⟩ w
  rw [answer, hrefused] at hanswer
  exact absurd hanswer (by simp)

/-- At most one operation defines a name on a scope. -/
theorem DefinedAt.unique (hv : DefinedAt ops n scope name v) (hw : DefinedAt ops n' scope name w) :
    n = n' ∧ v = w := by
  obtain rfl : n = n' := Nat.le_antisymm (Nat.not_lt.1 (hw.not_lt hv)) (Nat.not_lt.1 (hv.not_lt hw))
  obtain ⟨h, outer, hv, -⟩ := hv
  obtain ⟨h', outer', hw, -⟩ := hw
  cases hv.symm.trans hw
  exact ⟨rfl, rfl⟩

/-! ### Clones -/

/-- The handle, or another one in place of `h`. -/
def redirect (h h' : Nat) (handle : Nat) : Nat := if handle = h then h' else handle

/-- The operation, with another handle in place of `h`. -/
def Operation.redirect (h h' : Nat) : Operation → Operation
  | new => new
  | enclosed k => enclosed (Environment.redirect h h' k)
  | clone k => clone (Environment.redirect h h' k)
  | define k name v => define (Environment.redirect h h' k) name v
  | get k name => get (Environment.redirect h h' k) name

/-- Two handles that stand for the same scope do the same. -/
theorem Client.step_redirect {c : Client} (hsame : c.handles[h]? = c.handles[h']?)
    (op : Operation) : c.step (op.redirect h h') = c.step op := by
  have hon : ∀ k act, c.on (redirect h h' k) act = c.on k act := by
    intro k act
    have hhandle : c.handles[redirect h h' k]? = c.handles[k]? := by
      unfold redirect
      split
      · next heq => rw [heq, hsame]
      · rfl
    rw [on, hhandle, ← on]
  cases op with
  | new => rfl
  | _ => exact hon _ _

/-- Two handles that stand for the same scope go on doing the same. -/
theorem run_redirect (hh : (run ops).handles[h]? = some scope)
    (hh' : (run ops).handles[h']? = some scope) (more : List Operation) :
    run (ops ++ more.map (Operation.redirect h h')) = run (ops ++ more) ∧
      (run (ops ++ more)).handles[h]? = some scope ∧
      (run (ops ++ more)).handles[h']? = some scope := by
  induction more using List.reverseRecOn with
  | nil => simp [hh, hh']
  | append_singleton more op ih =>
      obtain ⟨hrun, hmore, hmore'⟩ := ih
      have hsteps := (run (ops ++ more)).steps op
      rw [List.map_append, ← List.append_assoc, ← List.append_assoc, List.map_singleton, run_concat,
        run_concat, hrun, Client.step_redirect (hmore.trans hmore'.symm)]
      exact ⟨rfl, hsteps.handle_eq hmore, hsteps.handle_eq hmore'⟩

/-! ### Everything that a history says -/

theorem getOwn?_run_eq_none_iff (ops : List Operation) (scope : ScopeId) (name : String) :
    (run ops).store.getOwn? scope name = none ↔ ¬ IsDefined ops scope name := by
  rw [← binds_run, Store.binds, Bool.not_eq_true, Option.isSome_eq_false_iff,
    Option.isNone_iff_eq_none]

/-- The value of a name is the one that was defined on the innermost scope of the chain on which one
    was. -/
theorem answer_get_eq_some_iff (hchain : chainOf ops h = some chain) (name : String) (v : Value) :
    answer ops (.get h name) = .found (some v) ↔ ∃ inner scope outer n,
      chain = inner ++ scope :: outer ∧ (∀ id ∈ inner, ¬ IsDefined ops id name) ∧
        DefinedAt ops n scope name v := by
  rw [answer_get hchain, Answer.found.injEq, List.findSome?_eq_some_iff]
  simp only [getOwn?_run, getOwn?_run_eq_none_iff]
  constructor
  · rintro ⟨inner, scope, outer, hsplit, ⟨n, hv⟩, hinner⟩
    exact ⟨inner, scope, outer, n, hsplit, hinner, hv⟩
  · rintro ⟨inner, scope, outer, n, hsplit, hinner, hv⟩
    exact ⟨inner, scope, outer, hsplit, ⟨n, hv⟩, hinner⟩

theorem answer_get_eq_none_iff (hchain : chainOf ops h = some chain) (name : String) :
    answer ops (.get h name) = .found none ↔ ∀ id ∈ chain, ¬ IsDefined ops id name := by
  rw [answer_get hchain, Answer.found.injEq, List.findSome?_eq_none_iff]
  simp only [getOwn?_run_eq_none_iff]

theorem chainOf_concat_define (ops : List Operation) (h : Nat) (name : String) (v : Value)
    (h' : Nat) : chainOf (ops ++ [.define h name v]) h' = chainOf ops h' := by
  rw [chainOf, chains_concat, Chains.after, ← chainOf]

/-- A definition is not one on any other scope. -/
theorem getOwn?_concat_define (hchain : chainOf ops h = some (scope :: outer)) {id : ScopeId}
    (hne : id ≠ scope) (name : String) (v : Value) (name' : String) :
    (run (ops ++ [.define h name v])).store.getOwn? id name'
      = (run ops).store.getOwn? id name' := by
  refine Option.ext fun w => ?_
  rw [run_concat, (linkedBy ops).getOwn?_iff ((run ops).steps _)]
  refine or_iff_left ?_
  rintro ⟨_, _, hop, hchain', -⟩
  cases hop
  exact hne (List.cons.inj (Option.some.inj (hchain'.symm.trans hchain))).1

/-- A definition is seen through the scopes inside that have none of the name. -/
theorem answer_get_inside {inner : List ScopeId} (hchain : chainOf ops h = some (scope :: outer))
    (hdefined : answer ops (.define h name v) = .defined)
    (hinside : chainOf ops h' = some (inner ++ scope :: outer))
    (hinner : ∀ id ∈ inner, ¬ IsDefined ops id name) :
    answer (ops ++ [.define h name v]) (.get h' name) = .found (some v) := by
  have hpairwise := (linked_chainOf hinside).pairwise.2
  rw [← chainOf_concat_define ops h name v] at hinside
  refine (answer_get_eq_some_iff hinside name v).2
    ⟨inner, scope, outer, ops.length, rfl, fun id hid => ?_, ?_⟩
  · -- The scopes inside are younger, so the definition is on none of them.
    have hlt : scope < id := (List.pairwise_append.1 hpairwise).2.2 id hid scope List.mem_cons_self
    rw [← getOwn?_run_eq_none_iff, getOwn?_concat_define hchain (Nat.ne_of_gt hlt),
      getOwn?_run_eq_none_iff]
    exact hinner id hid
  · exact (definedAt_concat _ _ _ _ _ _).2 (.inr ⟨rfl, h, outer, rfl, hchain, hdefined⟩)

/-- A definition is not seen outside. -/
theorem answer_get_outside (hchain : chainOf ops h = some (scope :: outer))
    (houtside : chainOf ops h' = some chain) (hscope : scope ∉ chain) (name : String) (v : Value)
    (name' : String) :
    answer (ops ++ [.define h name v]) (.get h' name') = answer ops (.get h' name') := by
  have hsame : ∀ id ∈ chain, (run (ops ++ [.define h name v])).store.getOwn? id name'
      = (run ops).store.getOwn? id name' := by
    intro id hid
    refine getOwn?_concat_define hchain ?_ name v name'
    rintro rfl
    exact hscope hid
  have houtside' := houtside
  rw [← chainOf_concat_define ops h name v] at houtside'
  rw [answer_get houtside', answer_get houtside, ← List.head?_filterMap, List.filterMap_congr hsame,
    List.head?_filterMap]

/-- What a history says about all that can be done after it. -/
structure WriteOnce (ops : List Operation) : Prop where
  /-- A handle stands for a scope, and the scopes around it were made before it. -/
  nested : ∀ {h chain}, chainOf ops h = some chain → chain ≠ [] ∧ chain.Pairwise (· > ·)
  /-- A define is refused, and changes nothing, if an earlier one of the name has succeeded on a
      handle of the same scope, and only then. -/
  refused : ∀ {h scope outer}, chainOf ops h = some (scope :: outer) → ∀ name v,
    (run ops).step (.define h name v) = (run ops, .refused (.alreadyDeclared name)) ↔
      IsDefined ops scope name
  /-- Otherwise it succeeds. -/
  defined : ∀ {h scope outer}, chainOf ops h = some (scope :: outer) → ∀ name v,
    answer ops (.define h name v) = .defined ↔ ¬ IsDefined ops scope name
  /-- On one scope, one define of a name has succeeded at most. -/
  unique : ∀ {n n' scope name v w}, DefinedAt ops n scope name v → DefinedAt ops n' scope name w →
    n = n' ∧ v = w
  /-- The value of a name is the one that was defined with success on the innermost scope of the
      chain on which one was. -/
  found : ∀ {h chain}, chainOf ops h = some chain → ∀ name v,
    answer ops (.get h name) = .found (some v) ↔ ∃ inner scope outer n,
      chain = inner ++ scope :: outer ∧ (∀ id ∈ inner, ¬ IsDefined ops id name) ∧
        DefinedAt ops n scope name v
  /-- There is none if none was defined on any scope of the chain. -/
  missing : ∀ {h chain}, chainOf ops h = some chain → ∀ name,
    answer ops (.get h name) = .found none ↔ ∀ id ∈ chain, ¬ IsDefined ops id name
  /-- What is defined on a scope is seen from every scope inside it, unless one between them has a
      definition of its own. -/
  visible : ∀ {h h' scope inner outer name v}, chainOf ops h = some (scope :: outer) →
    answer ops (.define h name v) = .defined → chainOf ops h' = some (inner ++ scope :: outer) →
    (∀ id ∈ inner, ¬ IsDefined ops id name) →
    answer (ops ++ [.define h name v]) (.get h' name) = .found (some v)
  /-- It is not seen from a scope that does not lie inside it. -/
  hidden : ∀ {h h' scope outer chain}, chainOf ops h = some (scope :: outer) →
    chainOf ops h' = some chain → scope ∉ chain → ∀ name v name',
    answer (ops ++ [.define h name v]) (.get h' name') = answer ops (.get h' name')
  /-- Handles with the same chain cannot be told apart: one can take the place of the other in
      everything that is done from then on. -/
  clones : ∀ {h h' chain}, chainOf ops h = some chain → chainOf ops h' = some chain →
    ∀ more op, run (ops ++ more.map (Operation.redirect h h')) = run (ops ++ more) ∧
      answer (ops ++ more.map (Operation.redirect h h')) (op.redirect h h')
        = answer (ops ++ more) op

/-- **Environments are write-once chains of scopes.** Whatever was done with whichever handles, all
    that can be done next is answered by the history alone. -/
theorem run_writeOnce (ops : List Operation) : WriteOnce ops where
  nested hchain := (linked_chainOf hchain).pairwise
  refused hchain name v := by
    refine ⟨fun hrefused => ?_, fun hname => step_define_of_isDefined hchain hname v⟩
    by_contra hname
    have hdefined := answer_define_of_not_isDefined hchain hname v
    rw [answer, hrefused] at hdefined
    exact absurd hdefined (by simp)
  defined hchain name v := by
    refine ⟨fun hdefined hname => ?_, fun hname => answer_define_of_not_isDefined hchain hname v⟩
    rw [answer, step_define_of_isDefined hchain hname] at hdefined
    exact absurd hdefined (by simp)
  unique hv hw := hv.unique hw
  found hchain := answer_get_eq_some_iff hchain
  missing hchain := answer_get_eq_none_iff hchain
  visible hchain hdefined hinside hinner := answer_get_inside hchain hdefined hinside hinner
  hidden hchain houtside hscope := answer_get_outside hchain houtside hscope
  clones hchain hchain' more op := by
    obtain ⟨scope, outer, rfl⟩ := List.exists_cons_of_ne_nil (linked_chainOf hchain).pairwise.1
    obtain ⟨hrun, hmore, hmore'⟩ :=
      run_redirect (handle_of_chainOf hchain) (handle_of_chainOf hchain') more
    refine ⟨hrun, ?_⟩
    rw [answer, hrun, Client.step_redirect (hmore.trans hmore'.symm), ← answer]

example :
    let ops : List Operation := [.new, .enclosed 0, .define 1 "y" .null, .define 0 "x" (.bool true)]
    answer ops (.get 1 "x") = .found (some (.bool true)) ∧ answer ops (.get 0 "y") = .found none :=
  ⟨by cbv, by cbv⟩

end ConstScript.Environment
