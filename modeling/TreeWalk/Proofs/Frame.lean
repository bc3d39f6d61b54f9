import TreeWalk.Proofs.HeapLaws
import TreeWalk.Proofs.Invariant

/-!
# What evaluation leaves alone

Evaluation writes to the scope it takes place in and to scopes that it opens itself.  A call takes
place in a scope of its own; so it changes none of the scopes that were there before, neither the
one of the caller nor the one that the function was made in.

## Main definitions

* `Heap.Kept` — all scopes of a heap are still there, unchanged.
* `Heap.Framed` — all scopes but one are unchanged, and in that one only some names are bound anew.

## Main results

* `call_kept` — **a call changes no scope that was there before.**
* `Machine.eval_writes_own_scope` — evaluating a node changes, of all scopes that were there before,
  only the one it takes place in, and there only what the bindings in the node name.
-/

namespace TreeWalk

namespace Heap

/-- All scopes of the heap `before` are unchanged in the heap `after`. -/
structure Kept (before after : Heap) : Prop where
  /-- Scopes are never given up. -/
  next_le : before.next ≤ after.next
  /-- Every scope is unchanged. -/
  scope?_eq : ∀ id < before.next, after.scope? id = before.scope? id

theorem Kept.refl (heap : Heap) : heap.Kept heap := ⟨Nat.le_refl _, fun _ _ => rfl⟩

theorem Kept.push {before heap : Heap} (h : before.Kept heap) (outer : Option ScopeId) :
    before.Kept (heap.push outer) where
  next_le := by
    rw [next_push]
    exact Nat.le_succ_of_le h.next_le
  scope?_eq id hid := by
    rw [scope?_push_of_lt heap outer (Nat.lt_of_lt_of_le hid h.next_le)]
    exact h.scope?_eq id hid

theorem Kept.bind {before heap : Heap} (h : before.Kept heap) {id : ScopeId}
    (hid : before.next ≤ id) (name : Bytes) (value : Value) :
    before.Kept (heap.bind id name value) where
  next_le := by
    rw [next_bind]
    exact h.next_le
  scope?_eq other hother := by
    rw [scope?_bind_of_ne heap name value (Nat.ne_of_lt (Nat.lt_of_lt_of_le hother hid))]
    exact h.scope?_eq other hother

/-- Evaluation in scopes that are newer than the heap `before` keeps that heap as it is, in the
sense of `Heap.Kept`. -/
theorem kept_stable (before : Heap) :
    Stable (fun id => before.next ≤ id) (fun _ machine => before.Kept machine.heap)
      fun _ => True where
  closed := Value.closed_true
  fresh h := h.next_le
  read _ _ _ := trivial
  bind name hid _ h := h.bind hid name _
  make _ _ _ h := ⟨h, trivial⟩
  push _ h := h.push _
  opened h := h
  shut h := h

end Heap

/-- **A call changes no scope that was there before**: what its body binds it binds in scopes that
the call opens. -/
theorem call_kept (limit room : Nat) (closure : Closure) (values : List Value) (machine : Machine) :
    machine.heap.Kept (call limit room closure values machine).2.heap :=
  ((Heap.kept_stable machine.heap).call_keeps limit room 0 closure values trivial
    (fun _ _ => trivial) machine (.refl _)).1

namespace Heap

/-- Of the scopes of the heap `before` only the scope `id` is changed in the heap `after`, and in it
only what is bound to the given `names`; no name is unbound. -/
structure Framed (id : ScopeId) (names : List Bytes) (before after : Heap) : Prop where
  /-- Scopes are never given up. -/
  next_le : before.next ≤ after.next
  /-- The other scopes are unchanged. -/
  others : ∀ other < before.next, other ≠ id → after.scope? other = before.scope? other
  /-- The scope stays where it is. -/
  outer : after.outer? id = before.outer? id
  /-- A name that is bound stays bound. -/
  bound : ∀ name, (before.bindings id).get? name ≠ none → (after.bindings id).get? name ≠ none
  /-- The other names keep what they are bound to. -/
  unnamed : ∀ name ∉ names, (after.bindings id).get? name = (before.bindings id).get? name

theorem Framed.refl (id : ScopeId) (names : List Bytes) (heap : Heap) :
    Framed id names heap heap :=
  ⟨Nat.le_refl _, fun _ _ _ => rfl, rfl, fun _ h => h, fun _ _ => rfl⟩

variable {id : ScopeId} {names : List Bytes} {before heap after : Heap}

/-- The bindings of a scope after `Heap.bind` in it. -/
theorem bindings_bind (hid : id < heap.next) (name : Bytes) (value : Value) :
    (heap.bind id name value).bindings id = (heap.bindings id).set name value := by
  obtain ⟨scope, hscope⟩ : ∃ scope, heap.scope? id = some scope :=
    ⟨_, Array.getElem?_eq_getElem hid⟩
  rw [bindings, bindings, scope?_bind, if_pos rfl, hscope]
  rfl

/-- `Heap.bind` of one of the names in the scope `id` changes no more than `Framed` allows. -/
theorem Framed.bind (h : Framed id names before heap) (hid : id < before.next) {name : Bytes}
    (hname : name ∈ names) (value : Value) : Framed id names before (heap.bind id name value) := by
  -- the scope is there, so that the binding takes place
  have hbindings := bindings_bind (Nat.lt_of_lt_of_le hid h.next_le) name value
  refine ⟨?_, ?_, ?_, ?_, ?_⟩
  · rw [next_bind]
    exact h.next_le
  · intro other hother hne
    rw [scope?_bind_of_ne heap name value hne]
    exact h.others other hother hne
  · rw [outer?_bind]
    exact h.outer
  · intro key hkey
    rw [hbindings]
    exact Bindings.get?_set_ne_none value (h.bound key hkey)
  · intro key hkey
    have hne : key ≠ name := fun heq => hkey (heq ▸ hname)
    rw [hbindings, Bindings.get?_set_of_ne value _ hne]
    exact h.unnamed key hkey

/-- A step that keeps all scopes (`Heap.Kept`) changes no more than `Framed` allows. -/
theorem Framed.trans_kept (h : Framed id names before heap) (hid : id < before.next)
    (hkept : heap.Kept after) : Framed id names before after := by
  have hscope : after.scope? id = heap.scope? id :=
    hkept.scope?_eq id (Nat.lt_of_lt_of_le hid h.next_le)
  have hbindings : after.bindings id = heap.bindings id := by rw [bindings, bindings, hscope]
  refine ⟨Nat.le_trans h.next_le hkept.next_le, ?_, ?_, ?_, ?_⟩
  · intro other hother hne
    rw [hkept.scope?_eq other (Nat.lt_of_lt_of_le hother h.next_le)]
    exact h.others other hother hne
  · rw [outer?, hscope]
    exact h.outer
  · intro name hname
    rw [hbindings]
    exact h.bound name hname
  · intro name hname
    rw [hbindings]
    exact h.unnamed name hname

/-- Every step of the walk in the scope `id` changes no more than `Framed` allows, if the bindings
in the tree are of the given names: a call by `Heap.call_kept`. -/
theorem framed_keeping (hid : id < before.next) (limit room : Nat) :
    Keeping (call limit room) (· = id) (· ∈ names)
      (fun machine => Framed id names before machine.heap) fun _ => True where
  closed := Value.closed_true
  read _ _ := Keeps.get.bind fun _ _ => .pure (.value trivial)
  bind _ value hown hname _ := .modify fun _ h => hown ▸ h.bind hid hname value
  make _ _ _ := Keeps.get.bind fun _ _ =>
    (Keeps.modify fun _ h => h).bind fun _ _ => .pure trivial
  call closure values _ _ := by
    intro machine h
    -- a call keeps more than the frame: it leaves alone what is on the heap by now
    exact ⟨h.trans_kept hid (call_kept limit room closure values machine),
      fun _ _ => .value trivial⟩

end Heap

/-- **Evaluation writes to its own scope only.**  However the evaluation of a node ends, every scope
that was there before is unchanged, but for the one it takes place in; that one stays where it is,
no name in it is unbound, and the only names whose binding may differ are those of the bindings in
the node outside the bodies of functions.  A call changes no scope that was there before at all. -/
theorem Machine.eval_writes_own_scope (limit : Nat) (node : Node) {id : ScopeId} {machine : Machine}
    (hid : id < machine.heap.next) :
    let after := (machine.eval limit node id).2.heap
    (∀ other < machine.heap.next, other ≠ id →
      after.scope? other = machine.heap.scope? other) ∧
    after.outer? id = machine.heap.outer? id ∧
    (∀ name, (machine.heap.bindings id).get? name ≠ none →
      (after.bindings id).get? name ≠ none) ∧
    (∀ name ∉ node.letNames,
      (after.bindings id).get? name = (machine.heap.bindings id).get? name) ∧
    ∀ room closure values, ∀ other < machine.heap.next,
      (call limit room closure values machine).2.heap.scope? other
        = machine.heap.scope? other := by
  intro after
  have hframed : Heap.Framed id node.letNames machine.heap after :=
    (evalNode_keeps (Heap.framed_keeping hid limit (room limit)) rfl node (fun _ hname => hname)
      machine (.refl ..)).1
  exact ⟨hframed.others, hframed.outer, hframed.bound, hframed.unnamed,
    fun room closure values => (call_kept limit room closure values machine).scope?_eq⟩

/-- The binding in the body of `fn() {let x = "a"}` is no binding of the node that calls it: `x` is
as unbound behind the call as before. -/
theorem Machine.eval_writes_own_scope_called_let :
    let word : Token := default
    let body : Node := .block word [.letStmt word ⟨word, [120]⟩ (.text word [97])]
    let node : Node := .call word (.function word [] body) []
    0 < fresh.heap.next ∧ ((fresh.eval 1 node 0).2.heap.bindings 0).get? [120]
      = (fresh.heap.bindings 0).get? [120] := by
  intro word body node
  have hid : 0 < fresh.heap.next := by decide
  exact ⟨hid, (eval_writes_own_scope 1 node hid).2.2.2.1 [120] (by decide)⟩

end TreeWalk
