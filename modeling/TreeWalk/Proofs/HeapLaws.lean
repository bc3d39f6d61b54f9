import TreeWalk.Scope

/-!
# Laws of the heap

What the two ways to change a heap, opening a scope and binding a name, do to the scopes: opening
one adds it behind the others, and binding touches the bindings of one scope under one name.  What
is looked up is always held by some scope that the links lead to.

## Main definitions

* `Heap.Holds` — a scope holds a value under a name.

## Main results

* `Heap.holds_bind`, `Heap.holds_push` — what the scopes hold after a change was held before, or is
  what was bound.
* `Heap.exists_holds_of_lookup` — what is looked up is held by a scope in reach.
-/

namespace TreeWalk

namespace Bindings

/-- What `Bindings.set` leaves in the bindings is the new entry or was there before. -/
theorem mem_set {name key : Bytes} {value held : Value} {bindings : Bindings}
    (h : (key, held) ∈ bindings.set name value) :
    (key = name ∧ held = value) ∨ (key, held) ∈ bindings := by
  induction bindings with
  | nil => simpa [set] using h
  | cons head more ih =>
    obtain ⟨first, old⟩ := head
    rw [set] at h
    split at h
    · rcases List.mem_cons.mp h with h | h
      · exact .inl (Prod.mk.inj h)
      · exact .inr (List.mem_cons_of_mem _ h)
    · split at h
      · rcases List.mem_cons.mp h with h | h
        · exact .inl (Prod.mk.inj h)
        · exact .inr h
      · rcases List.mem_cons.mp h with h | h
        · exact .inr (h ▸ List.mem_cons_self)
        · exact (ih h).imp_right (List.mem_cons_of_mem _)

theorem mem_of_get? {name : Bytes} {value : Value} {bindings : Bindings}
    (h : bindings.get? name = some value) : (name, value) ∈ bindings := by
  induction bindings with
  | nil => simp at h
  | cons head more ih =>
    obtain ⟨key, held⟩ := head
    rw [get?] at h
    split at h
    · next hkey =>
      rw [hkey, Option.some.inj h]
      exact List.mem_cons_self
    · exact List.mem_cons_of_mem _ (ih h)

/-- A name that is bound stays bound when `Bindings.set` binds the same name or another one. -/
theorem get?_set_ne_none {name other : Bytes} (value : Value) {bindings : Bindings}
    (h : bindings.get? other ≠ none) : (bindings.set name value).get? other ≠ none := by
  by_cases hname : other = name
  · rw [hname, get?_set_self]
    exact Option.some_ne_none value
  · rwa [get?_set_of_ne value bindings hname]

end Bindings

namespace Heap

variable (heap : Heap) (outer : Option ScopeId) (name : Bytes) (value : Value)

@[simp] theorem next_push : (heap.push outer).next = heap.next + 1 := by
  simp [next, push]

@[simp] theorem next_bind (id : ScopeId) : (heap.bind id name value).next = heap.next := by
  simp [next, bind]

theorem scope?_eq_none {id : ScopeId} (h : heap.next ≤ id) : heap.scope? id = none := by
  rw [scope?]
  exact Array.getElem?_eq_none h

theorem lt_next_of_scope? {heap : Heap} {id : ScopeId} {scope : Scope}
    (h : heap.scope? id = some scope) : id < heap.next := by
  rcases Nat.lt_or_ge id heap.next with hlt | hge
  · exact hlt
  · rw [scope?_eq_none heap hge] at h
    exact nomatch h

/-- `Heap.push` puts a scope without bindings at `heap.next` and leaves the others as they are. -/
theorem scope?_push (id : ScopeId) :
    (heap.push outer).scope? id = if id = heap.next then some ⟨outer, []⟩ else heap.scope? id := by
  exact Array.getElem?_push

theorem scope?_push_of_lt {id : ScopeId} (h : id < heap.next) :
    (heap.push outer).scope? id = heap.scope? id := by
  rw [scope?_push, if_neg (Nat.ne_of_lt h)]

/-- `Heap.bind` sets a name in the bindings of the scope `id`, if there is one, and leaves the other
scopes as they are. -/
theorem scope?_bind (id other : ScopeId) :
    (heap.bind id name value).scope? other =
      if other = id then
        (heap.scope? id).map fun scope =>
          { scope with bindings := scope.bindings.set name value }
      else heap.scope? other := by
  simp only [scope?, bind]
  rw [Array.getElem?_modify]
  by_cases h : other = id
  · rw [if_pos h, if_pos h.symm, h]
  · rw [if_neg h, if_neg fun hid => h hid.symm]

theorem scope?_bind_of_ne {id other : ScopeId} (h : other ≠ id) :
    (heap.bind id name value).scope? other = heap.scope? other := by
  rw [scope?_bind, if_neg h]

/-- `Heap.bind` does not change in which scope a scope lies. -/
@[simp] theorem outer?_bind (id other : ScopeId) :
    (heap.bind id name value).outer? other = heap.outer? other := by
  rw [outer?, outer?, scope?_bind]
  split
  · next h =>
    rw [h]
    cases heap.scope? id <;> rfl
  · rfl

theorem outer?_push (id : ScopeId) :
    (heap.push outer).outer? id = if id = heap.next then outer else heap.outer? id := by
  rw [outer?, outer?, scope?_push]
  split <;> rfl

/-! ### What scopes hold -/

/-- The scope `id` has the entry `(name, value)` among its bindings, whether or not `Heap.lookup`
would find it there. -/
def Holds (heap : Heap) (id : ScopeId) (name : Bytes) (value : Value) : Prop :=
  ∃ scope, heap.scope? id = some scope ∧ (name, value) ∈ scope.bindings

variable {heap} {outer} {name} {value}

/-- After `Heap.bind` a scope holds what it held before, and besides that only the scope `id` holds
what was bound. -/
theorem holds_bind {id other : ScopeId} {key : Bytes} {held : Value}
    (h : (heap.bind id name value).Holds other key held) :
    (other = id ∧ key = name ∧ held = value) ∨ heap.Holds other key held := by
  obtain ⟨scope, hscope, hmem⟩ := h
  rw [scope?_bind] at hscope
  split at hscope
  · next hid =>
    obtain ⟨before, hbefore, rfl⟩ := Option.map_eq_some_iff.mp hscope
    rcases Bindings.mem_set hmem with ⟨hkey, hheld⟩ | hmem
    · exact .inl ⟨hid, hkey, hheld⟩
    · exact .inr ⟨before, hid ▸ hbefore, hmem⟩
  · exact .inr ⟨scope, hscope, hmem⟩

/-- The scope that `Heap.push` opens holds nothing. -/
theorem holds_push {id : ScopeId} {key : Bytes} {held : Value}
    (h : (heap.push outer).Holds id key held) : heap.Holds id key held := by
  obtain ⟨scope, hscope, hmem⟩ := h
  rw [scope?_push] at hscope
  split at hscope
  · obtain rfl := Option.some.inj hscope
    exact absurd hmem List.not_mem_nil
  · exact ⟨scope, hscope, hmem⟩

/-- What `Heap.lookup` finds from the scope `id` is held by some scope to which the links lead.
That scope is in every set `S` that has `id` in it and contains with a scope the one around it. -/
theorem exists_holds_of_lookup {S : ScopeId → Prop}
    (hS : ∀ id outer, S id → heap.outer? id = some outer → S outer) {id : ScopeId} (hid : S id)
    (h : heap.lookup name id = some value) : ∃ other, S other ∧ heap.Holds other name value := by
  fun_induction heap.lookup name id with
  | case1 id hscope => exact nomatch h
  | case2 id scope hscope held hheld =>
    rw [← Option.some.inj h]
    exact ⟨id, hid, scope, hscope, Bindings.mem_of_get? hheld⟩
  | case3 id scope hscope hnone hout => exact nomatch h
  | case4 id scope hscope hnone outer hout hlt ih =>
    -- the search goes on in the scope around, which is in the set, too
    have houter : heap.outer? id = some outer := by rw [outer?, hscope, Option.bind_some, hout]
    exact ih (hS id outer hid houter) h
  | case5 id scope hscope hnone outer hout hlt => exact nomatch h

end Heap

end TreeWalk
