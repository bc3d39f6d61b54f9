import Mathlib.Logic.Relation
import TreeWalk.Proofs.Frame

/-!
# Scopes over whole histories

Scopes are made, on their own or inside others, and names are set in them, in any order.  What a
scope says of a name is settled by the history alone: of the scope itself and those around it, the
nearest one counts in which the name was ever set, and there the latest value.

The history is kept apart from the heap.  It tells in which scope each scope was made, and lists
everything that was set, the newest first; that the heap answers accordingly is proved by induction
on the history.

## Main definitions

* `History` — what was done to scopes; it speaks of scopes that exist only.
* `History.heap` — the scopes that come of it.
* `History.sets`, `History.latest` — what was set, and what was set last.
* `History.Chain` — a scope with those around it.

## Main results

* `History.get?_bindings` — a scope holds what was set last in it.
* `History.lookup_eq_findSome?` — **the nearest scope in which a name was set counts.**
* `History.scopes_nest` — links end, look-up follows them, and the names of a scope are listed in
  order.
-/

namespace TreeWalk

/-! ### The bindings of one scope -/

namespace Bindings

/-- A name is in `names` exactly if `get?` finds a value for it. -/
theorem mem_names_iff {name : Bytes} {bindings : Bindings} :
    name ∈ bindings.names ↔ bindings.get? name ≠ none := by
  induction bindings with
  | nil => simp [names]
  | cons head more ih =>
    obtain ⟨key, value⟩ := head
    have hnames : names ((key, value) :: more) = key :: names more := rfl
    rw [hnames, List.mem_cons, ih, get?]
    by_cases hkey : key = name
    · simp [hkey]
    · simp [hkey, Ne.symm hkey]

/-- `set` lists the name, and keeps the others. -/
theorem mem_names_set {name other : Bytes} {value : Value} {bindings : Bindings} :
    other ∈ (bindings.set name value).names ↔ other = name ∨ other ∈ bindings.names := by
  rw [mem_names_iff, mem_names_iff]
  by_cases hname : other = name
  · simp [hname]
  · simp [get?_set_of_ne value bindings hname, hname]

/-- `set` keeps the names in ascending order, by induction on `bindings`. -/
theorem names_set_ascending {name : Bytes} {value : Value} {bindings : Bindings}
    (h : bindings.names.Pairwise (· < ·)) : (bindings.set name value).names.Pairwise (· < ·) := by
  induction bindings with
  | nil => exact List.pairwise_singleton _ name
  | cons head more ih =>
    obtain ⟨key, old⟩ := head
    have hnames : names ((key, old) :: more) = key :: names more := rfl
    rw [hnames, List.pairwise_cons] at h
    obtain ⟨hfirst, hmore⟩ := h
    rw [set]
    split
    · next hkey =>
      -- the value is replaced, and the names stay as they are
      subst hkey
      exact List.pairwise_cons.2 ⟨hfirst, hmore⟩
    · next hne =>
      split
      · next hlt =>
        refine List.pairwise_cons.2 ⟨fun other hother => ?_, List.pairwise_cons.2 ⟨hfirst, hmore⟩⟩
        rcases List.mem_cons.1 hother with rfl | hother
        · exact hlt
        · exact List.lt_trans hlt (hfirst other hother)
      · next hnlt =>
        have hlt : key < name := (List.le_iff_lt_or_eq.1 hnlt).resolve_right hne
        refine List.pairwise_cons.2 ⟨fun other hother => ?_, ih hmore⟩
        rcases mem_names_set.1 hother with rfl | hother
        · exact hlt
        · exact hfirst other hother

end Bindings

namespace Heap

variable (heap : Heap) (outer : Option ScopeId) (name : Bytes) (value : Value)

theorem names_eq (id : ScopeId) : heap.names id = (heap.bindings id).names := by
  rw [names, bindings]
  cases heap.scope? id <;> rfl

/-- A scope that `push` makes holds nothing, and the others hold what they did. -/
theorem bindings_push (id : ScopeId) :
    (heap.push outer).bindings id = if id = heap.next then [] else heap.bindings id := by
  rw [bindings, bindings, scope?_push]
  split <;> rfl

theorem bindings_bind_of_ne {id other : ScopeId} (h : other ≠ id) :
    (heap.bind id name value).bindings other = heap.bindings other := by
  rw [bindings, bindings, scope?_bind_of_ne heap name value h]

/-- Where links lead to earlier scopes only, `lookup` goes on outwards until a scope binds the name
or there is none around. -/
theorem lookup_eq {heap : Heap} (h : ∀ id outer, heap.outer? id = some outer → outer < id)
    (name : Bytes) (id : ScopeId) :
    heap.lookup name id =
      ((heap.bindings id).get? name).or ((heap.outer? id).bind (heap.lookup name)) := by
  cases hscope : heap.scope? id with
  | none =>
    have hbindings : heap.bindings id = [] := by rw [bindings, hscope]; rfl
    have houter : heap.outer? id = none := by rw [outer?, hscope]; rfl
    rw [lookup, hscope, hbindings, houter]
    rfl
  | some scope =>
    have hbindings : heap.bindings id = scope.bindings := by rw [bindings, hscope]; rfl
    have houter : heap.outer? id = scope.outer := by rw [outer?, hscope]; rfl
    rw [lookup, hscope, hbindings, houter]
    cases hvalue : scope.bindings.get? name with
    | some value => simp [hvalue]
    | none =>
      cases hout : scope.outer with
      | none => simp [hvalue, hout]
      | some outer => simp [hvalue, hout, h id outer (houter.trans hout)]

end Heap

/-! ### Histories -/

/-- What was done to scopes until there were `count` of them.  A scope is made inside one that
exists, and names are set in scopes that exist. -/
inductive History : Nat → Type
  /-- Nothing was done. -/
  | start : History 0
  /-- A scope was made, inside another one or on its own. -/
  | make {count : Nat} (before : History count) (outer : Option (Fin count)) : History (count + 1)
  /-- A name was set in a scope. -/
  | set {count : Nat} (before : History count) (id : Fin count) (name : Bytes) (value : Value) :
      History count

namespace History

/-- The heap that comes of a history, by `Heap.push` and `Heap.bind`. -/
def heap {count : Nat} : History count → Heap
  | start => .empty
  | make before outer => before.heap.push (outer.map Fin.val)
  | set before id name value => before.heap.bind id name value

/-- The scope in which a scope was made, according to the history alone. -/
def outer? {count : Nat} : History count → ScopeId → Option ScopeId
  | start, _ => none
  | @make count before outer, id => if id = count then outer.map Fin.val else before.outer? id
  | set before _ _ _, id => before.outer? id

/-- All that was set, with the scope and the name, the newest first. -/
def sets {count : Nat} : History count → List (ScopeId × Bytes × Value)
  | start => []
  | make before _ => before.sets
  | set before id name value => (id, name, value) :: before.sets

/-- The `name` was ever set in the scope `id`. -/
def Sets {count : Nat} (history : History count) (id : ScopeId) (name : Bytes) : Prop :=
  ∃ value, (id, name, value) ∈ history.sets

/-- The value to which `name` was set last in the scope `id`, according to the history alone. -/
def latest {count : Nat} (history : History count) (name : Bytes) (id : ScopeId) : Option Value :=
  history.sets.findSome? fun (scope, key, value) =>
    if scope = id ∧ key = name then some value else none

/-- A scope with those around it, from the inside out. -/
inductive Chain {count : Nat} (history : History count) : ScopeId → List ScopeId → Prop
  /-- A scope that was made on its own. -/
  | outermost {id : ScopeId} (h : history.outer? id = none) : Chain history id [id]
  /-- A scope that was made inside another one. -/
  | inner {id outer : ScopeId} {chain : List ScopeId} (h : history.outer? id = some outer)
      (hchain : Chain history outer chain) : Chain history id (id :: chain)

variable {count : Nat} (history : History count)

@[simp] theorem next_heap : history.heap.next = count := by
  induction history with
  | start => rfl
  | make before outer ih => simp [heap, ih]
  | set before id name value ih => simp [heap, ih]

/-! ### Links -/

/-- The links of `history.heap` are as the scopes were made. -/
theorem outer?_heap (id : ScopeId) : history.heap.outer? id = history.outer? id := by
  induction history with
  | start => rfl
  | make before outer ih => rw [heap, Heap.outer?_push, next_heap, outer?, ih]
  | set before _ name value ih => rw [heap, Heap.outer?_bind, outer?, ih]

variable {history}

/-- A scope is made after the one it lies in, which has a smaller number. -/
theorem outer_lt {id outer : ScopeId} (h : history.outer? id = some outer) : outer < id := by
  induction history with
  | start => cases h
  | make before around ih =>
    rw [outer?] at h
    split at h
    · next hid =>
      obtain ⟨scope, -, rfl⟩ := Option.map_eq_some_iff.1 h
      exact hid ▸ scope.isLt
    · exact ih h
  | set before _ name value ih => exact ih h

/-- Links lead outwards step by step to earlier scopes, so no number of links leads from a scope
back to it. -/
theorem outer_lt_of_transGen {id outer : ScopeId}
    (h : Relation.TransGen (fun id outer => history.heap.outer? id = some outer) id outer) :
    outer < id := by
  induction h with
  | single h => exact outer_lt ((history.outer?_heap _).symm.trans h)
  | tail _ h ih => exact Nat.lt_trans (outer_lt ((history.outer?_heap _).symm.trans h)) ih

variable (history)

/-- Outwards from every scope there is an end: it has a `Chain`. -/
theorem exists_chain (id : ScopeId) : ∃ chain, history.Chain id chain := by
  induction id using Nat.strongRecOn with
  | ind id ih =>
    cases houter : history.outer? id with
    | none => exact ⟨_, .outermost houter⟩
    | some outer =>
      obtain ⟨chain, hchain⟩ := ih outer (outer_lt houter)
      exact ⟨_, .inner houter hchain⟩

/-! ### Values -/

variable {history}

/-- Names are set in scopes that exist, of which there are `count`. -/
theorem Sets.lt {id : ScopeId} {name : Bytes} (h : history.Sets id name) : id < count := by
  obtain ⟨value, hmem⟩ := h
  induction history with
  | start => cases hmem
  | make before outer ih => exact Nat.lt_succ_of_lt (ih hmem)
  | set before scope key held ih =>
    rcases List.mem_cons.1 hmem with heq | hmem
    · obtain ⟨rfl, -⟩ := Prod.mk.inj heq
      exact scope.isLt
    · exact ih hmem

/-- There is no `latest` value exactly if the name was never set. -/
theorem latest_eq_none_iff {id : ScopeId} {name : Bytes} :
    history.latest name id = none ↔ ¬ history.Sets id name := by
  rw [latest, List.findSome?_eq_none_iff]
  constructor
  · rintro hnone ⟨value, hmem⟩
    simpa using hnone (id, name, value) hmem
  · rintro hsets ⟨scope, key, value⟩ hmem
    refine if_neg ?_
    rintro ⟨rfl, rfl⟩
    exact hsets ⟨value, hmem⟩

theorem latest_set (before : History count) (scope : Fin count) (key : Bytes) (value : Value)
    (name : Bytes) (id : ScopeId) :
    (before.set scope key value).latest name id =
      if (scope : ScopeId) = id ∧ key = name then some value else before.latest name id := by
  rw [latest, sets, List.findSome?_cons, latest]
  split <;> simp_all

variable (history)

/-- **A scope holds what was set last in it**, by induction on the history. -/
theorem get?_bindings (name : Bytes) (id : ScopeId) :
    (history.heap.bindings id).get? name = history.latest name id := by
  induction history with
  | start => rfl
  | make before outer ih =>
    rw [heap, Heap.bindings_push, next_heap]
    split
    · next hid =>
      -- nothing can have been set in a scope that was not there
      exact (latest_eq_none_iff.2 fun hsets => Nat.ne_of_lt (Sets.lt hsets) hid).symm
    · exact ih
  | set before scope key value ih =>
    rw [heap, latest_set]
    by_cases hid : id = scope
    · subst hid
      rw [Heap.bindings_bind (by simp)]
      by_cases hname : name = key
      · simp [hname]
      · rw [Bindings.get?_set_of_ne _ _ hname, ih, if_neg fun h => hname h.2.symm]
    · rw [Heap.bindings_bind_of_ne _ _ _ hid, ih, if_neg fun h => hid h.1.symm]

/-- `Heap.lookup_eq` for the heap of a history, whose links lead to earlier scopes by `outer_lt`. -/
theorem lookup_heap (name : Bytes) (id : ScopeId) :
    history.heap.lookup name id = ((history.heap.bindings id).get? name).or
      ((history.heap.outer? id).bind (history.heap.lookup name)) :=
  Heap.lookup_eq (fun _ _ h => outer_lt ((history.outer?_heap _).symm.trans h)) name id

variable {history}

/-- **The nearest scope in which a name was set counts**, and there the `latest` value: by induction
on the `Chain`. -/
theorem lookup_eq_findSome? {id : ScopeId} {chain : List ScopeId} (h : history.Chain id chain)
    (name : Bytes) : history.heap.lookup name id = chain.findSome? (history.latest name) := by
  induction h with
  | outermost h =>
    rw [lookup_heap, get?_bindings, outer?_heap, h, List.findSome?_singleton]
    exact Option.or_none
  | inner h hchain ih =>
    rw [lookup_heap, get?_bindings, outer?_heap, h, Option.bind_some, ih, List.findSome?_cons]
    cases history.latest name _ <;> rfl

variable (history)

/-- The `names` of a scope are in ascending order, since `set` keeps them so. -/
theorem names_ascending (id : ScopeId) : (history.heap.bindings id).names.Pairwise (· < ·) := by
  induction history with
  | start => exact .nil
  | make before outer ih =>
    rw [heap, Heap.bindings_push]
    split
    · exact .nil
    · exact ih
  | set before scope key value ih =>
    rw [heap]
    by_cases hid : id = scope
    · subst hid
      rw [Heap.bindings_bind (by simp)]
      exact Bindings.names_set_ascending ih
    · rwa [Heap.bindings_bind_of_ne _ _ _ hid]

/-- **Scopes nest.**  Whatever was done to scopes, in whatever order: each one lies in the scope it
was made in, no links lead from a scope back to it, and outwards there is an end.  Looking a name up
in a scope goes on outwards until a scope binds the name.  It finds a value exactly if this is the
latest one that the name was set to in the nearest scope, of the scope itself and those around it,
in which it was ever set; and it finds none exactly if the name was set in none of them.  The names
of a scope are listed in strictly ascending byte order, and are those that were ever set in the
scope itself. -/
theorem scopes_nest :
    (∀ id, history.heap.outer? id = history.outer? id) ∧
    (∀ id, ¬ Relation.TransGen (fun id outer => history.heap.outer? id = some outer) id id) ∧
    (∀ name id, history.heap.lookup name id = ((history.heap.bindings id).get? name).or
      ((history.heap.outer? id).bind (history.heap.lookup name))) ∧
    (∀ id, ∃ chain, history.Chain id chain ∧ ∀ name,
      (∀ value, history.heap.lookup name id = some value ↔
        ∃ nearer scope farther, chain = nearer ++ scope :: farther ∧
          (∀ other ∈ nearer, ¬ history.Sets other name) ∧
          history.latest name scope = some value) ∧
      (history.heap.lookup name id = none ↔ ∀ scope ∈ chain, ¬ history.Sets scope name)) ∧
    ∀ id, (history.heap.names id).Pairwise (· < ·) ∧
      ∀ name, name ∈ history.heap.names id ↔ history.Sets id name := by
  refine ⟨history.outer?_heap, fun id h => Nat.lt_irrefl id (outer_lt_of_transGen h),
    history.lookup_heap, ?_, ?_⟩
  · intro id
    obtain ⟨chain, hchain⟩ := history.exists_chain id
    refine ⟨chain, hchain, fun name => ⟨fun value => ?_, ?_⟩⟩
    · simp only [lookup_eq_findSome? hchain, List.findSome?_eq_some_iff, latest_eq_none_iff]
      grind
    · simp only [lookup_eq_findSome? hchain, List.findSome?_eq_none_iff, latest_eq_none_iff]
  · intro id
    rw [Heap.names_eq]
    refine ⟨history.names_ascending id, fun name => ?_⟩
    rw [Bindings.mem_names_iff, get?_bindings, ne_eq, latest_eq_none_iff, Classical.not_not]

end History

end TreeWalk
