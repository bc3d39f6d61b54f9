import TreeWalk.Value

/-!
# Scopes

Names are bound in scopes.  A scope may lie inside another one: a name is looked up in the scope
itself, then in the scope around it, and so on outwards, while binding always happens in the scope
itself.  All scopes live on one heap, since a scope outlives the call that made it when a function
made there is still around.

A scope is made after the scope it lies in, so its number is larger; looking up a name follows
only such links and therefore ends.

## Main definitions

* `Bindings.set`, `Bindings.get?` — the bindings of one scope, in ascending byte order of names.
* `Heap.push`, `Heap.bind`, `Heap.lookup` — new scopes, binding, looking up.
* `Heap.names`, `Heap.describe` — what a scope holds.
-/

namespace TreeWalk

/-- Names and their values, in ascending byte order of the names. -/
abbrev Bindings := List (Bytes × Value)

namespace Bindings

/-- The value of `name`, or `none` if it is not bound here. -/
def get? (name : Bytes) : Bindings → Option Value
  | [] => none
  | (key, value) :: more => if key = name then some value else get? name more

/-- Binds `name` to `value`, replacing the value it has or going where the order of names puts
it. -/
def set (name : Bytes) (value : Value) : Bindings → Bindings
  | [] => [(name, value)]
  | (key, old) :: more =>
    if key = name then (name, value) :: more
    else if name < key then (name, value) :: (key, old) :: more
    else (key, old) :: set name value more

/-- The names in ascending byte order. -/
def names (bindings : Bindings) : List Bytes := bindings.map (·.1)

@[simp] theorem get?_nil (name : Bytes) : get? name [] = none := rfl

@[simp] theorem get?_set_self (name : Bytes) (value : Value) (bindings : Bindings) :
    (bindings.set name value).get? name = some value := by
  induction bindings with
  | nil => simp [set, get?]
  | cons head more ih =>
    obtain ⟨key, old⟩ := head
    rw [set]
    split
    · simp [get?]
    · split
      · simp [get?]
      · rename_i hne _
        simp [get?, hne, ih]

theorem get?_set_of_ne {name other : Bytes} (value : Value) (bindings : Bindings)
    (hne : other ≠ name) : (bindings.set name value).get? other = bindings.get? other := by
  induction bindings with
  | nil => simp [set, get?, hne.symm]
  | cons head more ih =>
    obtain ⟨key, old⟩ := head
    rw [set]
    split
    · rename_i hkey
      subst hkey
      simp [get?, hne.symm]
    · split
      · simp [get?, hne.symm]
      · simp [get?, ih]

end Bindings

/-- A scope: its own bindings, and the scope it lies in. -/
structure Scope where
  /-- The scope around this one. -/
  outer : Option ScopeId
  /-- The bindings made here. -/
  bindings : Bindings
  deriving Inhabited

/-- All scopes, by number. -/
structure Heap where
  /-- The scopes in the order in which they were made. -/
  scopes : Array Scope
  deriving Inhabited

namespace Heap

/-- A heap without scopes. -/
def empty : Heap := ⟨#[]⟩

/-- The number that the scope made by `push` gets. -/
def next (heap : Heap) : ScopeId := heap.scopes.size

/-- Makes a scope without bindings, inside the scope `outer` or on its own. -/
def push (heap : Heap) (outer : Option ScopeId) : Heap :=
  ⟨heap.scopes.push ⟨outer, []⟩⟩

/-- Binds `name` in the scope `id` with `Bindings.set`; a number of no scope changes nothing. -/
def bind (heap : Heap) (id : ScopeId) (name : Bytes) (value : Value) : Heap :=
  ⟨heap.scopes.modify id fun scope => { scope with bindings := scope.bindings.set name value }⟩

/-- The scope with the number `id`. -/
def scope? (heap : Heap) (id : ScopeId) : Option Scope := heap.scopes[id]?

/-- The number of the scope around the scope `id`. -/
def outer? (heap : Heap) (id : ScopeId) : Option ScopeId :=
  (heap.scope? id).bind (·.outer)

/-- The value of `name` in the scope `id`, or in the nearest scope around it that binds the name.
Every scope is made inside an older one, so the numbers descend on the way out. -/
def lookup (heap : Heap) (name : Bytes) (id : ScopeId) : Option Value :=
  match heap.scope? id with
  | none => none
  | some scope =>
    match scope.bindings.get? name with
    | some value => some value
    | none =>
      match scope.outer with
      | none => none
      | some outer => if outer < id then heap.lookup name outer else none
termination_by id

/-- The names bound in the scope `id` itself, in ascending byte order. -/
def names (heap : Heap) (id : ScopeId) : List Bytes :=
  ((heap.scope? id).map fun scope => scope.bindings.names).getD []

/-- The bindings of the scope `id` itself, in ascending byte order of the names. -/
def bindings (heap : Heap) (id : ScopeId) : Bindings :=
  ((heap.scope? id).map Scope.bindings).getD []

/-- The scope `id` and the scopes around it, with the names they bind. -/
def describe (heap : Heap) (id : ScopeId) : Bytes :=
  let around :=
    match heap.outer? id with
    | some outer => if outer < id then heap.describe outer else utf8 "nil"
    | none => utf8 "nil"
  utf8 "Environment:\nOuter: " ++ around ++ utf8 "\nCurrent: ["
    ++ Bytes.join (utf8 " ") (heap.names id) ++ utf8 "]\n"
termination_by id

end Heap

end TreeWalk
