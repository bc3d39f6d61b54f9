import TreeWalk.Proofs.Lockstep

/-!
# A call cannot observe its caller

What a call does depends on the function, on the arguments, and on the scopes that can be reached
from them: through the links between scopes, and through functions that reachable scopes hold.  Two
heaps that agree on these scopes are the same to the call, whatever else the caller has bound.

While the call runs it opens scopes and makes functions, so that the scopes within its reach grow.
They stay within a set that does not change: the scopes that could be reached before, and all that
are newer than the call.

## Main definitions

* `Value.LeadsTo`, `Heap.InReach` — the scopes that can be reached from some values.
* `Heap.AgreeOn` — two heaps that are the same as far as some values reach.
* `SameWithin` — two machines that are the same within a set of scopes which leads nowhere else.

## Main results

* `SameWithin.lockstep` — every step of evaluation stays within such a set.
* `call_blind_to_caller` — **a call does the same on two heaps that agree on what it can reach.**
-/

namespace TreeWalk

/-! ### Reachable scopes -/

/-- A value is, or carries as a `pending` return, a function that was made in the given scope. -/
inductive Value.LeadsTo : Value → ScopeId → Prop
  /-- A function made in the scope. -/
  | function {closure : Closure} {id : ScopeId} (h : closure.scope = some id) :
      LeadsTo (.function closure) id
  /-- A pending return. -/
  | pending {value : Value} {id : ScopeId} (h : value.LeadsTo id) : LeadsTo (.pending value) id

/-- `EachFunction` in terms of `LeadsTo`: the functions in `value` were made in scopes of `S`
exactly if `value` leads to no scope outside `S`. -/
theorem Value.eachFunction_iff {S : ScopeId → Prop} {value : Value} :
    value.EachFunction (fun closure => ∀ id ∈ closure.scope, S id) ↔
      ∀ id, value.LeadsTo id → S id := by
  induction value with
  | function closure =>
    refine ⟨fun h id hid => ?_, fun h id hid => h id (.function hid)⟩
    cases hid with
    | function hscope => exact h id hscope
  | pending value ih =>
    refine ih.trans ⟨fun h id hid => ?_, fun h id hid => h id (.pending hid)⟩
    cases hid with
    | pending hid => exact h id hid
  | _ => exact ⟨fun _ id hid => (nomatch hid), fun _ => trivial⟩

namespace Heap

/-- The scopes that can be reached from the values `roots`: those that functions were made in, the
scopes around reachable ones, and the scopes that functions which reachable ones hold were made
in. -/
inductive InReach (heap : Heap) (roots : List Value) : ScopeId → Prop
  /-- The scope that one of the values was made in. -/
  | root {value : Value} {id : ScopeId} (hvalue : value ∈ roots) (h : value.LeadsTo id) :
      InReach heap roots id
  /-- The scope around a scope. -/
  | outer {id outer : ScopeId} (hid : InReach heap roots id) (h : heap.outer? id = some outer) :
      InReach heap roots outer
  /-- The scope that a value in a scope was made in. -/
  | held {id other : ScopeId} {name : Bytes} {value : Value} (hid : InReach heap roots id)
      (hheld : heap.Holds id name value) (h : value.LeadsTo other) : InReach heap roots other

/-- Two heaps have the same scopes in the same places, and the scopes that are `InReach` of `roots`
hold the same. -/
structure AgreeOn (roots : List Value) (heap other : Heap) : Prop where
  /-- Equally many scopes. -/
  next_eq : heap.next = other.next
  /-- In the same places. -/
  outer?_eq : ∀ id, heap.outer? id = other.outer? id
  /-- Reachable scopes are the same. -/
  scope?_eq : ∀ id, heap.InReach roots id → heap.scope? id = other.scope? id

/-- The set `S` of scopes leads nowhere else: neither the links of its scopes nor the functions in
them. -/
structure Encloses (heap : Heap) (S : ScopeId → Prop) : Prop where
  /-- Not through the links between scopes. -/
  outer : ∀ id outer, S id → heap.outer? id = some outer → S outer
  /-- Not through what the scopes hold. -/
  held : ∀ id name value other, S id → heap.Holds id name value → value.LeadsTo other → S other

/-- What is `InReach` of values that lead into such a set is in it. -/
theorem Encloses.of_inReach {heap : Heap} {S : ScopeId → Prop} (h : heap.Encloses S)
    {roots : List Value} (hroots : ∀ value ∈ roots, ∀ id, value.LeadsTo id → S id) {id : ScopeId}
    (hid : heap.InReach roots id) : S id := by
  induction hid with
  | root hvalue hleads => exact hroots _ hvalue _ hleads
  | outer _ houter ih => exact h.outer _ _ ih houter
  | held _ hheld hleads ih => exact h.held _ _ _ _ ih hheld hleads

/-- The scopes that are `InReach` of `roots` lead nowhere else, and neither do numbers from
`heap.next` on, which are of no scope yet. -/
theorem encloses_inReach (heap : Heap) (roots : List Value) :
    heap.Encloses fun id => heap.InReach roots id ∨ heap.next ≤ id where
  outer id outer hid houter := by
    rcases hid with hid | hnew
    · exact .inl (.outer hid houter)
    · rw [outer?, scope?_eq_none heap hnew] at houter
      exact absurd houter (by simp)
  held id name value other hid hheld hleads := by
    rcases hid with hid | hnew
    · exact .inl (.held hid hheld hleads)
    · obtain ⟨scope, hscope, -⟩ := hheld
      rw [scope?_eq_none heap hnew] at hscope
      exact absurd hscope (by simp)

/-- Two heaps that are the same within a set `S` that leads nowhere else have the same `lookup`
there. -/
theorem lookup_congr {heap other : Heap} {S : ScopeId → Prop} (h : heap.Encloses S)
    (hsame : ∀ id, S id → heap.scope? id = other.scope? id) (name : Bytes) {id : ScopeId}
    (hid : S id) : heap.lookup name id = other.lookup name id := by
  fun_induction heap.lookup name id with
  | case1 id hscope => rw [lookup, ← hsame id hid, hscope]
  | case2 id scope hscope value hvalue =>
    rw [lookup, ← hsame id hid, hscope]
    simp only [hvalue]
  | case3 id scope hscope hnone hout =>
    rw [lookup, ← hsame id hid, hscope]
    simp only [hnone, hout]
  | case4 id scope hscope hnone outer hout hlt ih =>
    have houter : heap.outer? id = some outer := by rw [outer?, hscope, Option.bind_some, hout]
    rw [ih (h.outer id outer hid houter), lookup.eq_1 other name id, ← hsame id hid, hscope]
    simp only [hnone, hout, if_pos hlt]
  | case5 id scope hscope hnone outer hout hlt =>
    rw [lookup, ← hsame id hid, hscope]
    simp only [hnone, hout, if_neg hlt]

end Heap

/-! ### Staying within reach -/

/-- Two machines that are the same within a set `S` of scopes which leads nowhere else, and in
everything but what the other scopes hold. -/
structure SameWithin (S : ScopeId → Prop) (machine twin : Machine) : Prop where
  /-- The same stamp is next. -/
  stamps : machine.stamps = twin.stamps
  /-- Equally many calls are open. -/
  depth : machine.depth = twin.depth
  /-- There are equally many scopes. -/
  next : machine.heap.next = twin.heap.next
  /-- The scopes to come are within the set. -/
  fresh : ∀ id, machine.heap.next ≤ id → S id
  /-- The scopes lie in the same places. -/
  outer : ∀ id, machine.heap.outer? id = twin.heap.outer? id
  /-- The scopes within the set are the same. -/
  scope : ∀ id, S id → machine.heap.scope? id = twin.heap.scope? id
  /-- The set leads nowhere else. -/
  closed : machine.heap.Encloses S

namespace SameWithin

variable {S : ScopeId → Prop} {machine twin : Machine}

theorem bind (h : SameWithin S machine twin) {id : ScopeId} (hid : S id) (name : Bytes)
    {value : Value} (hvalue : ∀ other, value.LeadsTo other → S other) :
    SameWithin S { machine with heap := machine.heap.bind id name value }
      { twin with heap := twin.heap.bind id name value } where
  stamps := h.stamps
  depth := h.depth
  next := by
    rw [Heap.next_bind, Heap.next_bind]
    exact h.next
  fresh other hother := h.fresh other (by rwa [Heap.next_bind] at hother)
  outer other := by
    rw [Heap.outer?_bind, Heap.outer?_bind]
    exact h.outer other
  scope other hother := by
    rw [Heap.scope?_bind, Heap.scope?_bind, h.scope id hid, h.scope other hother]
  closed := by
    refine ⟨fun inner outer hinner houter => ?_, fun inner key held other hinner hheld hleads => ?_⟩
    -- binding a name changes no links; what the scope then holds leads into the set
    · rw [Heap.outer?_bind] at houter
      exact h.closed.outer inner outer hinner houter
    · rcases Heap.holds_bind hheld with ⟨-, -, rfl⟩ | hheld
      · exact hvalue other hleads
      · exact h.closed.held inner key held other hinner hheld hleads

theorem push (h : SameWithin S machine twin) {outer : Option ScopeId}
    (houter : ∀ id ∈ outer, S id) :
    SameWithin S { machine with heap := machine.heap.push outer }
      { twin with heap := twin.heap.push outer } where
  stamps := h.stamps
  depth := h.depth
  next := by
    rw [Heap.next_push, Heap.next_push, h.next]
  fresh id hid := by
    rw [Heap.next_push] at hid
    exact h.fresh id (Nat.le_of_succ_le hid)
  outer id := by
    rw [Heap.outer?_push, Heap.outer?_push, h.next, h.outer id]
  scope id hid := by
    rw [Heap.scope?_push, Heap.scope?_push, h.next, h.scope id hid]
  closed := by
    refine ⟨fun inner around hinner haround => ?_,
      fun inner key held other hinner hheld hleads => ?_⟩
    -- the new scope lies in one of the set, and holds nothing
    · rw [Heap.outer?_push] at haround
      split at haround
      · exact houter around haround
      · exact h.closed.outer inner around hinner haround
    · exact h.closed.held inner key held other hinner (Heap.holds_push hheld) hleads

/-- What both machines `lookup` within the set is the same, and leads nowhere else. -/
theorem lookup (h : SameWithin S machine twin) (name : Bytes) {id : ScopeId} (hid : S id) :
    machine.heap.lookup name id = twin.heap.lookup name id ∧
      ∀ value ∈ machine.heap.lookup name id, ∀ other, value.LeadsTo other → S other := by
  refine ⟨Heap.lookup_congr h.closed h.scope name hid, fun value hvalue other hleads => ?_⟩
  -- the links lead from the scope to one within the set that holds the value
  obtain ⟨holder, hholder, hheld⟩ := Heap.exists_holds_of_lookup h.closed.outer hid hvalue
  exact h.closed.held holder name value other hholder hheld hleads

end SameWithin

/-- **Evaluation within a set of scopes that leads nowhere else stays within it**, and what is
outside makes no difference: `SameWithin S` is kept, as a `Lockstep`. -/
theorem SameWithin.lockstep (S : ScopeId → Prop) : Lockstep True S Eq
    (fun closure twin => closure = twin ∧ ∀ id ∈ closure.scope, S id) (SameWithin S) where
  layer := Node.layer_eq
  stamp h := by rw [h.1]
  params h := by rw [h.1]
  body h := ⟨by rw [h.1], .inl trivial⟩
  depth h := h.depth
  next h := ⟨h.next, h.fresh _ (Nat.le_refl _)⟩
  read {machine twin id} name hid h := by
    obtain ⟨hsame, hleads⟩ := h.lookup name hid
    rw [← hsame]
    cases hvalue : machine.heap.lookup name id with
    | none => exact .none
    | some value =>
      have heach := Value.eachFunction_iff.mpr (hleads value hvalue)
      exact .some (Value.Linked.same_iff.mpr ⟨rfl, heach⟩)
  bind name hid hvalue h := by
    obtain ⟨rfl, hleads⟩ := Value.Linked.same_iff.mp hvalue
    exact h.bind hid name (Value.eachFunction_iff.mp hleads)
  make {machine twin id token token' params params' body body'} hnode hid h := by
    obtain ⟨-, rfl, rfl⟩ := Node.function.inj hnode
    refine ⟨⟨congrArg (· + 1) h.stamps, h.depth, h.next, h.fresh, h.outer, h.scope, h.closed⟩,
      by rw [h.stamps], fun other hother => ?_⟩
    exact Option.some.inj hother ▸ hid
  push hclosure h := by
    obtain ⟨rfl, hscope⟩ := hclosure
    exact h.push hscope
  opened h :=
    ⟨h.stamps, congrArg (· + 1) h.depth, h.next, h.fresh, h.outer, h.scope, h.closed⟩
  shut h :=
    ⟨h.stamps, congrArg (· - 1) h.depth, h.next, h.fresh, h.outer, h.scope, h.closed⟩

/-- Two heaps that `AgreeOn` some `roots` are `SameWithin` the scopes that these can reach and those
that are still to come. -/
theorem Heap.AgreeOn.sameWithin {machine : Machine} {other : Heap} {roots : List Value}
    (h : AgreeOn roots machine.heap other) :
    SameWithin (fun id => machine.heap.InReach roots id ∨ machine.heap.next ≤ id) machine
      { machine with heap := other } where
  stamps := rfl
  depth := rfl
  next := h.next_eq
  fresh _ hid := .inr hid
  outer := h.outer?_eq
  scope id hid := by
    rcases hid with hid | hnew
    · exact h.scope?_eq id hid
    · rw [scope?_eq_none machine.heap hnew, scope?_eq_none other (h.next_eq ▸ hnew)]
  closed := machine.heap.encloses_inReach roots

/-! ### Calls -/

namespace SameWithin

variable {S : ScopeId → Prop} {machine twin : Machine}

/-- Values that lead into the set reach scopes that are the same, so the heaps `AgreeOn` them. -/
theorem agreeOn (h : SameWithin S machine twin) {roots : List Value}
    (hroots : ∀ value ∈ roots, ∀ id, value.LeadsTo id → S id) :
    Heap.AgreeOn roots machine.heap twin.heap where
  next_eq := h.next
  outer?_eq := h.outer
  scope?_eq id hid := h.scope id (h.closed.of_inReach hroots hid)

/-- A call of a function that leads into the set, with arguments that do, too: it ends the same way
on both machines, and leaves them `SameWithin` the set. -/
theorem call (h : SameWithin S machine twin) (limit room : Nat) {closure : Closure}
    {values : List Value}
    (hroots : ∀ value ∈ .function closure :: values, ∀ id, value.LeadsTo id → S id) :
    let result := TreeWalk.call limit room closure values machine
    let result' := TreeWalk.call limit room closure values twin
    result.1 = result'.1 ∧ (∀ value ∈ result.1.toOption, ∀ id, value.LeadsTo id → S id) ∧
      SameWithin S result.2 result'.2 := by
  obtain ⟨hclosure, hvalues⟩ := List.forall_mem_cons.mp hroots
  have hlinked := List.forall₂_same.mpr fun value hvalue =>
    Value.Linked.same_iff.mpr ⟨rfl, Value.eachFunction_iff.mpr (hvalues value hvalue)⟩
  obtain ⟨hafter, hend⟩ := (lockstep S).call_coupled limit room closure closure values values
    (.function ⟨rfl, Value.eachFunction_iff.mpr hclosure⟩) hlinked machine twin h
  intro result result'
  change EndAlike True _ result.1 result'.1 at hend
  generalize result.1 = ending at hend
  generalize result'.1 = ending' at hend
  cases hend with
  | ok hresult =>
    obtain ⟨rfl, hleads⟩ := Value.Linked.same_iff.mp hresult
    refine ⟨rfl, fun value hvalue => ?_, hafter⟩
    rw [← Option.some.inj hvalue]
    exact Value.eachFunction_iff.mp hleads
  | error reason => exact ⟨rfl, fun value hvalue => (nomatch hvalue), hafter⟩

end SameWithin

/-- **A call cannot observe its caller.**  On two heaps that have the same scopes in the same
places, and agree on all scopes that can be reached from the function and the arguments, a call ends
the same way, opens the same scopes with the same contents, and leaves heaps that still agree: on
all that can then be reached from the function, the arguments and the result. -/
theorem call_blind_to_caller (limit room : Nat) (closure : Closure) (values : List Value)
    (machine : Machine) (other : Heap)
    (h : Heap.AgreeOn (.function closure :: values) machine.heap other) :
    let result := call limit room closure values machine
    let result' := call limit room closure values { machine with heap := other }
    result.1 = result'.1 ∧ result.2.stamps = result'.2.stamps ∧ result.2.depth = result'.2.depth ∧
      (∀ id, machine.heap.next ≤ id → result.2.heap.scope? id = result'.2.heap.scope? id) ∧
      Heap.AgreeOn (result.1.toOption.toList ++ .function closure :: values) result.2.heap
        result'.2.heap := by
  intro result result'
  -- the scopes that the call can reach, now or later
  have hroots : ∀ value ∈ .function closure :: values, ∀ id, value.LeadsTo id →
      machine.heap.InReach (.function closure :: values) id ∨ machine.heap.next ≤ id :=
    fun value hvalue id hleads => .inl (.root hvalue hleads)
  obtain ⟨hending, hleads, hafter⟩ := h.sameWithin.call limit room hroots
  refine ⟨hending, hafter.stamps, hafter.depth, fun id hid => hafter.scope id (.inr hid), ?_⟩
  refine hafter.agreeOn fun value hvalue => ?_
  rcases List.mem_append.mp hvalue with hvalue | hvalue
  · exact hleads value (Option.mem_toList.mp hvalue)
  · exact hroots value hvalue

/-- The function `fn() {x}` was made where `x` is `"a"`.  It yields `"a"`, whatever its caller has
bound `x` to. -/
theorem call_blind_to_caller_shadowed :
    let word : Token := default
    let x : Bytes := [120]
    let body : Node := .block word [.exprStmt word (.ident ⟨word, x⟩)]
    let closure : Closure := ⟨0, [], body, some 0⟩
    let around := (Heap.empty.push none).bind 0 x (.text [97]) |>.bind 0 [102] (.function closure)
    let caller (value : Value) : Heap := (around.push (some 0)).bind 1 x value
    let machine : Machine := ⟨caller (.text [98]), 1, 0⟩
    let twin : Machine := ⟨caller (.number 1), 1, 0⟩
    Heap.AgreeOn [.function closure] machine.heap twin.heap ∧
      machine.heap.lookup x 1 = some (.text [98]) ∧ twin.heap.lookup x 1 = some (.number 1) ∧
      (call 1 1 closure [] machine).1 = .ok (.text [97]) ∧
      (call 1 1 closure [] machine).1 = (call 1 1 closure [] twin).1 := by
  intro word x body closure around caller machine twin
  -- the function, and what is bound where it was made, lead to the scope 0 alone
  have hzero : ∀ id, machine.heap.InReach [.function closure] id → id = 0 := by
    intro id hid
    induction hid with
    | root hvalue hleads =>
      obtain rfl := List.mem_singleton.mp hvalue
      cases hleads with
      | function hscope => exact (Option.some.inj hscope).symm
    | outer _ houter ih =>
      subst ih
      exact nomatch houter
    | held _ hheld hleads ih =>
      subst ih
      rcases Heap.holds_bind hheld with ⟨hcaller, -, -⟩ | hheld
      · exact absurd hcaller Nat.zero_ne_one
      rcases Heap.holds_bind (Heap.holds_push hheld) with ⟨-, -, rfl⟩ | hheld
      · cases hleads with
        | function hscope => exact (Option.some.inj hscope).symm
      rcases Heap.holds_bind hheld with ⟨-, -, rfl⟩ | hheld
      · exact nomatch hleads
      · obtain ⟨_, hscope, -⟩ := Heap.holds_push hheld
        exact nomatch hscope
  have hagree : Heap.AgreeOn [.function closure] machine.heap twin.heap := by
    refine ⟨rfl, fun id => ?_, fun id hid => ?_⟩
    · show (caller _).outer? id = (caller _).outer? id
      rw [Heap.outer?_bind, Heap.outer?_bind]
    · rw [hzero id hid]
      rfl
  refine ⟨hagree, by with_unfolding_all rfl, by with_unfolding_all rfl,
    by with_unfolding_all rfl, ?_⟩
  exact (call_blind_to_caller 1 1 closure [] machine twin.heap hagree).1

end TreeWalk
