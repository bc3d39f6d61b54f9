import TreeWalk.Proofs.HeapLaws
import TreeWalk.Proofs.Moments
import TreeWalk.Proofs.ProperTrees

/-!
# Functions are told apart by their making

Functions are compared by their stamps.  At each moment of a run there are functions on the heap, in
the value that was just found, and in what waits for a value: operands, and functions and arguments
of calls that are about to be made.  One moment after the other, a function is either handed on as
it is or made just then, and then it gets a stamp that no function has.  So every function has been
made once, and two functions are the same if and only if they were made at the same moment, wherever
they have been in the meantime.

## Main definitions

* `Value.closure?` — the function in a value.
* `Await.values`, `Moment.values` — the values that wait, and all values that are not on the heap.
* `Moment.Holds` — a function is somewhere at a moment.
* `Moment.Makes` — a function is made at a moment.
* `Moment.ofRun` — the moments of a whole run.

## Main results

* `Moment.Holds.of_step` — **a function was there before, or was just made.**
* `Moment.exists_makes` — every function has been made before, and has been there ever since.
* `Moment.stamp_eq_iff_of_makes` — stamps tell the moments apart at which functions were made.
* `Moment.equality_is_creation` — **two functions are the same if they were made at the same
  moment.**
-/

namespace TreeWalk

/-! ### Functions in values -/

namespace Value

/-- The function that a value is, or that a `pending` return carries. -/
def closure? : Value → Option Closure
  | .function closure => some closure
  | .pending value => value.closure?
  | _ => none

/-- The function in `value`, if there is one, is in the class `S`. -/
def Within (S : Closure → Prop) (value : Value) : Prop :=
  ∀ closure, value.closure? = some closure → S closure

variable {S : Closure → Prop} {value : Value}

theorem within_of_none (h : value.closure? = none) : value.Within S := by
  intro closure hclosure
  cases h.symm.trans hclosure

theorem Within.orNull (h : value.Within S) : value.orNull.Within S := by
  cases value with
  | nothing => exact within_of_none rfl
  | _ => exact h

theorem Within.arrived (h : value.Within S) : value.arrived.Within S := by
  cases value <;> exact h

/-- Operators make no functions: `closure?` finds none in their results. -/
theorem closure?_applyPrefix (op : Bytes) (right : Value) :
    (applyPrefix op right).closure? = none := by
  unfold applyPrefix
  repeat' split
  all_goals rfl

theorem closure?_applyInfix (op : Bytes) (left right : Value) :
    (applyInfix op left right).closure? = none := by
  unfold applyInfix applyToNumbers applyToTexts applyToOthers
  repeat' split
  all_goals rfl

end Value

/-! ### Functions on the heap -/

namespace Heap

/-- All functions on the heap are in the class `S`. -/
def Within (S : Closure → Prop) (heap : Heap) : Prop :=
  ∀ id name value, heap.Holds id name value → value.Within S

variable {S : Closure → Prop} {heap : Heap}

theorem Within.bind (h : heap.Within S) (id : ScopeId) (name : Bytes) {value : Value}
    (hvalue : value.Within S) : (heap.bind id name value).Within S := by
  intro other key held hheld
  rcases holds_bind hheld with ⟨-, -, rfl⟩ | hbefore
  · exact hvalue
  · exact h other key held hbefore

theorem Within.push (h : heap.Within S) (outer : Option ScopeId) : (heap.push outer).Within S :=
  fun id name value hheld => h id name value (holds_push hheld)

theorem Within.bindParams (h : heap.Within S) (id : ScopeId) (params : List Ident)
    {values : List Value} (hvalues : ∀ value ∈ values, value.Within S) :
    (heap.bindParams id params values).Within S := by
  induction params generalizing heap values with
  | nil => exact h
  | cons param params ih =>
    have hhead : (values.headD .null).Within S := by
      cases values with
      | nil => exact Value.within_of_none rfl
      | cons value values => exact hvalues value List.mem_cons_self
    have htail : ∀ value ∈ values.tail, value.Within S :=
      fun value hvalue => hvalues value (List.mem_of_mem_tail hvalue)
    exact ih (h.bind id param.name hhead) htail

theorem Within.lookup (h : heap.Within S) {name : Bytes} {id : ScopeId} {value : Value}
    (hvalue : heap.lookup name id = some value) : value.Within S := by
  obtain ⟨other, -, hheld⟩ :=
    exists_holds_of_lookup (S := fun _ => True) (fun _ _ _ _ => trivial) trivial hvalue
  exact h other name value hheld

end Heap

/-! ### Functions at a moment -/

/-- The values that an entry of what waits has found so far; with the arguments of a call they
include the function that is called. -/
def Await.values : Await → List Value
  | .left _ value => [value]
  | .argument closure values _ _ => .function closure :: values
  | _ => []

namespace Moment

/-- The values at a moment that are not on its heap. -/
def values : Moment → List Value
  | entering _ _ _ waiting => waiting.flatMap Await.values
  | yielding _ value waiting => value :: waiting.flatMap Await.values
  | halted (.ok value, _) => [value]
  | halted (.error _, _) => []

/-- The function `closure` is somewhere at `moment`: a scope holds it, or it was just found, or it
waits to be used. -/
def Holds (moment : Moment) (closure : Closure) : Prop :=
  (∃ id name value, moment.machine.heap.Holds id name value ∧ value.closure? = some closure) ∨
    ∃ value ∈ moment.values, value.closure? = some closure

/-- The function `closure` is made at `moment`: its text is about to be evaluated, and it is what
`step` yields. -/
def Makes (limit : Nat) (moment : Moment) (closure : Closure) : Prop :=
  ∃ machine token params body id waiting next,
    moment = entering machine (.function token params body) id waiting ∧
    step limit moment = yielding next (.function closure) waiting

/-- All functions at `moment` are in the class `S`, on the heap (`heap`) and elsewhere
(`values`). -/
structure Within (S : Closure → Prop) (moment : Moment) : Prop where
  /-- Those on the heap. -/
  heap : moment.machine.heap.Within S
  /-- The others. -/
  values : ∀ value ∈ moment.values, value.Within S

theorem Within.mono {S T : Closure → Prop} {moment : Moment} (h : moment.Within S)
    (hclass : ∀ closure, S closure → T closure) : moment.Within T where
  heap id name value hheld closure hclosure :=
    hclass closure (h.heap id name value hheld closure hclosure)
  values value hvalue closure hclosure := hclass closure (h.values value hvalue closure hclosure)

theorem within_holds (moment : Moment) : moment.Within moment.Holds where
  heap id name value hheld _ hclosure := .inl ⟨id, name, value, hheld, hclosure⟩
  values value hvalue _ hclosure := .inr ⟨value, hvalue, hclosure⟩

theorem Within.of_holds {S : Closure → Prop} {moment : Moment} (h : moment.Within S)
    {closure : Closure} (hclosure : moment.Holds closure) : S closure := by
  rcases hclosure with ⟨id, name, value, hheld, hvalue⟩ | ⟨value, hmem, hvalue⟩
  · exact h.heap id name value hheld closure hvalue
  · exact h.values value hmem closure hvalue

/-! ### From one moment to the next -/

section

variable {S : Closure → Prop} {limit : Nat} {id : ScopeId} {waiting : List Await}
  {machine : Machine}

/-- All functions in `waiting` are in the class `S`. -/
def Waits (S : Closure → Prop) (waiting : List Await) : Prop :=
  ∀ value ∈ waiting.flatMap Await.values, value.Within S

theorem Waits.cons (h : Waits S waiting) (await : Await)
    (hawait : ∀ value ∈ await.values, value.Within S) : Waits S (await :: waiting) := by
  intro value hvalue
  rw [List.flatMap_cons, List.mem_append] at hvalue
  exact hvalue.elim (hawait value) (h value)

theorem Waits.of_cons {await : Await} (h : Waits S (await :: waiting)) :
    (∀ value ∈ await.values, value.Within S) ∧ Waits S waiting := by
  unfold Waits at h
  rw [List.flatMap_cons] at h
  exact List.forall_mem_append.1 h

theorem within_entering (hheap : machine.heap.Within S) (hwaiting : Waits S waiting) (node : Node) :
    (entering machine node id waiting).Within S := ⟨hheap, hwaiting⟩

theorem within_yielding (hheap : machine.heap.Within S) (hwaiting : Waits S waiting) {value : Value}
    (hvalue : value.Within S) : (yielding machine value waiting).Within S :=
  ⟨hheap, List.forall_mem_cons.2 ⟨hvalue, hwaiting⟩⟩

theorem within_giveUp (hheap : machine.heap.Within S) (abort : Abort) :
    (giveUp abort machine).Within S := ⟨hheap, fun _ hvalue => absurd hvalue List.not_mem_nil⟩

theorem within_row (hheap : machine.heap.Within S) (hwaiting : Waits S waiting)
    (stmts : List Node) {last : Value} (hlast : last.Within S) :
    (row id waiting machine stmts last).Within S := by
  cases stmts with
  | nil => exact within_yielding hheap hwaiting hlast
  | cons node more =>
    exact within_entering hheap (hwaiting.cons _ fun _ h => absurd h List.not_mem_nil) node

theorem within_block (hheap : machine.heap.Within S) (hwaiting : Waits S waiting) (node : Node) :
    (block id waiting machine node).Within S := by
  cases node with
  | block token stmts => exact within_row hheap hwaiting stmts (Value.within_of_none rfl)
  | _ => exact within_giveUp hheap .stuck

theorem within_invoke (hheap : machine.heap.Within S) (hwaiting : Waits S waiting)
    (closure : Closure) {values : List Value} (hvalues : ∀ value ∈ values, value.Within S) :
    (invoke limit closure values waiting machine).Within S := by
  unfold invoke
  split
  · exact within_giveUp hheap _
  · have hopened : (opened closure values machine).heap.Within S :=
      (hheap.push closure.scope).bindParams _ closure.params hvalues
    exact within_block hopened (hwaiting.cons _ fun _ h => absurd h List.not_mem_nil) closure.body

theorem within_arguments (hheap : machine.heap.Within S) (hwaiting : Waits S waiting)
    {closure : Closure} (hclosure : S closure) {values : List Value}
    (hvalues : ∀ value ∈ values, value.Within S) (args : List Node) :
    (arguments limit closure id waiting machine values args).Within S := by
  cases args with
  | nil => exact within_invoke hheap hwaiting closure hvalues
  | cons node more =>
    have hfunction : (Value.function closure).Within S := by
      intro other hother
      obtain rfl := Option.some.inj hother
      exact hclosure
    have hnext : Waits S (.argument closure values more id :: waiting) :=
      hwaiting.cons _ (List.forall_mem_cons.2 ⟨hfunction, hvalues⟩)
    exact within_entering hheap hnext node

/-- By cases on `await`: `resume` hands on the functions that `await` has and those in `value`, and
no others. -/
theorem within_resume (hheap : machine.heap.Within S) (hwaiting : Waits S waiting) {await : Await}
    (hawait : ∀ value ∈ await.values, value.Within S) {value : Value} (hvalue : value.Within S) :
    (resume limit value waiting machine await).Within S := by
  have hnone {value : Value} (h : value.closure? = none) :
      (yielding machine value waiting).Within S :=
    within_yielding hheap hwaiting (Value.within_of_none h)
  cases await with
  | bind id name =>
    exact within_yielding (hheap.bind id name hvalue.orNull) hwaiting (Value.within_of_none rfl)
  | give => exact within_yielding hheap hwaiting hvalue.orNull
  | operand op => exact hnone (Value.closure?_applyPrefix op _)
  | right op left id =>
    have hnext : Waits S (.left op value.orNull :: waiting) :=
      hwaiting.cons _ (List.forall_mem_singleton.2 hvalue.orNull)
    exact within_entering hheap hnext left
  | left op right => exact hnone (Value.closure?_applyInfix op _ right)
  | choice yes no id =>
    rw [resume]
    split
    · exact within_block hheap hwaiting yes
    · split
      · exact hnone rfl
      · exact within_block hheap hwaiting no
  | callee args id =>
    rw [resume]
    split
    · next closure hclosure =>
      -- the value that was found becomes the function that waits for its arguments
      have hclosure : S closure := hvalue.orNull closure (by rw [hclosure]; rfl)
      exact within_arguments hheap hwaiting hclosure (fun _ h => absurd h List.not_mem_nil) args
    · exact hnone rfl
  | argument closure values more id =>
    obtain ⟨hfunction, hvalues⟩ := List.forall_mem_cons.1 hawait
    have hvalues : ∀ found ∈ values ++ [value.orNull], found.Within S :=
      List.forall_mem_append.2 ⟨hvalues, List.forall_mem_singleton.2 hvalue.orNull⟩
    exact within_arguments hheap hwaiting (hfunction closure rfl) hvalues more
  | row more id => exact within_row hheap hwaiting more hvalue
  | body =>
    have hclosed : ({ machine with depth := machine.depth - 1 } : Machine).heap.Within S := hheap
    exact within_yielding hclosed hwaiting hvalue.arrived

/-- By cases on `node`: `enter` hands on the functions that it finds on the heap, and if `node` is
the text of a function, the one that it makes. -/
theorem within_enter (hheap : machine.heap.Within S) (hwaiting : Waits S waiting) (node : Node)
    (hmakes : ∀ closure, (entering machine node id waiting).Makes limit closure → S closure) :
    (enter id waiting machine node).Within S := by
  -- a node yields a value without a function, or it enters another node with no function waiting;
  -- the cases of their own are names and the texts of functions
  have hnone {value : Value} (h : value.closure? = none) :
      (yielding machine value waiting).Within S :=
    within_yielding hheap hwaiting (Value.within_of_none h)
  have hempty {await : Await} (h : await.values = []) (node : Node) :
      (entering machine node id (await :: waiting)).Within S := by
    refine within_entering hheap (hwaiting.cons await ?_) node
    rw [h]
    exact fun _ h => absurd h List.not_mem_nil
  cases node with
  | hole => exact hnone rfl
  | bare kind =>
    cases kind with
    | unassigned number => exact hnone rfl
    | _ => exact within_giveUp hheap .stuck
  | letStmt token name value => exact hempty rfl value
  | returnStmt token value => exact hempty rfl value
  | exprStmt token expr => exact within_entering hheap hwaiting expr
  | block token stmts => exact within_row hheap hwaiting stmts (Value.within_of_none rfl)
  | ident name =>
    refine within_yielding hheap hwaiting ?_
    cases hlookup : machine.heap.lookup name.name id with
    | none => exact Value.within_of_none rfl
    | some value => exact hheap.lookup hlookup
  | number token value => exact hnone rfl
  | text token value => exact hnone rfl
  | boolean token value => exact hnone rfl
  | prefixOp token op right => exact hempty rfl right
  | infixOp token op left right => exact hempty rfl right
  | ifElse token cond yes no => exact hempty rfl cond
  | function token params body =>
    have hnew : (Value.function ⟨machine.stamps, params, body, some id⟩).Within S := by
      intro closure hclosure
      obtain rfl := Option.some.inj hclosure
      exact hmakes _ ⟨machine, token, params, body, id, waiting, _, rfl, rfl⟩
    have hstamped : ({ machine with stamps := machine.stamps + 1 } : Machine).heap.Within S := hheap
    exact within_yielding hstamped hwaiting hnew
  | call token callee args => exact hempty rfl callee

/-- A class `S` that has all functions at `moment`, and the one that `moment` makes, has all
functions one step later. -/
theorem Within.step {moment : Moment} (h : moment.Within S)
    (hmakes : ∀ closure, moment.Makes limit closure → S closure) :
    (step limit moment).Within S := by
  obtain ⟨hheap, hvalues⟩ := h
  cases moment with
  | entering machine node id waiting => exact within_enter hheap hvalues node hmakes
  | yielding machine value waiting =>
    obtain ⟨hvalue, hwaiting⟩ := List.forall_mem_cons.1 hvalues
    cases waiting with
    | nil => exact ⟨hheap, List.forall_mem_singleton.2 hvalue.arrived⟩
    | cons await waiting =>
      obtain ⟨hawait, hmore⟩ := Waits.of_cons hwaiting
      rw [Moment.step]
      split
      · exact within_yielding hheap hmore hvalue
      · exact within_resume hheap hmore hawait hvalue
  | halted result => exact ⟨hheap, hvalues⟩

end

variable {limit : Nat} {moment : Moment} {closure : Closure}

/-- **A function was there before, or was just made**: `Within.step` for the class of these
functions. -/
theorem Holds.of_step (h : (step limit moment).Holds closure) :
    moment.Holds closure ∨ moment.Makes limit closure := by
  have hbefore : moment.Within fun closure => moment.Holds closure ∨ moment.Makes limit closure :=
    moment.within_holds.mono fun _ => .inl
  exact (hbefore.step fun _ => .inr).of_holds h

/-! ### Stamps -/

section

variable {id : ScopeId} {waiting : List Await} {machine : Machine}

theorem stamps_row (stmts : List Node) (last : Value) :
    (row id waiting machine stmts last).machine.stamps = machine.stamps := by
  cases stmts <;> rfl

theorem stamps_block (node : Node) :
    (block id waiting machine node).machine.stamps = machine.stamps := by
  cases node with
  | block token stmts => exact stamps_row stmts .nothing
  | _ => rfl

theorem stamps_arguments (closure : Closure) (values : List Value) (args : List Node) :
    (arguments limit closure id waiting machine values args).machine.stamps = machine.stamps := by
  cases args with
  | nil =>
    rw [arguments, invoke]
    split
    · rfl
    · exact stamps_block closure.body
  | cons node more => rfl

theorem stamps_resume (value : Value) (await : Await) :
    (resume limit value waiting machine await).machine.stamps = machine.stamps := by
  cases await with
  | choice yes no id =>
    rw [resume]
    split
    · exact stamps_block yes
    · split
      · rfl
      · exact stamps_block no
  | callee args id =>
    rw [resume]
    split
    · exact stamps_arguments _ _ args
    · rfl
  | argument closure values more id => exact stamps_arguments closure _ more
  | row more id => exact stamps_row more value
  | _ => rfl

end

/-- Stamps are never given back: `stamps` does not decrease. -/
theorem stamps_le_step (limit : Nat) (moment : Moment) :
    moment.machine.stamps ≤ (step limit moment).machine.stamps := by
  cases moment with
  | entering machine node id waiting =>
    cases node with
    | bare kind => cases kind <;> exact Nat.le_refl _
    | block token stmts => exact Nat.le_of_eq (stamps_row stmts .nothing).symm
    | function token params body => exact Nat.le_succ _
    | _ => exact Nat.le_refl _
  | yielding machine value waiting =>
    cases waiting with
    | nil => exact Nat.le_refl _
    | cons await waiting =>
      rw [step]
      split
      · exact Nat.le_refl _
      · exact Nat.le_of_eq (stamps_resume value await).symm
  | halted result => exact Nat.le_refl _

/-- The function that is made gets the next stamp, `moment.machine.stamps`, and this one is used
up. -/
theorem Makes.stamp (h : moment.Makes limit closure) :
    closure.stamp = moment.machine.stamps ∧
      (step limit moment).machine.stamps = moment.machine.stamps + 1 := by
  obtain ⟨machine, token, params, body, id, waiting, next, rfl, hstep⟩ := h
  rw [step, enter] at hstep
  cases hstep
  exact ⟨rfl, rfl⟩

/-- At most one function is made at `moment`. -/
theorem Makes.eq {other : Closure} (h : moment.Makes limit closure)
    (hother : moment.Makes limit other) : closure = other := by
  obtain ⟨machine, token, params, body, id, waiting, next, rfl, hstep⟩ := h
  obtain ⟨_, _, _, _, _, _, _, hsame, hstep'⟩ := hother
  cases hsame
  exact Value.function.inj (Moment.yielding.inj (hstep.symm.trans hstep')).2.1

/-! ### Whole runs -/

/-- The moment of the run of `program` after `time` steps, from `Machine.fresh`, which holds
nothing. -/
def ofRun (limit : Nat) (program : Program) (time : Nat) : Moment :=
  (step limit)^[time] (start .fresh program 0)

variable (program : Program) {time later : Nat}

theorem ofRun_succ (limit time : Nat) :
    ofRun limit program (time + 1) = step limit (ofRun limit program time) :=
  Function.iterate_succ_apply' _ _ _

/-- At `start` there are no functions. -/
theorem not_holds_start (closure : Closure) : ¬ (start .fresh program 0).Holds closure := by
  have hheap : (Machine.fresh.idle).heap.Within fun _ => False := by
    refine Heap.Within.push ?_ none
    rintro id name value ⟨scope, hscope, -⟩
    cases hscope
  have hwaiting : Waits (fun _ => False) [] := fun _ h => absurd h List.not_mem_nil
  exact (within_row hheap hwaiting program (Value.within_of_none rfl)).of_holds

theorem stamps_mono (limit : Nat) (h : time ≤ later) :
    (ofRun limit program time).machine.stamps ≤ (ofRun limit program later).machine.stamps := by
  induction h with
  | refl => exact Nat.le_refl _
  | step _ ih =>
    rw [ofRun_succ]
    exact Nat.le_trans ih (stamps_le_step limit _)

/-- A function `other` that is made `later` gets a larger stamp. -/
theorem stamp_lt_of_makes {program : Program} {other : Closure} (h : time < later)
    (hclosure : (ofRun limit program time).Makes limit closure)
    (hother : (ofRun limit program later).Makes limit other) : closure.stamp < other.stamp := by
  have hused := hclosure.stamp.2
  rw [← ofRun_succ] at hused
  calc closure.stamp
      < (ofRun limit program (time + 1)).machine.stamps := by rw [hused, hclosure.stamp.1]; omega
    _ ≤ (ofRun limit program later).machine.stamps := stamps_mono program limit h
    _ = other.stamp := hother.stamp.1.symm

/-- **Two functions have one stamp if and only if they were made at one moment**: by
`stamp_lt_of_makes`, whichever of them was made first. -/
theorem stamp_eq_iff_of_makes {program : Program} {other : Closure}
    (hclosure : (ofRun limit program time).Makes limit closure)
    (hother : (ofRun limit program later).Makes limit other) :
    closure.stamp = other.stamp ↔ time = later := by
  constructor
  · intro hstamp
    rcases Nat.lt_trichotomy time later with hlt | heq | hgt
    · exact absurd hstamp (Nat.ne_of_lt (stamp_lt_of_makes hlt hclosure hother))
    · exact heq
    · exact absurd hstamp.symm (Nat.ne_of_lt (stamp_lt_of_makes hgt hother hclosure))
  · rintro rfl
    rw [hclosure.eq hother]

/-- **Every function has been made before, and has been there ever since.**  By induction on `time`,
with `Holds.of_step` for the step. -/
theorem exists_makes {program : Program} (h : (ofRun limit program time).Holds closure) :
    ∃ made < time, (ofRun limit program made).Makes limit closure ∧
      ∀ between, made < between → between ≤ time → (ofRun limit program between).Holds closure := by
  induction time with
  | zero => exact absurd h (not_holds_start program closure)
  | succ time ih =>
    have hlast : ∀ between, between = time + 1 → (ofRun limit program between).Holds closure :=
      fun between heq => heq ▸ h
    rw [ofRun_succ] at h
    -- going back in time, it was there a moment ago, or this is where it was made
    rcases h.of_step with hbefore | hmakes
    · obtain ⟨made, hmade, hmakes, hbetween⟩ := ih hbefore
      refine ⟨made, by omega, hmakes, fun between hlow hhigh => ?_⟩
      rcases Nat.lt_or_ge time between with hnew | hold
      · exact hlast between (by omega)
      · exact hbetween between hlow hold
    · exact ⟨time, by omega, hmakes, fun between hlow hhigh => hlast between (by omega)⟩

/-- The operators `==` and `!=` compare functions by their stamps. -/
theorem applyInfix_functions (f g : Closure) :
    Value.applyInfix (utf8 "==") (.function f) (.function g) =
      .boolean (decide (f.stamp = g.stamp)) ∧
    Value.applyInfix (utf8 "!=") (.function f) (.function g) =
      .boolean !(decide (f.stamp = g.stamp)) := by
  have hsame : (Value.function f).same (.function g) = decide (f.stamp = g.stamp) := rfl
  have hne : utf8 "!=" ≠ utf8 "==" := by decide
  constructor
  · show Value.applyToOthers _ _ _ = _
    rw [Value.applyToOthers, if_pos rfl, hsame]
  · show Value.applyToOthers _ _ _ = _
    rw [Value.applyToOthers, if_neg hne, if_pos rfl, hsame]

/-- **Two functions are the same if they were made at the same moment.**  A run that comes to its
end, as every run with a limit does, does so by its moments.  A function that is made is not the
same as any that is on the heap, was just found or waits to be used.  Each of these has been made at
one moment before, and from then on has been there at all moments.  Two functions that are found at
any moments of the run compare equal if and only if the same evaluation of a text has made them;
then their parameters, their bodies and the scopes they were made in are the same; and they compare
unequal if and only if they do not compare equal. -/
theorem equality_is_creation (limit : Nat) (program : Program) :
    (0 < limit ∨ (Machine.fresh.run limit program 0).1 ≠ .error .unfinished →
      ∃ time, ofRun limit program time = halted (Machine.fresh.run limit program 0)) ∧
    (∀ time f g, (ofRun limit program time).Makes limit f → (ofRun limit program time).Holds g →
      Value.applyInfix (utf8 "==") (.function f) (.function g) = .boolean false) ∧
    (∀ time f, (ofRun limit program time).Holds f →
      ∃ made < time, (ofRun limit program made).Makes limit f ∧
        (∀ other, (ofRun limit program other).Makes limit f → other = made) ∧
        ∀ between, made < between → between ≤ time → (ofRun limit program between).Holds f) ∧
    ∀ time later f g, (ofRun limit program time).Holds f → (ofRun limit program later).Holds g →
      let equal := Value.applyInfix (utf8 "==") (.function f) (.function g)
      (equal = .boolean true ↔
        ∃ made, (ofRun limit program made).Makes limit f ∧
          (ofRun limit program made).Makes limit g) ∧
      (equal = .boolean true → f.params = g.params ∧ f.body = g.body ∧ f.scope = g.scope) ∧
      ∃ same, equal = .boolean same ∧
        Value.applyInfix (utf8 "!=") (.function f) (.function g) = .boolean !same := by
  refine ⟨fun hlimit => ?_, ?_, ?_, ?_⟩
  · have hend : (Machine.fresh.run limit program 0).1 ≠ .error .unfinished :=
      hlimit.elim (Machine.run_ne_unfinished .fresh · program 0) id
    exact (Machine.run_reached .fresh hend).exists_iterate
  · intro time f g hmakes hholds
    obtain ⟨made, hmade, hmakes', -⟩ := exists_makes hholds
    have hlt : g.stamp < f.stamp := stamp_lt_of_makes hmade hmakes' hmakes
    rw [(applyInfix_functions f g).1, decide_eq_false (Nat.ne_of_gt hlt)]
  · intro time f hholds
    obtain ⟨made, hmade, hmakes, hbetween⟩ := exists_makes hholds
    refine ⟨made, hmade, hmakes, fun other hother => ?_, hbetween⟩
    exact (stamp_eq_iff_of_makes hother hmakes).1 rfl
  · intro time later f g hf hg equal
    obtain ⟨made, -, hmakes, -⟩ := exists_makes hf
    obtain ⟨made', -, hmakes', -⟩ := exists_makes hg
    obtain ⟨hequal, hunequal⟩ := applyInfix_functions f g
    -- equal functions have one stamp, hence were made at one moment, hence are one function
    have hsame : equal = .boolean true → f = g := by
      intro htrue
      have hstamp : f.stamp = g.stamp := by simpa [equal, hequal] using htrue
      obtain rfl := (stamp_eq_iff_of_makes hmakes hmakes').1 hstamp
      exact hmakes.eq hmakes'
    refine ⟨⟨fun htrue => ⟨made, hmakes, hsame htrue ▸ hmakes⟩, ?_⟩, ?_, _, hequal, hunequal⟩
    · rintro ⟨origin, hmakesf, hmakesg⟩
      have hstamp : f.stamp = g.stamp := (stamp_eq_iff_of_makes hmakesf hmakesg).2 rfl
      exact hequal.trans (by rw [decide_eq_true hstamp])
    · intro htrue
      rw [hsame htrue]
      exact ⟨rfl, rfl, rfl⟩

/-- In `let f = fn() {}; let g = fn() {}; let h = f`, the functions `f` and `g` look the same and
are not the same, and `h` is the same as `f`. -/
theorem equality_is_creation_twins :
    let word : Token := default
    let body : Node := .block word []
    let text : Node := .function word [] body
    let program : Program := [.letStmt word ⟨word, [102]⟩ text, .letStmt word ⟨word, [103]⟩ text,
      .letStmt word ⟨word, [104]⟩ (.ident ⟨word, [102]⟩)]
    let f : Closure := ⟨0, [], body, some 0⟩
    let g : Closure := ⟨1, [], body, some 0⟩
    (ofRun 9 program 1).Makes 9 f ∧ (ofRun 9 program 5).Makes 9 g ∧
      (ofRun 9 program 5).machine.heap.Holds 0 [102] (.function f) ∧
      (ofRun 9 program 11).machine.heap.Holds 0 [104] (.function f) ∧
      Value.applyInfix (utf8 "==") (.function g) (.function f) = .boolean false ∧
      Value.applyInfix (utf8 "==") (.function f) (.function f) = .boolean true := by
  intro word body text program f g
  have hf : (ofRun 9 program 1).Makes 9 f := ⟨_, _, _, _, _, _, _, rfl, rfl⟩
  have hg : (ofRun 9 program 5).Makes 9 g := ⟨_, _, _, _, _, _, _, rfl, rfl⟩
  have hheld : (ofRun 9 program 5).machine.heap.Holds 0 [102] (.function f) :=
    ⟨⟨none, [([102], .function f)]⟩, rfl, List.mem_cons_self⟩
  have hcopied : (ofRun 9 program 11).machine.heap.Holds 0 [104] (.function f) := by
    refine ⟨⟨none, [([102], .function f), ([103], .function g), ([104], .function f)]⟩, ?_, ?_⟩
    · with_unfolding_all rfl
    · exact List.mem_of_mem_tail (List.mem_of_mem_tail List.mem_cons_self)
  -- a scope holds the function at both moments
  have hbefore : (ofRun 9 program 5).Holds f := .inl ⟨0, [102], .function f, hheld, rfl⟩
  have hafter : (ofRun 9 program 11).Holds f := .inl ⟨0, [104], .function f, hcopied, rfl⟩
  obtain ⟨-, hnew, -, hequal⟩ := equality_is_creation 9 program
  exact ⟨hf, hg, hheld, hcopied, hnew 5 g f hg hbefore,
    (hequal 5 11 f f hbefore hafter).1.2 ⟨1, hf, hf⟩⟩

end Moment

end TreeWalk
