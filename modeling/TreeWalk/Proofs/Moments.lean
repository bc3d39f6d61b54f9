import Mathlib.Logic.Function.Iterate
import Mathlib.Logic.Relation
import TreeWalk.Proofs.Invariant

/-!
# The moments of a run

Evaluation calls itself for the parts of a node, and what it has found so far it keeps to itself: an
operand while the other one is evaluated, a function and its arguments while further arguments are.
Here a run is taken apart into moments in which all of this can be seen.  At each moment a node is
about to be evaluated or a value has just been found, and a list tells what waits for it, the
innermost construct first.

The moments are those of the evaluation itself: a run that comes to its end does so by them, with
exactly its result.

## Main definitions

* `Await` — what waits for a value, and what it needs the value for.
* `Moment`, `Moment.step` — a moment of a run, and the next one.
* `Moment.Reaches` — one moment comes after another.
* `Moment.Follows` — the moments do what a step of evaluation does.

## Main results

* `Moment.evalNode_follows`, `Moment.call_follows` — **the moments do what evaluation does.**
* `Machine.run_reached` — a run that comes to its end does so by its moments.
-/

namespace TreeWalk

/-- Binds the parameters to the `values` in the scope `id`; those without a value are bound to
`null`. -/
def Heap.bindParams (id : ScopeId) : List Ident → List Value → Heap → Heap
  | [], _, heap => heap
  | param :: params, values, heap =>
    bindParams id params values.tail (heap.bind id param.name (values.headD .null))

/-- What waits for a value, with all that it has found so far. -/
inductive Await
  /-- A name is to be bound to the value. -/
  | bind (id : ScopeId) (name : Bytes)
  /-- The value is to be returned. -/
  | give
  /-- An operator needs its only operand. -/
  | operand (op : Bytes)
  /-- An operator needs its right operand, before the left one. -/
  | right (op : Bytes) (left : Node) (id : ScopeId)
  /-- An operator has its right operand and needs the left one. -/
  | left (op : Bytes) (right : Value)
  /-- The value decides between two blocks. -/
  | choice (yes no : Node) (id : ScopeId)
  /-- A call needs the function. -/
  | callee (args : List Node) (id : ScopeId)
  /-- A call has the function and its first arguments and needs the next one. -/
  | argument (closure : Closure) (values : List Value) (more : List Node) (id : ScopeId)
  /-- Further statements come behind this one. -/
  | row (more : List Node) (id : ScopeId)
  /-- The value is that of the body of an open call. -/
  | body

/-- A moment of a run. -/
inductive Moment
  /-- A node is about to be evaluated in a scope. -/
  | entering (machine : Machine) (node : Node) (id : ScopeId) (waiting : List Await)
  /-- A value was found. -/
  | yielding (machine : Machine) (value : Value) (waiting : List Await)
  /-- The run has come to its end. -/
  | halted (result : Ending × Machine)

namespace Moment

/-- The machine at a moment. -/
def machine : Moment → Machine
  | entering machine _ _ _ => machine
  | yielding machine _ _ => machine
  | halted (_, machine) => machine

/-! ### From one moment to the next -/

/-- The run is given up for the reason `abort`, which closes all calls that are open. -/
def giveUp (abort : Abort) (machine : Machine) : Moment := halted (.error abort, machine.idle)

/-- The first of the statements that are left is entered, or the value `last` of the last one is
yielded. -/
def row (id : ScopeId) (waiting : List Await) (machine : Machine) : List Node → Value → Moment
  | [], last => yielding machine last waiting
  | node :: more, _ => entering machine node id (.row more id :: waiting)

/-- A node that has to be a block is entered by its statements, and anything else is stuck. -/
def block (id : ScopeId) (waiting : List Await) (machine : Machine) : Node → Moment
  | .block _ stmts => row id waiting machine stmts .nothing
  | _ => giveUp .stuck machine

/-- The scope of a call to `closure` is opened and its parameters are bound to `values`, in one
step. -/
def opened (closure : Closure) (values : List Value) (machine : Machine) : Machine where
  heap := (machine.heap.push closure.scope).bindParams machine.heap.next closure.params values
  stamps := machine.stamps
  depth := machine.depth + 1

/-- The `closure` is called with `values`, unless as many calls are open as the `limit` allows. -/
def invoke (limit : Nat) (closure : Closure) (values : List Value) (waiting : List Await)
    (machine : Machine) : Moment :=
  if atLimit limit machine.depth then giveUp (.tooDeep limit) machine
  else block machine.heap.next (.body :: waiting) (opened closure values machine) closure.body

/-- The next argument of a call is entered, or the call is made by `invoke` if there is none. -/
def arguments (limit : Nat) (closure : Closure) (id : ScopeId) (waiting : List Await)
    (machine : Machine) : List Value → List Node → Moment
  | values, [] => invoke limit closure values waiting machine
  | values, node :: more => entering machine node id (.argument closure values more id :: waiting)

/-- What becomes of a node that is about to be evaluated. -/
def enter (id : ScopeId) (waiting : List Await) (machine : Machine) : Node → Moment
  | .hole => yielding machine .nothing waiting
  | .bare (.unassigned _) => yielding machine .nothing waiting
  | .bare _ => giveUp .stuck machine
  | .letStmt _ name value => entering machine value id (.bind id name.name :: waiting)
  | .returnStmt _ value => entering machine value id (.give :: waiting)
  | .exprStmt _ expr => entering machine expr id waiting
  | .block _ stmts => row id waiting machine stmts .nothing
  | .ident name =>
    yielding machine ((machine.heap.lookup name.name id).getD (.error (.unbound name.name))) waiting
  | .number _ value => yielding machine (.number value) waiting
  | .text _ value => yielding machine (.text value) waiting
  | .boolean _ value => yielding machine (.boolean value) waiting
  | .prefixOp _ op right => entering machine right id (.operand op :: waiting)
  | .infixOp _ op left right => entering machine right id (.right op left id :: waiting)
  | .ifElse _ cond yes no => entering machine cond id (.choice yes no id :: waiting)
  | .function _ params body =>
    yielding { machine with stamps := machine.stamps + 1 }
      (.function ⟨machine.stamps, params, body, some id⟩) waiting
  | .call _ callee args => entering machine callee id (.callee args id :: waiting)

/-- What becomes of a `value` that is no signal, or that an open call waits for. -/
def resume (limit : Nat) (value : Value) (waiting : List Await) (machine : Machine) :
    Await → Moment
  | .bind id name =>
    yielding { machine with heap := machine.heap.bind id name value.orNull } .nothing waiting
  | .give => yielding machine (.pending value.orNull) waiting
  | .operand op => yielding machine (.applyPrefix op value.orNull) waiting
  | .right op left id => entering machine left id (.left op value.orNull :: waiting)
  | .left op right => yielding machine (.applyInfix op value.orNull right) waiting
  | .choice yes no id =>
    if value.orNull.isTruthy then block id waiting machine yes
    else if no.isHole then yielding machine .null waiting
    else block id waiting machine no
  | .callee args id =>
    match value.orNull with
    | .function closure => arguments limit closure id waiting machine [] args
    | other => yielding machine (.error (.notFunction other.typeLabel)) waiting
  | .argument closure values more id =>
    arguments limit closure id waiting machine (values ++ [value.orNull]) more
  | .row more id => row id waiting machine more value
  | .body => yielding { machine with depth := machine.depth - 1 } value.arrived waiting

/-- Whether what waits hands a signal on.  Only an open call does not. -/
def passes : Await → Bool
  | .body => false
  | _ => true

/-- The next moment.  What is found when nothing is `waiting` is the value of the program. -/
def step (limit : Nat) : Moment → Moment
  | entering machine node id waiting => enter id waiting machine node
  | yielding machine value [] => halted (.ok value.arrived, machine)
  | yielding machine value (await :: waiting) =>
    if passes await && value.isSignal then yielding machine value waiting
    else resume limit value waiting machine await
  | halted result => halted result

/-- Where a run starts: with no call open. -/
def start (machine : Machine) (program : Program) (id : ScopeId) : Moment :=
  row id [] machine.idle program .nothing

/-- One moment comes after another by any number of `step`s. -/
def Reaches (limit : Nat) : Moment → Moment → Prop :=
  Relation.ReflTransGen fun moment next => step limit moment = next

/-- A moment that `Reaches` another one comes to it after some `count` of steps. -/
theorem Reaches.exists_iterate {limit : Nat} {moment next : Moment}
    (h : Reaches limit moment next) : ∃ count, (step limit)^[count] moment = next := by
  induction h with
  | refl => exact ⟨0, rfl⟩
  | tail _ hstep ih =>
    obtain ⟨count, hcount⟩ := ih
    refine ⟨count + 1, ?_⟩
    rw [Function.iterate_succ_apply', hcount, hstep]

/-- What comes after a part of the run that has come to its end: its value is handed to the first of
`waiting`, or the run is given up. -/
def after (waiting : List Await) : Ending × Machine → Moment
  | (.ok value, machine) => yielding machine value waiting
  | (.error abort, machine) => giveUp abort machine

/-! ### The moments do what evaluation does -/

/-- Evaluation came to its end: it was not given up as `unfinished`, for want of room. -/
def Ended {α : Type} (result : Except Abort α × Machine) : Prop := result.1 ≠ .error .unfinished

theorem ended_ok {α : Type} (result : α) (machine : Machine) : Ended (.ok result, machine) :=
  fun h => by cases h

/-- The moments do what `step` does: if `step` comes to its end on a machine, they come from the
moment `first machine` to the moment `last` of its result.  A moment holds what still waits, so
moments are not another `Steps` for `Walk` to run in, and `Follows` is shown by an induction of its
own over the tree. -/
def Follows {α : Type} (limit : Nat) (first : Machine → Moment)
    (last : Except Abort α × Machine → Moment) (step : Eval α) : Prop :=
  ∀ machine, Ended (step machine) → Reaches limit (first machine) (last (step machine))

section

variable {limit : Nat} {α : Type} {first next : Machine → Moment}
  {last : Except Abort α × Machine → Moment} {waiting : List Await}

theorem Follows.head {step' : Eval α} (hstep : ∀ machine, step limit (first machine) = next machine)
    (h : Follows limit next last step') : Follows limit first last step' :=
  fun machine hend => .head (hstep machine) (h machine hend)

theorem Follows.pure {result : α} (h : ∀ machine, first machine = last (.ok result, machine)) :
    Follows limit first last (Pure.pure result) :=
  fun machine _ => h machine ▸ .refl

theorem Follows.throw {abort : Abort}
    (h : ∀ machine, first machine = last (.error abort, machine)) :
    Follows limit first last (MonadExcept.throw abort) :=
  fun machine _ => h machine ▸ .refl

/-- One step after the other: the moment `middle` after the first one is where the second one
starts. -/
theorem Follows.bind {β : Type} {middle : Except Abort β × Machine → Moment} {step' : Eval β}
    {next : β → Eval α} (hstep : Follows limit first middle step')
    (herror : ∀ abort machine, middle (.error abort, machine) = last (.error abort, machine))
    (hnext : ∀ result, Follows limit (fun machine => middle (.ok result, machine)) last
      (next result)) :
    Follows limit first last (step' >>= next) := by
  intro machine hend
  have hreach := hstep machine
  rw [run_bind] at hend ⊢
  rcases hrun : step' machine with ⟨abort | result, found⟩ <;> rw [hrun] at hreach hend
  · rw [herror] at hreach
    exact hreach fun hunfinished => hend (congrArg _ (Except.error.inj hunfinished))
  · exact (hreach (ended_ok result found)).trans (hnext result found hend)

/-- An entry that `passes` hands a signal on. -/
theorem step_signal {await : Await} (hpasses : passes await) {value : Value}
    (hvalue : value.isSignal) (machine : Machine) :
    step limit (yielding machine value (await :: waiting)) = yielding machine value waiting := by
  rw [step, hpasses, hvalue]
  rfl

theorem step_value (await : Await) {value : Value} (hvalue : value.isSignal = false)
    (machine : Machine) : step limit (yielding machine value (await :: waiting)) =
      resume limit value waiting machine await := by
  rw [step, hvalue, Bool.and_false]
  rfl

/-- The one rule for all constructs that need a value: a signal is handed on to what is `waiting`,
and with any other value `resume` goes on as `next` does. -/
theorem Follows.thenValue {await : Await} (hpasses : passes await) {signal : Value → α}
    {step' : Eval Value} {next : Value → Eval α}
    (hstep : Follows limit first (after (await :: waiting)) step')
    (herror : ∀ abort machine, giveUp abort machine = last (.error abort, machine))
    (hsignal : ∀ value machine, yielding machine value waiting = last (.ok (signal value), machine))
    (hnext : ∀ value : Value, value.isSignal = false →
      Follows limit (fun machine => resume limit value waiting machine await) last
        (next value.orNull)) :
    Follows limit first last (Walk.needed signal step' next) := by
  refine hstep.bind herror fun value => ?_
  by_cases hvalue : value.isSignal
  · simp only [Value.orNull_of_isSignal hvalue, hvalue, if_true]
    exact .head (step_signal hpasses hvalue) (.pure (hsignal value))
  · rw [Bool.not_eq_true] at hvalue
    simp only [Value.isSignal_orNull, hvalue, Bool.false_eq_true, if_false]
    exact .head (step_value await hvalue) (hnext value hvalue)

end

/-- Calls, started by `invoke`, do what `meaning` says. -/
def CallsFollow (limit : Nat) (meaning : CallMeaning) : Prop :=
  ∀ closure values waiting,
    Follows limit (invoke limit closure values waiting) (after waiting) (meaning closure values)

/-- What comes after the arguments of a call to `closure`: the call itself by `invoke`, if none of
them was a signal. -/
def afterArgs (limit : Nat) (closure : Closure) (values : List Value) (waiting : List Await) :
    Except Abort Arguments × Machine → Moment
  | (.ok (.all more), machine) => invoke limit closure (values ++ more) waiting machine
  | (.ok (.signal value), machine) => yielding machine value waiting
  | (.error abort, machine) => giveUp abort machine

section

variable {limit : Nat} {meaning : CallMeaning} {id : ScopeId}

mutual

/-- **The moments do what the evaluation of a node does**, by induction on `node`.  Each construct
is one use of `Follows.thenValue` for every value it needs. -/
theorem evalNode_follows (hcalls : CallsFollow limit meaning) (node : Node) (waiting : List Await) :
    Follows limit (fun machine => entering machine node id waiting) (after waiting)
      (evalNode meaning node id) := by
  refine .head (fun _ => rfl) ?_
  cases node with
  | hole =>
    rw [evalNode]
    exact .pure fun _ => rfl
  | bare kind =>
    cases kind with
    | unassigned number =>
      rw [evalNode]
      exact .pure fun _ => rfl
    | _ =>
      rw [evalNode]
      · exact .throw fun _ => rfl
      · exact fun _ h => nomatch h
  | letStmt token name value =>
    rw [evalNode_letStmt]
    refine (evalNode_follows hcalls value _).thenValue rfl (fun _ _ => rfl) (fun _ _ => rfl)
      fun value _ => ?_
    intro machine _
    exact .refl
  | returnStmt token value =>
    rw [evalNode_returnStmt]
    refine (evalNode_follows hcalls value _).thenValue rfl (fun _ _ => rfl) (fun _ _ => rfl)
      fun value _ => ?_
    exact .pure fun _ => rfl
  | exprStmt token expr =>
    rw [evalNode]
    exact evalNode_follows hcalls expr waiting
  | block token stmts =>
    rw [evalNode]
    exact evalStmts_follows hcalls stmts .nothing waiting
  | ident name =>
    rw [evalNode]
    intro machine _
    exact .refl
  | number token value =>
    rw [evalNode]
    exact .pure fun _ => rfl
  | text token value =>
    rw [evalNode]
    exact .pure fun _ => rfl
  | boolean token value =>
    rw [evalNode]
    exact .pure fun _ => rfl
  | prefixOp token op right =>
    rw [evalNode_prefixOp]
    refine (evalNode_follows hcalls right _).thenValue rfl (fun _ _ => rfl) (fun _ _ => rfl)
      fun value _ => ?_
    exact .pure fun _ => rfl
  | infixOp token op left right =>
    -- the right operand is found before the left one
    rw [evalNode_infixOp]
    refine (evalNode_follows hcalls right _).thenValue rfl (fun _ _ => rfl) (fun _ _ => rfl)
      fun value _ => ?_
    refine (evalNode_follows hcalls left _).thenValue rfl (fun _ _ => rfl) (fun _ _ => rfl)
      fun value _ => ?_
    exact .pure fun _ => rfl
  | ifElse token cond yes no =>
    rw [evalNode_ifElse]
    refine (evalNode_follows hcalls cond _).thenValue rfl (fun _ _ => rfl) (fun _ _ => rfl)
      fun value _ => ?_
    simp only [resume]
    split
    · exact evalBody_follows hcalls yes waiting
    · split
      · exact .pure fun _ => rfl
      · exact evalBody_follows hcalls no waiting
  | function token params body =>
    rw [evalNode]
    intro machine _
    exact .refl
  | call token callee args =>
    rw [evalNode_call]
    refine (evalNode_follows hcalls callee _).thenValue rfl (fun _ _ => rfl) (fun _ _ => rfl)
      fun value _ => ?_
    simp only [resume]
    -- what is no function is refused before its arguments are looked at
    cases value.orNull with
    | function closure =>
      refine (evalArgs_follows hcalls closure args [] waiting).bind (fun _ _ => rfl) fun given => ?_
      cases given with
      | signal value => exact .pure fun _ => rfl
      | all values => exact hcalls closure values waiting
    | _ => exact .pure fun _ => rfl

theorem evalBody_follows (hcalls : CallsFollow limit meaning) (node : Node) (waiting : List Await) :
    Follows limit (fun machine => block id waiting machine node) (after waiting)
      (evalBody meaning node id) := by
  cases node with
  | block token stmts =>
    rw [evalBody]
    exact evalStmts_follows hcalls stmts .nothing waiting
  | _ =>
    rw [evalBody]
    · exact .throw fun _ => rfl
    · exact fun _ _ h => nomatch h

/-- `Follows` for statements in a row, with the result `last` of those before. -/
theorem evalStmts_follows (hcalls : CallsFollow limit meaning) (stmts : List Node) (last : Value)
    (waiting : List Await) :
    Follows limit (fun machine => row id waiting machine stmts last) (after waiting)
      (evalStmts meaning stmts id last) := by
  cases stmts with
  | nil =>
    rw [evalStmts]
    exact .pure fun _ => rfl
  | cons node more =>
    rw [evalStmts]
    refine (evalNode_follows hcalls node _).bind (fun _ _ => rfl) fun value => ?_
    by_cases hvalue : value.isSignal
    · rw [if_pos hvalue]
      exact .head (step_signal rfl hvalue) (.pure fun _ => rfl)
    · rw [if_neg hvalue]
      rw [Bool.not_eq_true] at hvalue
      exact .head (step_value _ hvalue) (evalStmts_follows hcalls more value waiting)

/-- `Follows` for the arguments `args` that are left, behind the `values` that were found. -/
theorem evalArgs_follows (hcalls : CallsFollow limit meaning) (closure : Closure) (args : List Node)
    (values : List Value) (waiting : List Await) :
    Follows limit (fun machine => arguments limit closure id waiting machine values args)
      (afterArgs limit closure values waiting) (evalArgs meaning args id) := by
  cases args with
  | nil =>
    rw [evalArgs]
    refine .pure fun machine => ?_
    rw [afterArgs, List.append_nil]
    rfl
  | cons node more =>
    rw [evalArgs_cons]
    refine (evalNode_follows hcalls node _).thenValue rfl (fun _ _ => rfl) (fun _ _ => rfl)
      fun value _ => ?_
    -- what was found stands in front, while evaluation puts the arguments together from behind
    refine (evalArgs_follows hcalls closure more (values ++ [value.orNull]) waiting).bind
      (fun _ _ => rfl) fun given => ?_
    cases given with
    | signal value => exact .pure fun _ => rfl
    | all found =>
      refine .pure fun machine => ?_
      rw [afterArgs, afterArgs, List.append_assoc]
      rfl

end

end

/-! ### Calls and runs -/

/-- `bindParams` is one change of the heap, by `Heap.bindParams`. -/
theorem bindParams_apply (id : ScopeId) (params : List Ident) (values : List Value)
    (machine : Machine) : bindParams id params values machine =
      (.ok (), { machine with heap := machine.heap.bindParams id params values }) := by
  induction params generalizing values machine with
  | nil => rfl
  | cons param params ih =>
    have hbind (value : Value) : bindName id param.name value machine =
        (.ok (), { machine with heap := machine.heap.bind id param.name value }) := rfl
    cases values with
    | nil =>
      rw [bindParams, run_bind, hbind]
      exact ih _ _
    | cons value values =>
      rw [bindParams, run_bind, hbind]
      exact ih _ _

/-- What is left of a call to `closure` once its scope `id` is open. -/
def evalOpened (meaning : CallMeaning) (closure : Closure) (id : ScopeId) : Eval Value := do
  return (← evalBody meaning closure.body id).arrived

theorem enter_apply (meaning : CallMeaning) (closure : Closure) (values : List Value)
    (machine : Machine) :
    TreeWalk.enter meaning closure values { machine with depth := machine.depth + 1 } =
      evalOpened meaning closure machine.heap.next (opened closure values machine) := by
  show (bindParams machine.heap.next closure.params values >>= fun _ =>
    evalOpened meaning closure machine.heap.next) _ = _
  rw [run_bind, bindParams_apply]
  rfl

/-- `Follows` for the body of a call, in a machine in which the call is open; the entry `body`
closes it again. -/
theorem evalOpened_follows {limit : Nat} {meaning : CallMeaning}
    (hcalls : CallsFollow limit meaning) (closure : Closure) (id : ScopeId)
    (waiting : List Await) :
    Follows limit (fun machine => block id (.body :: waiting) machine closure.body)
      (fun (ending, machine) => after waiting
        (ending, { machine with depth := machine.depth - 1 }))
      (evalOpened meaning closure id) := by
  refine (evalBody_follows hcalls closure.body _).bind ?_ fun value => ?_
  · exact fun abort machine => rfl
  · exact .head (fun machine => rfl) (.pure fun machine => rfl)

/-- **The moments do what calls do**, by induction on the `room` in which calls may nest. -/
theorem call_follows (limit room : Nat) : CallsFollow limit (call limit room) := by
  induction room with
  | zero =>
    intro closure values waiting machine hend
    by_cases hlimit : atLimit limit machine.depth
    · rw [call_of_atLimit closure values 0 hlimit, invoke, if_pos hlimit]
      exact .refl
    · -- no room is left only where evaluation does not come to its end
      rw [call_zero closure values hlimit] at hend
      exact absurd rfl hend
  | succ room ih =>
    intro closure values waiting machine hend
    by_cases hlimit : atLimit limit machine.depth
    · rw [call_of_atLimit closure values _ hlimit, invoke, if_pos hlimit]
      exact .refl
    · rw [call_succ closure values room hlimit, withOpenCall, enter_apply] at hend ⊢
      rw [invoke, if_neg hlimit]
      exact evalOpened_follows ih closure _ waiting (opened closure values machine) hend

end Moment

namespace Machine

open Moment

/-- What comes after a program: the end of the run. -/
def afterProgram : Ending × Machine → Moment
  | (.ok value, machine) => halted (.ok value, machine)
  | (.error abort, machine) => giveUp abort machine

/-- **A run that comes to its end does so by its moments**: from `start` they reach the result of
`Machine.run`. -/
theorem run_reached (machine : Machine) {limit : Nat} {program : Program} {id : ScopeId}
    (hend : (machine.run limit program id).1 ≠ .error .unfinished) :
    Reaches limit (start machine program id) (halted (machine.run limit program id)) := by
  have hprogram : Follows limit (fun machine => row id [] machine program .nothing) afterProgram
      (evalProgram (call limit (room limit)) program id) := by
    refine (evalStmts_follows (call_follows limit (room limit)) program .nothing []).bind ?_ ?_
    · exact fun abort machine => rfl
    · exact fun value => .head (fun machine => rfl) (.pure fun machine => rfl)
  have hreach := hprogram machine.idle
  rw [run, evaluate] at hend ⊢
  generalize evalProgram (call limit (room limit)) program id machine.idle = result
    at hend hreach ⊢
  rcases result with ⟨abort | value, last⟩
  · exact hreach hend
  · exact hreach hend

end Machine

end TreeWalk
