import TreeWalk.Operator
import TreeWalk.Scope

/-!
# Evaluation

Trees are evaluated by walking them.  The meaning of a tree depends on the meaning of calls, since
the body of a called function is found on the heap and is no part of the tree; so the walk takes
the meaning of calls as a parameter (`evalNode call`), and calls are given a meaning by recursion
on how deeply they may still nest (`call`).  Both recursions are structural.

Errors and pending returns are results like any other: every construct looks at each result it
receives and hands a signal on unchanged.  What cannot be handed on as a result ends the whole
evaluation at once: a call nested more deeply than the limit allows (`Abort.tooDeep`), a node that
lacks what its kind promises (`Abort.stuck`), and a nesting that outgrows the bound of an
evaluation without a limit (`Abort.unfinished`).  Even then everything bound so far stays bound.

## Main definitions

* `Machine` — the heap, the stamps given so far, and the number of open calls.
* `Abort` — why an evaluation was given up.
* `evalNode`, `evalStmts`, `evalArgs` — the walk.
* `call` — the meaning of calls.
* `evalProgram` — the statements of a program.
-/

namespace TreeWalk

/-- The state of an evaluation. -/
structure Machine where
  /-- The scopes. -/
  heap : Heap
  /-- The stamp the next function gets. -/
  stamps : Nat
  /-- The number of open calls. -/
  depth : Nat
  deriving Inhabited

/-- Why an evaluation was given up. -/
inductive Abort
  /-- A call would nest more deeply than the limit allows. -/
  | tooDeep (limit : Nat)
  /-- A node lacks what its kind promises. -/
  | stuck
  /-- Calls nest more deeply than an evaluation without a limit follows. -/
  | unfinished
  deriving DecidableEq, Repr

/-- The wording of an `Abort`. -/
def Abort.message : Abort → Bytes
  | tooDeep limit => utf8 "maximum call depth exceeded (" ++ Bytes.ofNat limit ++ utf8 ")"
  | stuck => utf8 "malformed tree"
  | unfinished => utf8 "evaluation does not end"

/-- A step of evaluation: it changes the machine, and ends with a result or an abort. -/
abbrev Eval := ExceptT Abort (StateM Machine)

/-- The meaning of calls: what calling a function with arguments does.  `evalNode` takes it as
given, and `call` closes the circle. -/
abbrev CallMeaning := Closure → List Value → Eval Value

/-- Binds `name` in the scope `id` itself, whatever the scopes around it bind. -/
def bindName (id : ScopeId) (name : Bytes) (value : Value) : Eval Unit :=
  modify fun machine => { machine with heap := machine.heap.bind id name value }

/-- The value of `name` as the scope `id` sees it; an unbound name is the error `Fault.unbound`. -/
def readName (id : ScopeId) (name : Bytes) : Eval Value := do
  let machine ← get
  return (machine.heap.lookup name id).getD (.error (.unbound name))

/-- A new function, with the next stamp of the machine, so that `Value.same` tells it from every
other. -/
def newFunction (params : List Ident) (body : Node) (scope : Option ScopeId) : Eval Value := do
  let stamp := (← get).stamps
  modify fun machine => { machine with stamps := machine.stamps + 1 }
  return .function ⟨stamp, params, body, scope⟩

/-- What the arguments of a call amount to. -/
inductive Arguments
  /-- All values. -/
  | all (values : List Value)
  /-- The first signal among them. -/
  | signal (value : Value)

mutual

/-- Evaluates a node in the scope `id`; functions are called by `call`.  A part whose value is a
signal ends the node with that signal.  The right operand of an operator comes before the left
one. -/
def evalNode (call : CallMeaning) : Node → ScopeId → Eval Value
  | .hole, _ => return .nothing
  | .bare (.unassigned _), _ => return .nothing
  | .bare _, _ => throw .stuck
  | .letStmt _ name value, id => do
    let value := (← evalNode call value id).orNull
    if value.isSignal then return value
    bindName id name.name value
    return .nothing
  | .returnStmt _ value, id => do
    let value := (← evalNode call value id).orNull
    if value.isSignal then return value
    return .pending value
  | .exprStmt _ expr, id => evalNode call expr id
  | .block _ stmts, id => evalStmts call stmts id .nothing
  | .ident name, id => readName id name.name
  | .number _ value, _ => return .number value
  | .text _ value, _ => return .text value
  | .boolean _ value, _ => return .boolean value
  | .prefixOp _ op right, id => do
    let right := (← evalNode call right id).orNull
    if right.isSignal then return right
    return Value.applyPrefix op right
  | .infixOp _ op left right, id => do
    let right := (← evalNode call right id).orNull
    if right.isSignal then return right
    let left := (← evalNode call left id).orNull
    if left.isSignal then return left
    return Value.applyInfix op left right
  | .ifElse _ cond yes no, id => do
    let cond := (← evalNode call cond id).orNull
    if cond.isSignal then return cond
    if cond.isTruthy then evalBody call yes id
    else if no.isHole then return .null
    else evalBody call no id
  | .function _ params body, id => newFunction params body (some id)
  | .call _ callee args, id => do
    let callee := (← evalNode call callee id).orNull
    if callee.isSignal then return callee
    match callee with
    | .function closure =>
      match ← evalArgs call args id with
      | .signal value => return value
      | .all values => call closure values
    | _ => return .error (.notFunction callee.typeLabel)

/-- Evaluates a node that has to be a block, and is `Abort.stuck` on any other. -/
def evalBody (call : CallMeaning) : Node → ScopeId → Eval Value
  | .block _ stmts, id => evalStmts call stmts id .nothing
  | _, _ => throw .stuck

/-- Evaluates statements in a row, up to the first result with `Value.isSignal`; `last` is the
result so far. -/
def evalStmts (call : CallMeaning) : List Node → ScopeId → Value → Eval Value
  | [], _, last => return last
  | node :: more, id, _ => do
    let value ← evalNode call node id
    if value.isSignal then return value
    evalStmts call more id value

/-- Evaluates arguments from left to right, up to the first one with `Value.isSignal`. -/
def evalArgs (call : CallMeaning) : List Node → ScopeId → Eval Arguments
  | [], _ => return .all []
  | node :: more, id => do
    let value := (← evalNode call node id).orNull
    if value.isSignal then return .signal value
    match ← evalArgs call more id with
    | .signal value => return .signal value
    | .all values => return .all (value :: values)

end

/-- Binds parameters to arguments in the scope `id`.  A parameter without an argument is null, and
an argument without a parameter is dropped; of two parameters of one name the later one counts. -/
def bindParams (id : ScopeId) : List Ident → List Value → Eval Unit
  | [], _ => return ()
  | param :: params, [] => do
    bindName id param.name .null
    bindParams id params []
  | param :: params, value :: values => do
    bindName id param.name value
    bindParams id params values

/-- Runs `step` with one more open call, which is closed again however it ends. -/
def withOpenCall {α : Type} (step : Eval α) : Eval α := fun machine =>
  let (ending, after) := step { machine with depth := machine.depth + 1 }
  (ending, { after with depth := after.depth - 1 })

/-- Evaluates the body of `closure` in a new scope inside the one it was made in.  A return in the
body arrives here. -/
def enter (call : CallMeaning) (closure : Closure) (values : List Value) : Eval Value := do
  let id := (← get).heap.next
  modify fun machine => { machine with heap := machine.heap.push closure.scope }
  bindParams id closure.params values
  return (← evalBody call closure.body id).arrived

/-- Whether one more call would nest more deeply than `limit` allows when `depth` calls are open.  A
limit of zero is no limit. -/
def atLimit (limit depth : Nat) : Bool := 0 < limit && limit ≤ depth

/-- The meaning of calls that may nest `room` levels below the open ones: `Abort.tooDeep` where
`atLimit` holds, else `enter` with one level less. -/
def call (limit : Nat) : Nat → CallMeaning
  | room, closure, values => fun machine =>
    if atLimit limit machine.depth then (.error (.tooDeep limit), machine)
    else match room with
      | 0 => (.error .unfinished, machine)
      | room + 1 => withOpenCall (enter (call limit room) closure values) machine

/-- How deeply `call` follows calls: up to `limit`, or without one as deeply as any limit in a
signed word would allow, which is deeper than any memory does. -/
def room (limit : Nat) : Nat := if limit = 0 then Nat.pow 2 63 else limit

/-- Evaluates the statements of `program` in the scope `id`.  A return outside a function ends the
program. -/
def evalProgram (call : CallMeaning) (program : Program) (id : ScopeId) : Eval Value := do
  return (← evalStmts call program id .nothing).arrived

end TreeWalk
