import TreeWalk.Session

/-!
# The walk with other steps

The walk through a tree is made of a few kinds of steps: it gives up, binds a name, reads one, makes
a function, opens a scope, calls.  This module tells the walk once more, with these steps as
parameters and in any monad.  With the steps of evaluation it is the walk of evaluation; with others
it observes what evaluation does not tell, such as how deeply calls nest.

## Main definitions

* `Steps` — the steps of a walk, in a monad of their own.
* `Walk.node`, `Walk.enter`, `Walk.program` — the walk with given steps.

## Main results

* `evalNode_eq_walk`, `enter_eq_walk` — evaluation is the walk with the steps of evaluation.
-/

namespace TreeWalk

/-- The steps that a walk is made of, in a monad of their own.  Calls are not among them: a walk
takes what it does at a call as an argument. -/
structure Steps (m : Type → Type) where
  /-- Gives up at a node that lacks what its kind promises. -/
  stuck : m Value
  /-- Binds a name in a scope. -/
  bindName : ScopeId → Bytes → Value → m Unit
  /-- The value of a name as a scope sees it. -/
  readName : ScopeId → Bytes → m Value
  /-- Makes a function. -/
  newFunction : List Ident → Node → Option ScopeId → m Value
  /-- Opens a scope, inside another one or on its own, and yields its number. -/
  openScope : Option ScopeId → m ScopeId

/-- The steps with which a walk is evaluation, as `evalNode_eq_walk` says. -/
def Eval.steps : Steps Eval where
  stuck := throw .stuck
  bindName := TreeWalk.bindName
  readName := TreeWalk.readName
  newFunction := TreeWalk.newFunction
  openScope outer := do
    let id := (← get).heap.next
    modify fun machine => { machine with heap := machine.heap.push outer }
    return id

namespace Walk

section

variable {m : Type → Type} [Monad m] (steps : Steps m) (call : Closure → List Value → m Value)

/-- Goes on with the value of a step where a value is needed: `Value.orNull` of it, unless it is a
signal, which `signal` hands on at once. -/
def needed {α : Type} (signal : Value → α) (step : m Value) (next : Value → m α) : m α := do
  let value := (← step).orNull
  if value.isSignal then return signal value
  next value

/-- Calls a value with arguments if it is a function; anything else gives the fault that it cannot
be called, and the arguments are not evaluated. -/
def callValue (callee : Value) (args : m Arguments) : m Value :=
  match callee with
  | .function closure => do
    match ← args with
    | .signal value => return value
    | .all values => call closure values
  | _ => return .error (.notFunction callee.typeLabel)

mutual

/-- Walks through a node in a scope, as `evalNode` does. -/
def node : Node → ScopeId → m Value
  | .hole, _ => return .nothing
  | .bare (.unassigned _), _ => return .nothing
  | .bare _, _ => steps.stuck
  | .letStmt _ name value, id => needed (·) (node value id) fun value => do
    steps.bindName id name.name value
    return .nothing
  | .returnStmt _ value, id => needed (·) (node value id) fun value => return .pending value
  | .exprStmt _ expr, id => node expr id
  | .block _ nodes, id => stmts nodes id .nothing
  | .ident name, id => steps.readName id name.name
  | .number _ value, _ => return .number value
  | .text _ value, _ => return .text value
  | .boolean _ value, _ => return .boolean value
  | .prefixOp _ op right, id => needed (·) (node right id) fun right =>
    return Value.applyPrefix op right
  | .infixOp _ op left right, id =>
    needed (·) (node right id) fun right =>
    needed (·) (node left id) fun left =>
    return Value.applyInfix op left right
  | .ifElse _ cond yes no, id => needed (·) (node cond id) fun cond =>
    if cond.isTruthy then body yes id
    else if no.isHole then return .null
    else body no id
  | .function _ params body, id => steps.newFunction params body (some id)
  | .call _ callee nodes, id => needed (·) (node callee id) fun callee =>
    callValue call callee (args nodes id)

/-- Walks through a node that has to be a block, as `evalBody` does. -/
def body : Node → ScopeId → m Value
  | .block _ nodes, id => stmts nodes id .nothing
  | _, _ => steps.stuck

/-- Walks through statements in a row up to the first signal, as `evalStmts` does; `last` is the
result so far. -/
def stmts : List Node → ScopeId → Value → m Value
  | [], _, last => return last
  | first :: more, id, _ => do
    let value ← node first id
    if value.isSignal then return value
    stmts more id value

/-- Walks through arguments from left to right up to the first signal, as `evalArgs` does. -/
def args : List Node → ScopeId → m Arguments
  | [], _ => return .all []
  | first :: more, id => needed Arguments.signal (node first id) fun value => do
    match ← args more id with
    | .signal value => return .signal value
    | .all values => return .all (value :: values)

end

/-- Binds parameters to arguments, as `bindParams` does: missing arguments are null, and those that
are too many are left out. -/
def params (id : ScopeId) : List Ident → List Value → m Unit
  | [], _ => return ()
  | param :: more, [] => do
    steps.bindName id param.name .null
    params id more []
  | param :: more, value :: values => do
    steps.bindName id param.name value
    params id more values

/-- Walks through the body of a function in a new scope inside the one it was made in, as `enter`
does. -/
def enter (closure : Closure) (values : List Value) : m Value := do
  let id ← steps.openScope closure.scope
  params steps id closure.params values
  return (← body steps call closure.body id).arrived

/-- Walks through the statements of a program, as `evalProgram` does. -/
def program (nodes : Program) (id : ScopeId) : m Value := do
  return (← stmts steps call nodes id .nothing).arrived

end

end Walk

/-! ### Evaluation is a walk -/

section

variable (call : CallMeaning) (token : Token) (id : ScopeId)

theorem evalNode_letStmt (name : Ident) (value : Node) :
    evalNode call (.letStmt token name value) id =
      Walk.needed (·) (evalNode call value id) fun value => do
        bindName id name.name value
        return .nothing := by
  rw [evalNode]
  rfl

theorem evalNode_returnStmt (value : Node) :
    evalNode call (.returnStmt token value) id =
      Walk.needed (·) (evalNode call value id) fun value => return .pending value := by
  rw [evalNode]
  rfl

theorem evalNode_prefixOp (op : Bytes) (right : Node) :
    evalNode call (.prefixOp token op right) id =
      Walk.needed (·) (evalNode call right id) fun right => return Value.applyPrefix op right := by
  rw [evalNode]
  rfl

theorem evalNode_infixOp (op : Bytes) (left right : Node) :
    evalNode call (.infixOp token op left right) id =
      Walk.needed (·) (evalNode call right id) fun right =>
      Walk.needed (·) (evalNode call left id) fun left =>
      return Value.applyInfix op left right := by
  rw [evalNode]
  rfl

theorem evalNode_ifElse (cond yes no : Node) :
    evalNode call (.ifElse token cond yes no) id =
      Walk.needed (·) (evalNode call cond id) fun cond =>
      if cond.isTruthy then evalBody call yes id
      else if no.isHole then return .null
      else evalBody call no id := by
  rw [evalNode]
  rfl

theorem evalNode_call (callee : Node) (args : List Node) :
    evalNode call (.call token callee args) id =
      Walk.needed (·) (evalNode call callee id) fun callee =>
      Walk.callValue call callee (evalArgs call args id) := by
  rw [evalNode]
  rfl

theorem evalArgs_cons (node : Node) (more : List Node) :
    evalArgs call (node :: more) id =
      Walk.needed Arguments.signal (evalNode call node id) fun value => do
        match ← evalArgs call more id with
        | .signal value => return .signal value
        | .all values => return .all (value :: values) := by
  rw [evalArgs]
  rfl

end

section

variable (call : CallMeaning) (id : ScopeId)

mutual

/-- **Evaluation is a walk**: `evalNode` is `Walk.node` with the steps `Eval.steps`. -/
theorem evalNode_eq_walk (node : Node) :
    evalNode call node id = Walk.node Eval.steps call node id := by
  cases node with
  | bare kind =>
    cases kind with
    | unassigned number => rw [evalNode, Walk.node]
    | _ =>
      rw [evalNode, Walk.node]
      · rfl
      -- the other kinds are not the one that has a value
      all_goals simp
  | letStmt token name value =>
    rw [evalNode_letStmt, Walk.node, evalNode_eq_walk value]
    rfl
  | returnStmt token value =>
    rw [evalNode_returnStmt, Walk.node, evalNode_eq_walk value]
  | exprStmt token expr => rw [evalNode, Walk.node, evalNode_eq_walk expr]
  | block token stmts => rw [evalNode, Walk.node, evalStmts_eq_walk stmts]
  | prefixOp token op right =>
    rw [evalNode_prefixOp, Walk.node, evalNode_eq_walk right]
  | infixOp token op left right =>
    rw [evalNode_infixOp, Walk.node, evalNode_eq_walk left, evalNode_eq_walk right]
  | ifElse token cond yes no =>
    rw [evalNode_ifElse, Walk.node, evalNode_eq_walk cond, evalBody_eq_walk yes,
      evalBody_eq_walk no]
  | call token callee args =>
    rw [evalNode_call, Walk.node, evalNode_eq_walk callee, evalArgs_eq_walk args]
  | ident | function =>
    rw [evalNode, Walk.node]
    rfl
  | _ => rw [evalNode, Walk.node]

theorem evalBody_eq_walk (node : Node) :
    evalBody call node id = Walk.body Eval.steps call node id := by
  cases node with
  | block token stmts => rw [evalBody, Walk.body, evalStmts_eq_walk stmts]
  | _ =>
    rw [evalBody, Walk.body]
    · rfl
    all_goals simp

theorem evalStmts_eq_walk (stmts : List Node) (last : Value) :
    evalStmts call stmts id last = Walk.stmts Eval.steps call stmts id last := by
  cases stmts with
  | nil => rw [evalStmts, Walk.stmts]
  | cons node more =>
    rw [evalStmts, Walk.stmts, evalNode_eq_walk node]
    simp only [evalStmts_eq_walk more]

theorem evalArgs_eq_walk (args : List Node) :
    evalArgs call args id = Walk.args Eval.steps call args id := by
  cases args with
  | nil => rw [evalArgs, Walk.args]
  | cons node more =>
    rw [evalArgs_cons, Walk.args, evalNode_eq_walk node, evalArgs_eq_walk more]

end

theorem bindParams_eq_walk (params : List Ident) (values : List Value) :
    bindParams id params values = Walk.params Eval.steps id params values := by
  fun_induction bindParams id params values with
  | case1 values => rw [Walk.params]
  | case2 param params ih =>
    rw [Walk.params, ih]
    rfl
  | case3 param params value values ih =>
    rw [Walk.params, ih]
    rfl

theorem enter_eq_walk (closure : Closure) (values : List Value) :
    enter call closure values = Walk.enter Eval.steps call closure values := by
  rw [enter, Walk.enter]
  simp only [bindParams_eq_walk, evalBody_eq_walk]
  rfl

theorem evalProgram_eq_walk (program : Program) :
    evalProgram call program id = Walk.program Eval.steps call program id := by
  rw [evalProgram, Walk.program, evalStmts_eq_walk]

end

end TreeWalk
