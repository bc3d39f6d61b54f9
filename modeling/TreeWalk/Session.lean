import TreeWalk.Eval
import TreeWalk.Tree.Parse

/-!
# Sessions

A session is an evaluator with its limit, a machine that keeps everything bound so far, and the
scope in which the next program runs.

## Main definitions

* `Machine.eval`, `Machine.evaluate`, `Machine.run` — the three ways to run something.
* `Session` — a machine with a limit and a current scope.
* `Session.enclose`, `Session.leave?`, `Session.enter?` — moving between scopes.
-/

namespace TreeWalk

/-- How an evaluation ended: with an `Abort`, or with a value. -/
abbrev Ending := Except Abort Value

namespace Machine

/-- A machine with one scope, which holds nothing; its number is zero. -/
def fresh : Machine := ⟨Heap.empty.push none, 0, 0⟩

/-- The machine with no open call; heap and stamps are kept. -/
def idle (machine : Machine) : Machine := { machine with depth := 0 }

/-- Evaluates one `node` in the scope `id` from where the machine is; open calls stay open. -/
def eval (limit : Nat) (node : Node) (id : ScopeId) (machine : Machine) : Ending × Machine :=
  evalNode (call limit (room limit)) node id machine

/-- Evaluates a `program` in the scope `id` with `evalProgram` from where the machine is; open calls
stay open. -/
def evaluate (limit : Nat) (program : Program) (id : ScopeId) (machine : Machine) :
    Ending × Machine :=
  evalProgram (call limit (room limit)) program id machine

/-- Runs a `program` from the outermost level: the machine is `idle` before it, and made so again if
the program was given up. -/
def run (limit : Nat) (program : Program) (id : ScopeId) (machine : Machine) : Ending × Machine :=
  match machine.idle.evaluate limit program id with
  | (.ok value, after) => (.ok value, after)
  | (.error abort, after) => (.error abort, after.idle)

end Machine

/-- An evaluator at work. -/
structure Session where
  /-- The most calls that may be open at once; zero for no limit. -/
  limit : Nat
  /-- Everything made so far. -/
  machine : Machine
  /-- The scope in which the next program runs. -/
  scope : ScopeId
  deriving Inhabited

namespace Session

/-- A session with the given `limit` in a scope that holds nothing. -/
def start (limit : Nat) : Session := ⟨limit, .fresh, 0⟩

/-- Takes over the machine that an evaluation leaves as it is. -/
def settle (session : Session) (ending : Ending × Machine) : Ending × Session :=
  (ending.1, { session with machine := ending.2 })

/-- Runs `program` in the current scope with `Machine.run`. -/
def run (session : Session) (program : Program) : Ending × Session :=
  session.settle (session.machine.run session.limit program session.scope)

/-- Evaluates `program` in the current scope with `Machine.evaluate`. -/
def evaluate (session : Session) (program : Program) : Ending × Session :=
  session.settle (session.machine.evaluate session.limit program session.scope)

/-- Evaluates `node` in the current scope with `Machine.eval`. -/
def eval (session : Session) (node : Node) : Ending × Session :=
  session.settle (session.machine.eval session.limit node session.scope)

/-- Takes over what an evaluator of its own leaves: everything but the number of open calls, which
stays that of `session`. -/
def settleApart (session : Session) (ending : Ending × Machine) : Ending × Session :=
  (ending.1,
    { session with machine := { ending.2 with depth := session.machine.depth } })

/-- Evaluates `program` in the current scope with an evaluator of its own that has no limit. -/
def evaluateFreely (session : Session) (program : Program) : Ending × Session :=
  session.settleApart (session.machine.idle.evaluate 0 program session.scope)

/-- Evaluates `node` in the current scope with an evaluator of its own that has no limit. -/
def evalFreely (session : Session) (node : Node) : Ending × Session :=
  session.settleApart (session.machine.idle.eval 0 node session.scope)

/-- A function that was made in no scope; its `Closure.scope` is `none`. -/
def newFunction (session : Session) (params : List Ident) (body : Node) : Value × Session :=
  let machine := session.machine
  (.function ⟨machine.stamps, params, body, none⟩,
    { session with machine := { machine with stamps := machine.stamps + 1 } })

/-- Binds `name` in the current scope. -/
def bind (session : Session) (name : Bytes) (value : Value) : Session :=
  let machine := session.machine
  { session with
    machine := { machine with heap := machine.heap.bind session.scope name value } }

/-- The value of `name` as the current scope sees it, that is `Heap.lookup`. -/
def lookup (session : Session) (name : Bytes) : Option Value :=
  session.machine.heap.lookup name session.scope

/-- The names bound in the current scope itself. -/
def names (session : Session) : List Bytes := session.machine.heap.names session.scope

/-- The bindings of the current scope itself. -/
def bindings (session : Session) : Bindings := session.machine.heap.bindings session.scope

/-- The current scope and the scopes around it. -/
def describe (session : Session) : Bytes := session.machine.heap.describe session.scope

/-- Moves into a new scope inside the current one. -/
def enclose (session : Session) : Session :=
  let machine := session.machine
  { session with
    machine := { machine with heap := machine.heap.push (some session.scope) }
    scope := machine.heap.next }

/-- Moves to the scope around the current one, if `Heap.outer?` knows one. -/
def leave? (session : Session) : Option Session :=
  (session.machine.heap.outer? session.scope).map fun outer => { session with scope := outer }

/-- Moves to the scope in which the function called `name` was made, if it is a function and was
made in a scope. -/
def enter? (session : Session) (name : Bytes) : Option Session :=
  match session.lookup name with
  | some (.function closure) => closure.scope.map fun scope => { session with scope }
  | _ => none

end Session

end TreeWalk
