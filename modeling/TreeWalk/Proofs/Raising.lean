import TreeWalk.Proofs.PlainStore

/-!
# Signals as values and signals raised

A second evaluator, in which an error or a return is raised: it leaves every construct around it at
once, so that no construct has to look at what it receives.  A raised return is caught by the
nearest call around it or by the program, and a raised error by the program alone.  The two
evaluators agree wherever the scopes in reach hold plain values only: what the one yields as a
signal the other one raises, and all scopes end up the same.

The second evaluator keeps no count of open calls either; how deeply calls may still nest is part of
the meaning of calls.

## Main definitions

* `Raised`, `Raising` — what is raised, and steps that may raise it.
* `Raising.evalNode`, `Raising.call`, `Raising.evalProgram` — the second evaluator.
* `Value.settled` — a result as it looks to one who raises signals.
* `Agrees` — two steps, one of each evaluator, do the same.
* `Heap.Reaches` — the scopes that links and functions lead to from a scope.

## Main results

* `evalNode_agrees`, `call_agrees` — **the two evaluators do the same.**
* `Machine.eval_agrees_with_raising` — the same in terms of what the evaluation of a node ends with.
-/

namespace TreeWalk

/-! ### The second evaluator -/

/-- What a step of the second evaluator can raise. -/
inductive Raised
  /-- A run-time error. -/
  | error (fault : Fault)
  /-- A return, with the value it carries. -/
  | returned (value : Value)
  /-- The whole evaluation is given up. -/
  | abort (reason : Abort)

/-- What evaluation changes: the scopes, and the stamps given so far. -/
structure Store where
  /-- The scopes. -/
  heap : Heap
  /-- The stamp the next function gets. -/
  stamps : Nat

/-- What a machine has in store: all of it but `Machine.depth`, the number of open calls. -/
def Machine.store (machine : Machine) : Store := ⟨machine.heap, machine.stamps⟩

/-- A step of the second evaluator: it changes the `Store`, and ends with a result or raises
something. -/
abbrev Raising := ExceptT Raised (StateM Store)

namespace Raising

/-- Binds a name in a scope. -/
def bindName (id : ScopeId) (name : Bytes) (value : Value) : Raising Unit :=
  modify fun store => { store with heap := store.heap.bind id name value }

/-- The value of a name as a scope sees it; an unknown name is raised as an error. -/
def readName (id : ScopeId) (name : Bytes) : Raising Value := do
  match (← get).heap.lookup name id with
  | some value => return value
  | none => throw (.error (.unbound name))

/-- A new function, with a stamp of its own. -/
def newFunction (params : List Ident) (body : Node) (scope : Option ScopeId) : Raising Value := do
  let stamp := (← get).stamps
  modify fun store => { store with stamps := store.stamps + 1 }
  return .function ⟨stamp, params, body, scope⟩

/-- The result of an operator; an error that `Value.applyPrefix` or `Value.applyInfix` yields is
raised. -/
def operated : Value → Raising Value
  | .error fault => throw (.error fault)
  | value => return value

/-- The result of a step where a value is needed: nothing reads as null (`Value.orNull`). -/
def asValue (step : Raising Value) : Raising Value := do
  return (← step).orNull

/-- Catches a return that is raised in a step; everything else that is raised goes on. -/
def catchReturn (step : Raising Value) : Raising Value := fun store =>
  match step store with
  | (.error (.returned value), after) => (.ok value, after)
  | ending => ending

mutual

/-- Evaluates a node in a scope; signals are raised and never looked for. -/
def evalNode (call : Closure → List Value → Raising Value) : Node → ScopeId → Raising Value
  | .hole, _ => return .nothing
  | .bare (.unassigned _), _ => return .nothing
  | .bare _, _ => throw (.abort .stuck)
  | .letStmt _ name value, id => do
    let value ← asValue (evalNode call value id)
    bindName id name.name value
    return .nothing
  | .returnStmt _ value, id => do
    let value ← asValue (evalNode call value id)
    throw (.returned value)
  | .exprStmt _ expr, id => evalNode call expr id
  | .block _ stmts, id => evalStmts call stmts id .nothing
  | .ident name, id => readName id name.name
  | .number _ value, _ => return .number value
  | .text _ value, _ => return .text value
  | .boolean _ value, _ => return .boolean value
  | .prefixOp _ op right, id => do
    let right ← asValue (evalNode call right id)
    operated (Value.applyPrefix op right)
  | .infixOp _ op left right, id => do
    let right ← asValue (evalNode call right id)
    let left ← asValue (evalNode call left id)
    operated (Value.applyInfix op left right)
  | .ifElse _ cond yes no, id => do
    let cond ← asValue (evalNode call cond id)
    if cond.isTruthy then evalBody call yes id
    else if no.isHole then return .null
    else evalBody call no id
  | .function _ params body, id => newFunction params body (some id)
  | .call _ callee args, id => do
    match ← asValue (evalNode call callee id) with
    | .function closure => do
      let values ← evalArgs call args id
      call closure values
    | other => throw (.error (.notFunction other.typeLabel))

/-- Evaluates a node that has to be a block. -/
def evalBody (call : Closure → List Value → Raising Value) : Node → ScopeId → Raising Value
  | .block _ stmts, id => evalStmts call stmts id .nothing
  | _, _ => throw (.abort .stuck)

/-- Evaluates statements in a row; `last` is the result so far. -/
def evalStmts (call : Closure → List Value → Raising Value) :
    List Node → ScopeId → Value → Raising Value
  | [], _, last => return last
  | node :: more, id, _ => do
    let value ← evalNode call node id
    evalStmts call more id value

/-- Evaluates arguments from left to right. -/
def evalArgs (call : Closure → List Value → Raising Value) :
    List Node → ScopeId → Raising (List Value)
  | [], _ => return []
  | node :: more, id => do
    let value ← asValue (evalNode call node id)
    let values ← evalArgs call more id
    return value :: values

end

/-- Binds parameters to arguments; a parameter without an argument is null. -/
def bindParams (id : ScopeId) : List Ident → List Value → Raising Unit
  | [], _ => return ()
  | param :: params, values => do
    bindName id param.name (values.headD .null)
    bindParams id params values.tail

/-- Evaluates the body of a function in a new scope inside the one it was made in, and catches a
return in it (`catchReturn`). -/
def enter (call : Closure → List Value → Raising Value) (closure : Closure) (values : List Value) :
    Raising Value := do
  let id := (← get).heap.next
  modify fun store => { store with heap := store.heap.push closure.scope }
  bindParams id closure.params values
  catchReturn (evalBody call closure.body id)

/-- The meaning of calls that may nest `room` levels; below the last one the evaluation is given
up. -/
def call (limit : Nat) : Nat → Closure → List Value → Raising Value
  | 0, _, _ => throw (.abort (.tooDeep limit))
  | room + 1, closure, values => enter (call limit room) closure values

/-- Evaluates the statements of a program in a scope.  Everything that is raised is caught, except
that the evaluation is given up. -/
def evalProgram (call : Closure → List Value → Raising Value) (program : Program) (id : ScopeId)
    (store : Store) : Ending × Store :=
  match evalStmts call program id .nothing store with
  | (.ok value, after) => (.ok value, after)
  | (.error (.returned value), after) => (.ok value, after)
  | (.error (.error fault), after) => (.ok (.error fault), after)
  | (.error (.abort reason), after) => (.error reason, after)

end Raising

/-! ### Steps that do the same -/

/-- A result as it looks to one who raises signals: `Value.error` and `Value.pending` are raised,
and every other value is a result. -/
def Value.settled : Value → Except Raised Value
  | error fault => .error (.error fault)
  | pending value => .error (.returned value)
  | value => .ok value

/-- Arguments as they look to one who raises signals: those that end with a signal raise it. -/
def Arguments.settled : Arguments → Except Raised (List Value)
  | all values => .ok values
  | signal value => value.settled.map fun value => [value]

theorem Value.PlainIn.settled_eq {S : ScopeId → Prop} {value : Value} (h : value.PlainIn S) :
    value.settled = .ok value := by
  cases value with
  | error | pending => exact h.elim
  | _ => rfl

/-- How an evaluation by signals ends, as it looks to one who raises them; results are seen through
`view`. -/
def settle {α β : Type} (view : α → Except Raised β) : Except Abort α → Except Raised β
  | .ok result => view result
  | .error reason => .error (.abort reason)

/-- On machines with the property `P`, the step `other` of the second evaluator does the same as
`step`: it leaves the same in store, and ends as `settle view` has it. -/
def Agrees {α β : Type} (P : Machine → Prop) (view : α → Except Raised β) (step : Eval α)
    (other : Raising β) : Prop :=
  ∀ machine, P machine →
    other machine.store = (settle view (step machine).1, (step machine).2.store)

namespace Agrees

variable {α β γ δ : Type} {P P' : Machine → Prop} {Q : α → Prop} {view : α → Except Raised β}
  {view' : γ → Except Raised δ}

theorem pure {result : α} {other : β} (h : view result = .ok other) :
    Agrees P view (Pure.pure result) (Pure.pure other) :=
  fun _ _ => Prod.ext h.symm rfl

/-- A signal that is yielded by the one is raised by the other. -/
theorem raise {result : α} {raised : Raised} (h : view result = .error raised) :
    Agrees P view (Pure.pure result) (throw raised) :=
  fun _ _ => Prod.ext h.symm rfl

theorem abort (reason : Abort) : Agrees P view (throw reason) (throw (.abort reason)) :=
  fun _ _ => rfl

/-- Two steps in a row do the same if what follows a result does the same as what follows the result
that it looks like, and what follows a signal hands it on. -/
theorem bind {step : Eval α} {other : Raising β} {next : α → Eval γ} {next' : β → Raising δ}
    (h : Agrees P view step other) (hkeeps : Keeps P Q step)
    (hnext : ∀ result result', Q result → view result = .ok result' →
      Agrees P view' (next result) (next' result'))
    (hraised : ∀ result raised, Q result → view result = .error raised →
      Agrees P view' (next result) (throw raised)) :
    Agrees P view' (step >>= next) (other >>= next') := by
  intro machine hmachine
  obtain ⟨hafter, hresult⟩ := hkeeps machine hmachine
  rw [run_bind, run_bind, h machine hmachine]
  rcases hrun : step machine with ⟨_ | result, after⟩
  · rfl
  · rw [hrun] at hafter hresult
    rcases hview : view result with raised | result'
    · simp only [settle, hview]
      exact hraised result raised (hresult result rfl) hview after hafter
    · simp only [settle, hview]
      exact hnext result result' (hresult result rfl) hview after hafter

theorem get : Agrees P (fun machine => .ok machine.store) (MonadState.get : Eval Machine)
    (MonadState.get : Raising Store) :=
  fun _ _ => rfl

theorem modify {change : Machine → Machine} {change' : Store → Store}
    (h : ∀ machine, change' machine.store = (change machine).store) :
    Agrees P .ok (modify change : Eval PUnit) (modify change' : Raising PUnit) :=
  fun machine _ => Prod.ext rfl (h machine)

/-- The number of open calls (`Machine.depth`) is nothing that the second evaluator sees. -/
theorem withOpenCall {step : Eval α} {other : Raising β} (h : Agrees P' view step other)
    (hopen : ∀ machine : Machine, P machine → P' { machine with depth := machine.depth + 1 }) :
    Agrees P view (TreeWalk.withOpenCall step) other :=
  fun machine hmachine => h _ (hopen machine hmachine)

end Agrees

section

variable {S : ScopeId → Prop} {P : Machine → Prop}

theorem Value.not_isSignal_of_settled {value value' : Value} (h : value.settled = .ok value') :
    value = value' ∧ ¬ value.isSignal := by
  cases value with
  | error | pending => exact nomatch h
  | _ => exact ⟨Except.ok.inj h, Bool.false_ne_true⟩

theorem Value.isSignal_of_settled {value : Value} {raised : Raised}
    (h : value.settled = .error raised) : value.isSignal := by
  cases value with
  | error | pending => rfl
  | _ => exact nomatch h

theorem Value.settled_of_isSignal {value : Value} (h : value.isSignal) :
    ∃ raised, value.settled = .error raised := by
  cases value with
  | error fault => exact ⟨_, rfl⟩
  | pending carried => exact ⟨_, rfl⟩
  | _ => exact absurd h Bool.false_ne_true

/-- The rule for all constructs that need a value: where the one looks for a signal and hands it on,
the other has raised it. -/
theorem Agrees.thenValue {α β : Type} {view : α → Except Raised β} {signal : Value → α}
    {step : Eval Value} {other : Raising Value} {next : Value → Eval α} {next' : Value → Raising β}
    (h : Agrees P Value.settled step other)
    (hkeeps : Keeps P (Value.Carries (Value.PlainIn S)) step)
    (hsignal : ∀ value raised, value.settled = .error raised →
      view (signal value) = .error raised)
    (hnext : ∀ value, value.PlainIn S → Agrees P view (next value) (next' value)) :
    Agrees P view (Walk.needed signal step next) (Raising.asValue other >>= next') := by
  rw [Raising.asValue, bind_assoc]
  refine h.bind hkeeps (fun value value' hvalue hview => ?_) fun value raised _ hview => ?_
  · obtain ⟨rfl, hcase⟩ := Value.not_isSignal_of_settled hview
    simp only [Value.isSignal_orNull, hcase, Bool.false_eq_true, if_false]
    exact hnext _ (hvalue.of_not_isSignal (Value.plainIn_closed S) hcase)
  · have hcase := Value.isSignal_of_settled hview
    simp only [Value.orNull_of_isSignal hcase, hcase, if_true]
    exact .raise (hsignal value raised hview)

/-- The rule for what follows the arguments of a call: a signal among them is handed on by the one
and has been raised by the other. -/
theorem Agrees.bindArgs {α β : Type} {view : α → Except Raised β} {step : Eval Arguments}
    {other : Raising (List Value)} {next : Arguments → Eval α} {next' : List Value → Raising β}
    (h : Agrees P Arguments.settled step other)
    (hkeeps : Keeps P (Arguments.Carry (Value.PlainIn S)) step)
    (hnext : ∀ values, (∀ value ∈ values, value.PlainIn S) →
      Agrees P view (next (.all values)) (next' values))
    (hsignal : ∀ value raised, value.settled = .error raised →
      Agrees P view (next (.signal value)) (throw raised)) :
    Agrees P view (step >>= next) (other >>= next') := by
  refine h.bind hkeeps (fun given values hgiven hview => ?_) fun given raised hgiven hview => ?_
  · cases given with
    | all values' =>
      obtain rfl : values' = values := Except.ok.inj hview
      exact hnext values' hgiven
    -- a signal among the arguments is never a row of values
    | signal value =>
      obtain ⟨raised, hraised⟩ := Value.settled_of_isSignal hgiven.2
      rw [Arguments.settled, hraised] at hview
      exact nomatch hview
  · cases given with
    | all values => exact nomatch hview
    | signal value =>
      obtain ⟨raised', hraised⟩ := Value.settled_of_isSignal hgiven.2
      rw [Arguments.settled, hraised] at hview
      obtain rfl : raised' = raised := Except.error.inj hview
      exact hsignal value raised' hraised

/-- What an operator yields is never a pending return, so `Raising.operated` raises all that is a
signal. -/
theorem operated_agrees {value : Value} (h : value.Delivers (Value.PlainIn S)) :
    Agrees P Value.settled (pure value) (Raising.operated value) := by
  cases value with
  | error fault => exact .raise rfl
  | pending carried => exact absurd rfl (h.ne_pending carried)
  | _ => exact .pure rfl

/-- A name is read alike in plain scopes, where no signal is found. -/
theorem readName_agrees {id : ScopeId} (hid : S id) (hplain : ∀ machine, P machine →
    machine.heap.PlainIn S) (name : Bytes) :
    Agrees P Value.settled (readName id name) (Raising.readName id name) := by
  refine Agrees.get.bind Keeps.get (fun machine store hmachine hview => ?_)
    fun _ _ _ hview => nomatch hview
  obtain rfl : machine.store = store := Except.ok.inj hview
  cases hvalue : machine.heap.lookup name id with
  | none =>
    simp only [Machine.store, hvalue]
    exact .raise rfl
  | some value =>
    simp only [Machine.store, hvalue]
    exact .pure ((hplain machine hmachine).lookup hid hvalue).settled_eq

theorem newFunction_agrees (params : List Ident) (body : Node) (scope : Option ScopeId) :
    Agrees P Value.settled (newFunction params body scope)
      (Raising.newFunction params body scope) :=
  fun _ _ => rfl

/-- What the walk in the scope `id` needs to do the same in both evaluators: plain scopes, and calls
that do the same. -/
structure Matching (S : ScopeId → Prop) (P : Machine → Prop) (call : CallMeaning)
    (call' : Closure → List Value → Raising Value) (id : ScopeId) : Prop where
  /-- The scope is one of the set. -/
  own : S id
  /-- The scopes of the set are plain. -/
  plain : ∀ machine, P machine → machine.heap.PlainIn S
  /-- The steps of the walk keep them so. -/
  keeping : Keeping call S (fun _ => True) P (Value.PlainIn S)
  /-- Calls do the same. -/
  calls : ∀ closure values, (Value.function closure).PlainIn S →
    (∀ value ∈ values, value.PlainIn S) →
    Agrees P Value.settled (call closure values) (call' closure values)

theorem Matching.carries {call : CallMeaning} {call' : Closure → List Value → Raising Value}
    {id : ScopeId} (h : Matching S P call call' id) (node : Node) :
    Keeps P (Value.Carries (Value.PlainIn S)) (evalNode call node id) :=
  evalNode_keeps h.keeping h.own node fun _ _ => trivial

variable {call : CallMeaning} {call' : Closure → List Value → Raising Value} {id : ScopeId}

mutual

/-- **Both evaluators do the same with a node.**  The second one is no walk with other steps, since
it never looks at what it receives; so the comparison is an induction of its own, with
`Agrees.thenValue` for all constructs that need a value. -/
theorem evalNode_agrees (h : Matching S P call call' id) (node : Node) :
    Agrees P Value.settled (evalNode call node id) (Raising.evalNode call' node id) := by
  cases node with
  | hole =>
    rw [evalNode, Raising.evalNode]
    exact .pure rfl
  | bare kind =>
    cases kind with
    | unassigned number =>
      rw [evalNode, Raising.evalNode]
      exact .pure rfl
    | _ =>
      rw [evalNode, Raising.evalNode]
      · exact .abort .stuck
      -- no other kind is the one that has a value
      all_goals exact fun _ hkind => nomatch hkind
  | letStmt token name value =>
    rw [evalNode_letStmt, Raising.evalNode]
    refine (evalNode_agrees h value).thenValue (h.carries value) (fun _ _ hview => hview)
      fun value hvalue => ?_
    -- binding a name raises nothing
    have hbind : Agrees P .ok (bindName id name.name value)
      (Raising.bindName id name.name value) := .modify fun _ => rfl
    exact hbind.bind (h.keeping.bind name.name value h.own trivial hvalue)
      (fun _ _ _ _ => .pure rfl) fun _ _ _ hview => nomatch hview
  | returnStmt token value =>
    rw [evalNode_returnStmt, Raising.evalNode]
    refine (evalNode_agrees h value).thenValue (h.carries value) (fun _ _ hview => hview)
      fun value hvalue => ?_
    exact .raise rfl
  | exprStmt token expr =>
    rw [evalNode, Raising.evalNode]
    exact evalNode_agrees h expr
  | block token stmts =>
    rw [evalNode, Raising.evalNode]
    exact evalStmts_agrees h stmts .nothing rfl
  | ident name =>
    rw [evalNode, Raising.evalNode]
    exact readName_agrees h.own h.plain name.name
  | number token value =>
    rw [evalNode, Raising.evalNode]
    exact .pure rfl
  | text token value =>
    rw [evalNode, Raising.evalNode]
    exact .pure rfl
  | boolean token value =>
    rw [evalNode, Raising.evalNode]
    exact .pure rfl
  | prefixOp token op right =>
    rw [evalNode_prefixOp, Raising.evalNode]
    refine (evalNode_agrees h right).thenValue (h.carries right) (fun _ _ hview => hview)
      fun right _ => ?_
    exact operated_agrees (Value.applyPrefix_delivers (Value.plainIn_closed S) op right)
  -- both take the right operand first
  | infixOp token op left right =>
    rw [evalNode_infixOp, Raising.evalNode]
    refine (evalNode_agrees h right).thenValue (h.carries right) (fun _ _ hview => hview)
      fun right _ => ?_
    refine (evalNode_agrees h left).thenValue (h.carries left) (fun _ _ hview => hview)
      fun left _ => ?_
    exact operated_agrees (Value.applyInfix_delivers (Value.plainIn_closed S) op left right)
  | ifElse token cond yes no =>
    rw [evalNode_ifElse, Raising.evalNode]
    refine (evalNode_agrees h cond).thenValue (h.carries cond) (fun _ _ hview => hview)
      fun cond _ => ?_
    split
    · exact evalBody_agrees h yes
    · split
      · exact .pure rfl
      · exact evalBody_agrees h no
  | function token params body =>
    rw [evalNode, Raising.evalNode]
    exact newFunction_agrees params body (some id)
  | call token callee args =>
    rw [evalNode_call, Raising.evalNode]
    refine (evalNode_agrees h callee).thenValue (h.carries callee) (fun _ _ hview => hview)
      fun callee hcallee => ?_
    -- what is no function is refused before its arguments are looked at
    cases callee with
    | function closure =>
      exact (evalArgs_agrees h args).bindArgs
        (evalArgs_keeps h.keeping h.own args fun _ _ => trivial)
        (fun values hvalues => h.calls closure values hcallee hvalues)
        fun value raised hview => .raise hview
    | _ => exact .raise rfl

theorem evalBody_agrees (h : Matching S P call call' id) (node : Node) :
    Agrees P Value.settled (evalBody call node id) (Raising.evalBody call' node id) := by
  cases node with
  | block token stmts =>
    rw [evalBody, Raising.evalBody]
    exact evalStmts_agrees h stmts .nothing rfl
  | _ =>
    rw [evalBody, Raising.evalBody]
    · exact .abort .stuck
    all_goals exact fun _ _ hnode => nomatch hnode

/-- Statements in a row, with a result so far that is no signal. -/
theorem evalStmts_agrees (h : Matching S P call call' id) (stmts : List Node) (last : Value)
    (hlast : last.settled = .ok last) :
    Agrees P Value.settled (evalStmts call stmts id last)
      (Raising.evalStmts call' stmts id last) := by
  cases stmts with
  | nil =>
    rw [evalStmts, Raising.evalStmts]
    exact .pure hlast
  | cons node more =>
    rw [evalStmts, Raising.evalStmts]
    refine (evalNode_agrees h node).bind (h.carries node) (fun value value' _ hview => ?_)
      fun value raised _ hview => ?_
    · obtain ⟨rfl, hcase⟩ := Value.not_isSignal_of_settled hview
      simp only [hcase, Bool.false_eq_true, if_false]
      exact evalStmts_agrees h more value hview
    · simp only [Value.isSignal_of_settled hview, if_true]
      exact .raise hview

theorem evalArgs_agrees (h : Matching S P call call' id) (args : List Node) :
    Agrees P Arguments.settled (evalArgs call args id) (Raising.evalArgs call' args id) := by
  cases args with
  | nil =>
    rw [evalArgs, Raising.evalArgs]
    exact .pure rfl
  | cons node more =>
    rw [evalArgs_cons, Raising.evalArgs]
    refine (evalNode_agrees h node).thenValue (h.carries node) (fun value raised hview => ?_)
      fun value hvalue => ?_
    · rw [Arguments.settled, hview]
      rfl
    · refine (evalArgs_agrees h more).bindArgs
        (evalArgs_keeps h.keeping h.own more fun _ _ => trivial)
        (fun values _ => .pure rfl) fun value raised hview => .raise ?_
      rw [Arguments.settled, hview]
      rfl

end

/-! ### Calls that do the same -/

/-- `Value.arrived` lets a return arrive where `Raising.catchReturn` catches it. -/
theorem catchReturn_agrees {step : Eval Value} {other : Raising Value}
    (h : Agrees P Value.settled step other)
    (hkeeps : Keeps P (Value.Carries (Value.PlainIn S)) step) :
    Agrees P Value.settled (do return (← step).arrived) (Raising.catchReturn other) := by
  intro machine hmachine
  have hcarries := (hkeeps machine hmachine).2
  rw [run_bind, Raising.catchReturn, h machine hmachine]
  rcases hrun : step machine with ⟨_ | value, after⟩
  · rfl
  · rw [hrun] at hcarries
    -- only a pending return arrives, and it carries a value that is no signal itself
    cases value with
    | pending carried =>
      have hcarried := (hcarries _ rfl).plainIn_of_pending
      exact Prod.ext hcarried.settled_eq.symm rfl
    | _ => rfl

/-- The machines on which the scopes of `S` are plain (`Heap.PlainIn`) and `depth` calls are
open. -/
abbrev PlainAt (S : ScopeId → Prop) (depth : Nat) (machine : Machine) : Prop :=
  machine.heap.PlainIn S ∧ machine.depth = depth

theorem bindName_agrees (id : ScopeId) (name : Bytes) (value : Value) :
    Agrees P .ok (bindName id name value) (Raising.bindName id name value) :=
  .modify fun _ => rfl

theorem bindParams_agrees {depth : Nat} (hid : S id) (params : List Ident) (values : List Value)
    (hvalues : ∀ value ∈ values, value.PlainIn S) :
    Agrees (PlainAt S depth) .ok (bindParams id params values)
      (Raising.bindParams id params values) := by
  have hkeeps := (Heap.plainIn_stable S).bindName_keeps depth hid
  fun_induction bindParams id params values with
  | case1 values => exact .pure rfl
  | case2 param params ih =>
    exact (bindName_agrees id param.name _).bind
      (hkeeps param.name (Value.plainIn_closed S).null) (fun _ _ _ _ => ih hvalues)
      fun _ _ _ hview => nomatch hview
  | case3 param params value values ih =>
    rw [List.forall_mem_cons] at hvalues
    exact (bindName_agrees id param.name _).bind (hkeeps param.name hvalues.1)
      (fun _ _ _ _ => ih hvalues.2) fun _ _ _ hview => nomatch hview

/-- The body of a function: the scope that is opened for it is one still to be made, so it is in
`S`. -/
theorem enter_agrees {depth : Nat}
    (hkeeps : ∀ closure values, (Value.function closure).PlainIn S →
      (∀ value ∈ values, value.PlainIn S) →
      Keeps (PlainAt S depth) (Value.Delivers (Value.PlainIn S)) (call closure values))
    (hcalls : ∀ closure values, (Value.function closure).PlainIn S →
      (∀ value ∈ values, value.PlainIn S) →
      Agrees (PlainAt S depth) Value.settled (call closure values) (call' closure values))
    {closure : Closure} {values : List Value} (hclosure : (Value.function closure).PlainIn S)
    (hvalues : ∀ value ∈ values, value.PlainIn S) :
    Agrees (PlainAt S depth) Value.settled (enter call closure values)
      (Raising.enter call' closure values) := by
  have hstable := Heap.plainIn_stable S
  -- the three steps that open the scope raise nothing; what they keep is what the body needs
  refine Agrees.get.bind Keeps.get (fun machine store hmachine hview => ?_)
    fun _ _ _ hview => nomatch hview
  obtain rfl : machine.store = store := Except.ok.inj hview
  have hid : S machine.heap.next := hmachine.1.fresh _ (Nat.le_refl _)
  refine (Agrees.modify fun _ => rfl).bind
    (Keeps.modify fun _ hnow => hstable.push hclosure hnow) (fun _ _ _ _ => ?_)
    fun _ _ _ hview => nomatch hview
  refine (bindParams_agrees hid closure.params values hvalues).bind
    (hstable.bindParams_keeps depth hid closure.params values hvalues) (fun _ _ _ _ => ?_)
    fun _ _ _ hview => nomatch hview
  have hkeeping := hstable.keeping depth hkeeps
  have hmatching : Matching S (PlainAt S depth) call call' machine.heap.next :=
    ⟨hid, fun _ hnow => hnow.1, hkeeping, hcalls⟩
  -- only here are the two at odds: a `pending` result is opened, and a raised one is caught
  exact catchReturn_agrees (evalBody_agrees hmatching closure.body)
    (evalBody_keeps hkeeping hid closure.body fun _ _ => trivial)

end

section

variable {S : ScopeId → Prop} {limit : Nat}

theorem atLimit_iff (hlimit : 0 < limit) (depth : Nat) : atLimit limit depth ↔ limit ≤ depth := by
  simp [atLimit, hlimit]

/-- Where the limit is reached, both evaluators give up. -/
theorem call_agrees_of_le (hlimit : 0 < limit) (room : Nat) {depth : Nat} (hdepth : limit ≤ depth)
    (closure : Closure) (values : List Value) :
    Agrees (PlainAt S depth) Value.settled (call limit room closure values)
      (Raising.call limit (limit - depth) closure values) := by
  intro machine hmachine
  have hat : atLimit limit machine.depth := (atLimit_iff hlimit _).mpr (hmachine.2 ▸ hdepth)
  rw [call_of_atLimit closure values room hat, Nat.sub_eq_zero_of_le hdepth]
  rfl

/-- **Both evaluators do the same with a call**, given that the first one may follow calls as deeply
as the limit allows. -/
theorem call_agrees (hlimit : 0 < limit) {room depth : Nat} (hroom : limit ≤ room + depth)
    (closure : Closure) (values : List Value) (hclosure : (Value.function closure).PlainIn S)
    (hvalues : ∀ value ∈ values, value.PlainIn S) :
    Agrees (PlainAt S depth) Value.settled (call limit room closure values)
      (Raising.call limit (limit - depth) closure values) := by
  have hstable := Heap.plainIn_stable S
  induction room generalizing depth closure values with
  | zero => exact call_agrees_of_le hlimit 0 (by omega) closure values
  | succ room ih =>
    by_cases hdepth : limit ≤ depth
    · exact call_agrees_of_le hlimit (room + 1) hdepth closure values
    · intro machine hmachine
      have hat : ¬ atLimit limit machine.depth := by
        rwa [atLimit_iff hlimit, hmachine.2]
      -- one level of nesting is used up, and the body has one level less
      have hless : limit - depth = (limit - (depth + 1)) + 1 := by omega
      rw [call_succ closure values room hat, hless]
      have hbody := enter_agrees (hstable.call_keeps limit room (depth + 1))
        (fun closure values => ih (by omega) closure values) hclosure hvalues
      exact hbody.withOpenCall (fun _ => hstable.opened) machine hmachine

/-- The walk does the same in both evaluators wherever the scopes are plain, with calls up to a
limit. -/
theorem matching_of_plain (hlimit : 0 < limit) (depth : Nat) {id : ScopeId} (hid : S id) :
    Matching S (PlainAt S depth) (call limit (room limit))
      (Raising.call limit (limit - depth)) id where
  own := hid
  plain _ h := h.1
  keeping := (Heap.plainIn_stable S).keeping depth
    ((Heap.plainIn_stable S).call_keeps limit (room limit) depth)
  calls := call_agrees hlimit (by rw [room, if_neg (Nat.ne_of_gt hlimit)]; omega)

end

/-- `evalProgram` and `Raising.evalProgram` end the same way. -/
theorem evalProgram_agrees {S : ScopeId → Prop} {P : Machine → Prop} {call : CallMeaning}
    {call' : Closure → List Value → Raising Value} {id : ScopeId}
    (h : Matching S P call call' id) (program : Program) (machine : Machine)
    (hmachine : P machine) :
    Raising.evalProgram call' program id machine.store =
      ((evalProgram call program id machine).1, (evalProgram call program id machine).2.store) := by
  rw [Raising.evalProgram, evalStmts_agrees h program .nothing rfl machine hmachine, evalProgram,
    run_bind]
  rcases evalStmts call program id .nothing machine with ⟨reason | value, after⟩
  · rfl
  · cases value <;> rfl

section

variable {ending : Ending}

theorem settle_eq_ok_iff {value : Value} :
    settle Value.settled ending = .ok value ↔ ending = .ok value ∧ ¬ value.isSignal := by
  rcases ending with reason | result
  · simp [settle]
  · constructor
    · intro h
      obtain ⟨rfl, hsignal⟩ := Value.not_isSignal_of_settled h
      exact ⟨rfl, hsignal⟩
    · rintro ⟨h, hsignal⟩
      obtain rfl := Except.ok.inj h
      cases result with
      | error | pending => exact absurd rfl hsignal
      | _ => rfl

theorem settle_eq_error_iff {fault : Fault} :
    settle Value.settled ending = .error (.error fault) ↔ ending = .ok (.error fault) := by
  rcases ending with reason | result
  · simp [settle]
  · cases result <;> simp [settle, Value.settled]

theorem settle_eq_returned_iff {value : Value} :
    settle Value.settled ending = .error (.returned value) ↔ ending = .ok (.pending value) := by
  rcases ending with reason | result
  · simp [settle]
  · cases result <;> simp [settle, Value.settled]

theorem settle_eq_abort_iff {reason : Abort} :
    settle Value.settled ending = .error (.abort reason) ↔ ending = .error reason := by
  rcases ending with reason' | result
  · simp [settle]
  · cases result <;> simp [settle, Value.settled]

end

/-! ### Scopes in reach -/

/-- The scopes that links and functions lead to from the scope `id`. -/
inductive Heap.Reaches (heap : Heap) (id : ScopeId) : ScopeId → Prop
  /-- The scope itself. -/
  | refl : Reaches heap id id
  /-- The scope around a scope in reach. -/
  | outer {other next : ScopeId} (h : Reaches heap id other)
      (hnext : heap.outer? other = some next) : Reaches heap id next
  /-- The scope of a function that a scope in reach holds. -/
  | function {other next : ScopeId} {name : Bytes} {closure : Closure} (h : Reaches heap id other)
      (hheld : heap.Holds other name (.function closure)) (hnext : closure.scope = some next) :
      Reaches heap id next

/-- The scopes in reach of a scope (`Heap.Reaches`) are a set that nothing leads out of, together
with those still to be made. -/
theorem Heap.plainIn_of_reaches {heap : Heap} {id : ScopeId}
    (h : ∀ other name value, heap.Reaches id other → heap.Holds other name value → value.IsPlain) :
    heap.PlainIn fun other => heap.Reaches id other ∨ heap.next ≤ other where
  fresh other hother := .inr hother
  outer other next hother hnext := by
    rcases hother with hreach | hnew
    · exact .inl (.outer hreach hnext)
    · rw [outer?, scope?_eq_none heap hnew, Option.bind_none] at hnext
      exact absurd hnext.symm (Option.some_ne_none next)
  holds other name value hother hheld := by
    rcases hother with hreach | hnew
    · have hplain := h other name value hreach hheld
      cases value with
      | function closure => exact fun next hnext => .inl (.function hreach hheld hnext)
      | _ => exact hplain
    · obtain ⟨scope, hscope, -⟩ := hheld
      exact absurd (lt_next_of_scope? hscope) (Nat.not_lt.mpr hnew)

namespace Machine

/-- **Signals as values are as good as signals raised.**  With a limit on calls, and in a scope from
which only plain values are in reach, evaluating a node leaves the same in store as the evaluator
that raises signals: it yields a value or nothing exactly if the other one does, an error exactly if
the other one raises it, a pending return exactly if the other one raises the return, and it gives
up exactly if the other one does.  And a program ends the same way in both. -/
theorem eval_agrees_with_raising {limit : Nat} (hlimit : 0 < limit) {machine : Machine}
    {id : ScopeId} (hplain : ∀ other name value, machine.heap.Reaches id other →
      machine.heap.Holds other name value → value.IsPlain) :
    let call' := Raising.call limit (limit - machine.depth)
    (∀ node,
      let ending := machine.eval limit node id
      let other := Raising.evalNode call' node id machine.store
      other.2 = ending.2.store ∧
      (∀ value, ending.1 = .ok value ∧ ¬ value.isSignal ↔ other.1 = .ok value) ∧
      (∀ fault, ending.1 = .ok (.error fault) ↔ other.1 = .error (.error fault)) ∧
      (∀ value, ending.1 = .ok (.pending value) ↔ other.1 = .error (.returned value)) ∧
      (∀ reason, ending.1 = .error reason ↔ other.1 = .error (.abort reason))) ∧
    ∀ program,
      let ending := machine.evaluate limit program id
      Raising.evalProgram call' program id machine.store = (ending.1, ending.2.store) := by
  intro call'
  have hmachine : PlainAt (fun other => machine.heap.Reaches id other ∨ machine.heap.next ≤ other)
      machine.depth machine := ⟨Heap.plainIn_of_reaches hplain, rfl⟩
  have hmatching := matching_of_plain hlimit machine.depth
    (S := fun other => machine.heap.Reaches id other ∨ machine.heap.next ≤ other) (.inl .refl)
  refine ⟨fun node => ?_, fun program => ?_⟩
  · intro ending other
    -- one equation says it all: the view of an ending can be read backwards
    have hother : other = (settle Value.settled ending.1, ending.2.store) :=
      evalNode_agrees hmatching node machine hmachine
    rw [hother]
    exact ⟨rfl, fun _ => settle_eq_ok_iff.symm, fun _ => settle_eq_error_iff.symm,
      fun _ => settle_eq_returned_iff.symm, fun _ => settle_eq_abort_iff.symm⟩
  · exact evalProgram_agrees hmatching program machine hmachine

/-- In `"b" + if (true) {return "a"}` the return leaves the sum before the left operand is looked
at. -/
theorem eval_agrees_with_raising_operand_return :
    let word : Token := default
    let node : Node := .infixOp word [43] (.text word [98])
      (.ifElse word (.boolean word true) (.block word [.returnStmt word (.text word [97])]) .hole)
    0 < 1 ∧ (∀ other name value, fresh.heap.Reaches 0 other → fresh.heap.Holds other name value →
      value.IsPlain) ∧
      (Raising.evalNode (Raising.call 1 1) node 0 fresh.store).1
        = .error (.returned (.text [97])) := by
  intro word node
  have hplain : ∀ other name value, fresh.heap.Reaches 0 other →
      fresh.heap.Holds other name value → value.IsPlain :=
    fun other name value _ hheld => (fresh_plain.holds other name value trivial hheld).isPlain
  have hnode := (eval_agrees_with_raising Nat.one_pos hplain).1 node
  exact ⟨Nat.one_pos, hplain, (hnode.2.2.2.1 (.text [97])).mp rfl⟩

end Machine

end TreeWalk
