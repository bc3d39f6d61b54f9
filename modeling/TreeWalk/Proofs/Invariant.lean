import TreeWalk.Proofs.PairedWalks

/-!
# Invariants of evaluation

What evaluation does to a machine it does by a few kinds of steps: it reads a name, binds one, makes
a function, opens a scope.  This module says once how whole evaluations are made of such steps, so
that a property of machines is known to survive every evaluation as soon as it survives each kind of
step.

A property is followed together with a class of values: the values that may be bound and handed to
functions.  What an evaluation yields is then nothing, an error, a value of the class, or a pending
return of one (`Value.Carries`); what a call yields is never a pending return (`Value.Delivers`).

That the walk keeps what its steps keep is a case of two walks side by side: what is alike on both
sides are equal values of the class, and the second side does not matter (`Keeps.Beside`).

## Main definitions

* `Keeps` — a step keeps a property of machines however it ends, and what it yields is as stated.
* `Node.letNames` — the names that the bindings in a node give a value to.
* `Keeping` — the steps of the walk through a node keep a property.
* `Stable` — the steps of every evaluation keep a property.

## Main results

* `evalNode_keeps` — **the walk keeps what its steps keep.**
* `Stable.call_keeps` — **a call keeps what all steps keep.**
-/

namespace TreeWalk

/-! ### Running one step after the other -/

/-- Running `step >>= next`, which changes a state and may fail: a failure is handed on with the
state that `step` has left. -/
theorem run_bind {ε σ α β : Type} (step : ExceptT ε (StateM σ) α)
    (next : α → ExceptT ε (StateM σ) β) (state : σ) :
    (step >>= next) state = match step state with
      | (.ok result, after) => next result after
      | (.error failure, after) => (.error failure, after) := by
  rcases hstep : step state with ⟨_ | _, after⟩
  all_goals
    simp only [bind, ExceptT.bind, ExceptT.mk, StateT.bind, hstep]
    rfl

section

variable {limit : Nat} {machine : Machine} (closure : Closure) (values : List Value)

theorem call_of_atLimit (room : Nat) (h : atLimit limit machine.depth) :
    call limit room closure values machine = (.error (.tooDeep limit), machine) := by
  cases room <;> exact if_pos h

theorem call_zero (h : ¬ atLimit limit machine.depth) :
    call limit 0 closure values machine = (.error .unfinished, machine) := if_neg h

theorem call_succ (room : Nat) (h : ¬ atLimit limit machine.depth) :
    call limit (room + 1) closure values machine =
      withOpenCall (enter (call limit room) closure values) machine := if_neg h

end

/-! ### Keeping a property -/

/-- However the step ends, it keeps the property `P` of machines; and what it yields, if anything,
has the property `Q`. -/
def Keeps {α : Type} (P : Machine → Prop) (Q : α → Prop) (step : Eval α) : Prop :=
  ∀ machine, P machine →
    P (step machine).2 ∧ ∀ result, (step machine).1 = .ok result → Q result

namespace Keeps

variable {α β : Type} {P P' : Machine → Prop} {Q Q' : α → Prop} {R : β → Prop}

theorem pure {result : α} (h : Q result) : Keeps P Q (Pure.pure result) := by
  intro machine hmachine
  refine ⟨hmachine, fun result' hresult => ?_⟩
  obtain rfl : result = result' := Except.ok.inj hresult
  exact h

theorem throw (abort : Abort) : Keeps P Q (MonadExcept.throw abort) := by
  intro machine hmachine
  exact ⟨hmachine, fun _ hresult => nomatch hresult⟩

/-- Steps in a row keep what each of them keeps, the second one given what the first yields. -/
theorem bind {step : Eval α} {next : α → Eval β} (hstep : Keeps P Q step)
    (hnext : ∀ result, Q result → Keeps P R (next result)) : Keeps P R (step >>= next) := by
  intro machine hmachine
  obtain ⟨hafter, hresult⟩ := hstep machine hmachine
  rw [run_bind]
  rcases hrun : step machine with ⟨_ | result, after⟩
  · rw [hrun] at hafter
    exact ⟨hafter, fun _ h => nomatch h⟩
  · rw [hrun] at hafter hresult
    exact hnext result (hresult result rfl) after hafter

theorem mono {step : Eval α} (h : Keeps P Q step) (hQ : ∀ result, Q result → Q' result) :
    Keeps P Q' step :=
  fun machine hmachine => ⟨(h machine hmachine).1, fun result hresult =>
    hQ result ((h machine hmachine).2 result hresult)⟩

/-- The machine that `MonadState.get` yields has the property, since it is the one that the step
runs on. -/
theorem get : Keeps P P (MonadState.get : Eval Machine) := by
  intro machine hmachine
  refine ⟨hmachine, fun result hresult => ?_⟩
  obtain rfl : machine = result := Except.ok.inj hresult
  exact hmachine

theorem modify {change : Machine → Machine} (h : ∀ machine, P machine → P (change machine)) :
    Keeps P (fun _ => True) (modify change : Eval PUnit) :=
  fun machine hmachine => ⟨h machine hmachine, fun _ _ => trivial⟩

/-- A step with one more open call (`withOpenCall`): the property may change with the number of open
calls, to `P'` while the call is open and back. -/
theorem withOpenCall {step : Eval α} (hstep : Keeps P' Q step)
    (hopen : ∀ machine : Machine, P machine → P' { machine with depth := machine.depth + 1 })
    (hclose : ∀ machine : Machine, P' machine → P { machine with depth := machine.depth - 1 }) :
    Keeps P Q (TreeWalk.withOpenCall step) := by
  intro machine hmachine
  obtain ⟨hafter, hresult⟩ := hstep _ (hopen machine hmachine)
  exact ⟨hclose _ hafter, hresult⟩

end Keeps

/-! ### What evaluation yields -/

namespace Value

/-- What a call can yield, for a class `V` of values: nothing, an error, or a value of the class. -/
inductive Delivers (V : Value → Prop) : Value → Prop
  /-- Nothing at all. -/
  | nothing : Delivers V .nothing
  /-- An error. -/
  | error (fault : Fault) : Delivers V (.error fault)
  /-- A value of the class. -/
  | value {value : Value} (h : V value) : Delivers V value

/-- What an evaluation can yield, for a class `V` of values: what a call can (`Delivers`), and also
a pending return of a value of the class. -/
inductive Carries (V : Value → Prop) : Value → Prop
  /-- What a call can yield. -/
  | delivers {value : Value} (h : Delivers V value) : Carries V value
  /-- A pending return. -/
  | pending {value : Value} (h : V value) : Carries V (.pending value)

/-- A class `V` of values that has nulls, numbers, truth values and texts in it, and with a pending
return the value that it carries; which functions are in it is left open. -/
structure Closed (V : Value → Prop) : Prop where
  /-- Null is in the class. -/
  null : V .null
  /-- Numbers are. -/
  number : ∀ value, V (.number value)
  /-- Truth values are. -/
  boolean : ∀ value, V (.boolean value)
  /-- Texts are. -/
  text : ∀ value, V (.text value)
  /-- What a pending return of the class carries is. -/
  returned : ∀ value, V (.pending value) → V value

/-- The class of all values is closed. -/
theorem closed_true : Closed fun _ => True :=
  ⟨trivial, fun _ => trivial, fun _ => trivial, fun _ => trivial, fun _ _ => trivial⟩

variable {V : Value → Prop} {value : Value}

/-- What an evaluation yields where a value is needed is of the class, unless it is a signal;
nothing reads as null. -/
theorem Carries.of_not_isSignal (hV : Closed V) (h : Carries V value)
    (hsignal : ¬ value.isSignal) : V value.orNull := by
  cases h with
  | delivers h =>
    cases h with
    | nothing => exact hV.null
    | error fault => exact absurd rfl hsignal
    | value h =>
      cases value with
      | nothing => exact hV.null
      | _ => exact h
  | pending h => exact absurd rfl hsignal

/-- `Value.arrived` turns what an evaluation can yield into what a call can: a pending return has
arrived with its value. -/
theorem Carries.arrived (hV : Closed V) (h : Carries V value) : Delivers V value.arrived := by
  cases h with
  | delivers h =>
    cases h with
    | nothing => exact .nothing
    | error fault => exact .error fault
    | value h =>
      -- the class itself may hold pending returns, and then what they carry
      cases value with
      | pending value => exact .value (hV.returned value h)
      | _ => exact .value h
  | pending h => exact .value h

theorem applyPrefix_delivers (hV : Closed V) (op : Bytes) (right : Value) :
    Delivers V (applyPrefix op right) := by
  unfold applyPrefix
  repeat' split
  all_goals first | exact .value (hV.boolean _) | exact .value (hV.number _) | exact .error _

theorem applyInfix_delivers (hV : Closed V) (op : Bytes) (left right : Value) :
    Delivers V (applyInfix op left right) := by
  unfold applyInfix applyToNumbers applyToTexts applyToOthers
  repeat' split
  all_goals
    first
    | exact .value (hV.boolean _) | exact .value (hV.number _) | exact .value (hV.text _)
    | exact .error _

end Value

/-- What the evaluation of arguments can yield, for a class `V` of values: values of the class, or a
signal. -/
def Arguments.Carry (V : Value → Prop) : Arguments → Prop
  | all values => ∀ value ∈ values, V value
  | signal value => value.Carries V ∧ value.isSignal

namespace Value

/-- A closed class of values respects whatever is done to values, taken as equal values of the class
on two sides. -/
theorem Closed.pairing (hV : Closed V) :
    Pairing (fun value twin => V value ∧ value = twin)
      (fun value twin => Delivers V value ∧ value = twin)
      fun value twin => Carries V value ∧ value = twin where
  null := ⟨hV.null, rfl⟩
  number value := ⟨hV.number value, rfl⟩
  boolean value := ⟨hV.boolean value, rfl⟩
  text value := ⟨hV.text value, rfl⟩
  delivers h := ⟨.value h.1, h.2⟩
  nothing := ⟨.nothing, rfl⟩
  error fault := ⟨.error fault, rfl⟩
  carries h := ⟨.delivers h.1, h.2⟩
  pending h := ⟨.pending h.1, congrArg _ h.2⟩
  isSignal_eq h := congrArg _ h.2
  orNull h hsignal := ⟨h.1.of_not_isSignal hV hsignal, congrArg _ h.2⟩
  arrived h := ⟨h.1.arrived hV, congrArg _ h.2⟩
  isTruthy_eq h := congrArg _ h.2
  applyPrefix op value _ h := ⟨applyPrefix_delivers hV op value, congrArg _ h.2⟩
  applyInfix op left _ right _ hleft hright :=
    ⟨applyInfix_delivers hV op left right, congrArg₂ _ hleft.2 hright.2⟩
  callee h := pairing_eq.callee h.2

end Value

/-! ### The walk -/

mutual

/-- The names that the bindings in a node give a value to.  Those in the bodies of functions are
left out, since making a function evaluates none of them. -/
def Node.letNames : Node → List Bytes
  | .letStmt _ name value => name.name :: value.letNames
  | .returnStmt _ value => value.letNames
  | .exprStmt _ expr => expr.letNames
  | .block _ stmts => letNamesOf stmts
  | .prefixOp _ _ right => right.letNames
  | .infixOp _ _ left right => left.letNames ++ right.letNames
  | .ifElse _ cond yes no => cond.letNames ++ yes.letNames ++ no.letNames
  | .call _ callee args => callee.letNames ++ letNamesOf args
  | .hole | .bare _ | .ident _ | .number .. | .text .. | .boolean .. | .function .. => []

/-- The names that the bindings in some nodes give a value to, as `Node.letNames` has them. -/
def Node.letNamesOf : List Node → List Bytes
  | [] => []
  | node :: more => node.letNames ++ letNamesOf more

end

theorem Node.forall₂_letNames {names : Bytes → Prop} {nodes : List Node}
    (h : ∀ name ∈ letNamesOf nodes, names name) :
    List.Forall₂ (fun node twin => (∀ name ∈ letNames node, names name) ∧ node = twin)
      nodes nodes := by
  induction nodes with
  | nil => exact .nil
  | cons node more ih =>
    rw [letNamesOf, List.forall_mem_append] at h
    exact .cons ⟨h.1, rfl⟩ (ih h.2)

/-- A tree whose bindings are of names in `names` has a topmost layer of which this holds, and trees
below it of which it holds, too. -/
theorem Node.layer_letNames {names : Bytes → Prop} {node twin : Node}
    (h : (∀ name ∈ node.letNames, names name) ∧ node = twin) :
    Node.Layer True (fun node twin => (∀ name ∈ node.letNames, names name) ∧ node = twin)
      node twin := by
  obtain ⟨hnames, rfl⟩ := h
  cases node with
  | hole => exact .hole
  | bare kind => exact .bare trivial kind
  | letStmt token name value =>
    rw [letNames, List.forall_mem_cons] at hnames
    exact .letStmt rfl ⟨hnames.2, rfl⟩
  | returnStmt token value => exact .returnStmt ⟨hnames, rfl⟩
  | exprStmt token expr => exact .exprStmt ⟨hnames, rfl⟩
  | block token stmts => exact .block (forall₂_letNames hnames)
  | ident name => exact .ident rfl
  | number token value => exact .number value
  | text token value => exact .text value
  | boolean token value => exact .boolean value
  | prefixOp token op right => exact .prefixOp op ⟨hnames, rfl⟩
  | infixOp token op left right =>
    rw [letNames, List.forall_mem_append] at hnames
    exact .infixOp op ⟨hnames.1, rfl⟩ ⟨hnames.2, rfl⟩
  | ifElse token cond yes no =>
    rw [letNames, List.forall_mem_append, List.forall_mem_append] at hnames
    -- the branches need not be blocks, since the walk may be stuck here
    exact .ifElse ⟨hnames.1.1, rfl⟩ ⟨⟨hnames.1.2, rfl⟩, .inl trivial⟩
      (.inr ⟨rfl, ⟨hnames.2, rfl⟩, .inl trivial⟩)
  | function token params body => exact .function
  | call token callee args =>
    rw [letNames, List.forall_mem_append] at hnames
    exact .call ⟨hnames.1, rfl⟩ (forall₂_letNames hnames.2)

/-- Each step of a walk keeps the property `P` of machines, for the class `V` of values, in the
scopes for which `own` holds; as to bindings, only those of the names in `names` have to. -/
structure Keeping (call : CallMeaning) (own : ScopeId → Prop) (names : Bytes → Prop)
    (P : Machine → Prop) (V : Value → Prop) : Prop where
  /-- The class holds what the language computes by itself. -/
  closed : Value.Closed V
  /-- Reading a name. -/
  read : ∀ {id} name, own id → Keeps P (Value.Delivers V) (readName id name)
  /-- Binding a name. -/
  bind : ∀ {id} name value, own id → names name → V value →
    Keeps P (fun _ => True) (bindName id name value)
  /-- Making a function. -/
  make : ∀ {id} params body, own id → Keeps P V (newFunction params body (some id))
  /-- Calling a function. -/
  call : ∀ closure values, V (.function closure) → (∀ value ∈ values, V value) →
    Keeps P (Value.Delivers V) (call closure values)

/-- A step keeps the property `P`, whatever is done on the other side, and what it yields is related
by `Q` to something there. -/
def Keeps.Beside (P : Machine → Prop) (α : Type) (Q : α → α → Prop) (step _other : Eval α) : Prop :=
  Keeps P (fun result => ∃ twin, Q result twin) step

/-- What `Keeping` follows, as a `Likeness`: equal values of the class `V`, and equal trees with
bindings of names in `names` only. -/
def Likeness.ofClass (own : ScopeId → Prop) (names : Bytes → Prop) (V : Value → Prop) :
    Likeness where
  faulty := True
  own := own
  names := names
  nodes node twin := (∀ name ∈ node.letNames, names name) ∧ node = twin
  values value twin := V value ∧ value = twin
  delivered value twin := value.Delivers V ∧ value = twin
  carried value twin := value.Carries V ∧ value = twin

section

variable {call : CallMeaning} {own : ScopeId → Prop} {names : Bytes → Prop} {P : Machine → Prop}
  {V : Value → Prop}

theorem Keeps.beside {α : Type} {Q : α → Prop} {Q' : α → α → Prop} {step other : Eval α}
    (h : Keeps P Q step) (hQ : ∀ result, Q result → Q' result result) :
    Keeps.Beside P α Q' step other :=
  h.mono fun result hresult => ⟨result, hQ result hresult⟩

theorem Keeps.Beside.keeps {α : Type} {Q : α → Prop} {Q' : α → α → Prop} {step other : Eval α}
    (h : Keeps.Beside P α Q' step other) (hQ : ∀ result twin, Q' result twin → Q result) :
    Keeps P Q step :=
  h.mono fun result hresult => hresult.elim (hQ result)

namespace Keeping

/-- The steps of evaluation are alike beside themselves (`Steps.Paired`), if each keeps the
property. -/
theorem paired (h : Keeping call own names P V) :
    Eval.steps.Paired (Keeps.Beside P) (.ofClass own names V) Eval.steps where
  pure hresult := .pure ⟨_, hresult⟩
  bind hstep hnext := Keeps.bind hstep fun result hresult => hresult.elim (hnext result)
  values := h.closed.pairing
  layer := Node.layer_letNames
  name hnode := hnode.1 _ List.mem_cons_self
  stuck _ := .throw _
  bindName name hid hname hvalue := (h.bind name _ hid hname hvalue.1).beside fun _ _ => trivial
  readName name hid := (h.read name hid).beside fun _ hvalue => ⟨.delivers hvalue, rfl⟩
  newFunction hid _ := (h.make _ _ hid).beside fun _ hvalue => ⟨.delivers (.value hvalue), rfl⟩

theorem calls (h : Keeping call own names P V) :
    (Likeness.ofClass own names V).Calls (Keeps.Beside P)
      (fun value twin => value.Carries V ∧ value = twin) call call := by
  intro closure twin values twins hclosure hvalues
  have hvalues : ∀ value ∈ values, V value := (List.forall₂_and_left _ _).1 hvalues |>.1
  exact (h.call closure values hclosure.1 hvalues).beside fun _ hvalue => ⟨.delivers hvalue, rfl⟩

end Keeping

variable {id : ScopeId}

/-- **The walk through a node keeps what its steps keep**: `Walk.node_paired` with evaluation on
both sides. -/
theorem evalNode_keeps (h : Keeping call own names P V) (hid : own id) (node : Node)
    (hnames : ∀ name ∈ node.letNames, names name) :
    Keeps P (Value.Carries V) (evalNode call node id) := by
  rw [evalNode_eq_walk]
  exact (Walk.node_paired h.paired h.calls hid node node ⟨hnames, rfl⟩).keeps fun _ _ => And.left

theorem evalBody_keeps (h : Keeping call own names P V) (hid : own id) (node : Node)
    (hnames : ∀ name ∈ node.letNames, names name) :
    Keeps P (Value.Carries V) (evalBody call node id) := by
  rw [evalBody_eq_walk]
  exact (Walk.body_paired h.paired h.calls hid node node ⟨⟨hnames, rfl⟩, .inl trivial⟩).keeps
    fun _ _ => And.left

theorem evalArgs_keeps (h : Keeping call own names P V) (hid : own id) (args : List Node)
    (hnames : ∀ name ∈ Node.letNamesOf args, names name) :
    Keeps P (Arguments.Carry V) (evalArgs call args id) := by
  rw [evalArgs_eq_walk]
  refine (Walk.args_paired h.paired h.calls hid args args (Node.forall₂_letNames hnames)).keeps ?_
  intro given given' hgiven
  cases hgiven with
  | all hvalues => exact ((List.forall₂_and_left _ _).1 hvalues).1
  | signal hvalue hsignal => exact ⟨hvalue.1, hsignal⟩

theorem evalProgram_keeps (h : Keeping call own names P V) (hid : own id) (program : Program)
    (hnames : ∀ name ∈ Node.letNamesOf program, names name) :
    Keeps P (Value.Delivers V) (evalProgram call program id) := by
  rw [evalProgram_eq_walk]
  exact (Walk.program_paired h.paired h.calls hid (Node.forall₂_letNames hnames)).keeps
    fun _ _ => And.left

end

/-! ### Calls -/

/-- Every step of every evaluation keeps the property `P`, for the class `V` of values.  The
property may depend on the number of open calls; `own` says in which scopes evaluation may take
place. -/
structure Stable (own : ScopeId → Prop) (P : Nat → Machine → Prop) (V : Value → Prop) : Prop where
  /-- The class holds what the language computes by itself. -/
  closed : Value.Closed V
  /-- A new scope is one of those in which evaluation may take place. -/
  fresh : ∀ {depth machine}, P depth machine → own machine.heap.next
  /-- Reading a name. -/
  read : ∀ {depth machine id name value}, own id → P depth machine →
    machine.heap.lookup name id = some value → V value
  /-- Binding a name. -/
  bind : ∀ {depth machine id value} name, own id → V value → P depth machine →
    P depth { machine with heap := machine.heap.bind id name value }
  /-- Making a function. -/
  make : ∀ {depth machine id} params body, own id → P depth machine →
    P depth { machine with stamps := machine.stamps + 1 } ∧
      V (.function ⟨machine.stamps, params, body, some id⟩)
  /-- Opening a scope for a call. -/
  push : ∀ {depth machine closure}, V (.function closure) → P depth machine →
    P depth { machine with heap := machine.heap.push closure.scope }
  /-- Opening a call. -/
  opened : ∀ {depth machine}, P depth machine →
    P (depth + 1) { machine with depth := machine.depth + 1 }
  /-- Closing a call. -/
  shut : ∀ {depth machine}, P (depth + 1) machine →
    P depth { machine with depth := machine.depth - 1 }

namespace Stable

variable {own : ScopeId → Prop} {P : Nat → Machine → Prop} {V : Value → Prop}

theorem bindName_keeps (h : Stable own P V) (depth : Nat) {id : ScopeId} (hid : own id)
    (name : Bytes) {value : Value} (hvalue : V value) :
    Keeps (P depth) (fun _ => True) (bindName id name value) :=
  .modify fun _ hmachine => h.bind name hid hvalue hmachine

/-- What every evaluation keeps, the walk keeps, too (`Keeping`), provided that calls do. -/
theorem keeping (h : Stable own P V) (depth : Nat) {call : CallMeaning}
    (hcall : ∀ closure values, V (.function closure) → (∀ value ∈ values, V value) →
      Keeps (P depth) (Value.Delivers V) (call closure values)) :
    Keeping call own (fun _ => True) (P depth) V where
  closed := h.closed
  read {id} name hid := by
    refine Keeps.get.bind fun machine hmachine => .pure ?_
    cases hvalue : machine.heap.lookup name id with
    | none => exact .error _
    | some value => exact .value (h.read hid hmachine hvalue)
  bind name value hid _ hvalue := h.bindName_keeps depth hid name hvalue
  make params body hid := by
    refine Keeps.get.bind fun machine hmachine => ?_
    refine (Keeps.modify fun _ hnow => (h.make params body hid hnow).1).bind fun _ _ => ?_
    exact .pure (h.make params body hid hmachine).2
  call := hcall

/-- Functions of the class are entered in scopes for which `own` holds, so the steps of evaluation
are alike beside themselves in the sense of `Steps.Enterable`. -/
theorem enterable (h : Stable own P V) (depth : Nat) {call : CallMeaning}
    (hcall : ∀ closure values, V (.function closure) → (∀ value ∈ values, V value) →
      Keeps (P depth) (Value.Delivers V) (call closure values)) :
    Eval.steps.Enterable (Keeps.Beside (P depth)) (.ofClass own (fun _ => True) V) Eval.steps where
  toPaired := (h.keeping depth hcall).paired
  anyName _ := trivial
  openScope hclosure := by
    refine Keeps.get.bind fun machine hmachine => ?_
    refine (Keeps.modify fun _ hnow => h.push hclosure.1 hnow).bind fun _ _ => ?_
    -- the number of the new scope was read off before the scope was opened
    exact .pure ⟨machine.heap.next, rfl, h.fresh hmachine⟩
  params hclosure := by rw [Value.function.inj hclosure.2]
  body hclosure := by
    rw [Value.function.inj hclosure.2]
    exact ⟨⟨fun _ _ => trivial, rfl⟩, .inl trivial⟩

/-- Binding parameters keeps what every step keeps; a missing argument is null, which is in every
closed class. -/
theorem bindParams_keeps (h : Stable own P V) (depth : Nat) {id : ScopeId} (hid : own id)
    (params : List Ident) (values : List Value) (hvalues : ∀ value ∈ values, V value) :
    Keeps (P depth) (fun _ => True) (bindParams id params values) := by
  fun_induction bindParams id params values with
  | case1 values => exact .pure trivial
  | case2 param params ih =>
    exact (h.bindName_keeps depth hid param.name h.closed.null).bind fun _ _ => ih hvalues
  | case3 param params value values ih =>
    rw [List.forall_mem_cons] at hvalues
    exact (h.bindName_keeps depth hid param.name hvalues.1).bind fun _ _ => ih hvalues.2

/-- Entering a function keeps what every step keeps: `Walk.enter_paired` with evaluation on both
sides. -/
theorem enter_keeps (h : Stable own P V) (depth : Nat) {call : CallMeaning}
    (hcall : ∀ closure values, V (.function closure) → (∀ value ∈ values, V value) →
      Keeps (P depth) (Value.Delivers V) (call closure values))
    {closure : Closure} {values : List Value} (hclosure : V (.function closure))
    (hvalues : ∀ value ∈ values, V value) :
    Keeps (P depth) (Value.Delivers V) (enter call closure values) := by
  have hself : List.Forall₂ (fun value twin => V value ∧ value = twin) values values :=
    List.forall₂_same.2 fun value hvalue => ⟨hvalues value hvalue, rfl⟩
  rw [enter_eq_walk]
  exact (Walk.enter_paired (h.enterable depth hcall) (h.keeping depth hcall).calls closure closure
    values values ⟨hclosure, rfl⟩ hself).keeps fun _ _ => And.left

/-- **A call keeps what every step keeps**, however deeply calls may nest. -/
theorem call_keeps (h : Stable own P V) (limit room depth : Nat) (closure : Closure)
    (values : List Value) (hclosure : V (.function closure)) (hvalues : ∀ value ∈ values, V value) :
    Keeps (P depth) (Value.Delivers V) (call limit room closure values) := by
  -- the calls in the body nest one level deeper and have one level less left
  induction room generalizing depth closure values with
  | zero =>
    intro machine hmachine
    by_cases hlimit : atLimit limit machine.depth
    · rw [call_of_atLimit closure values 0 hlimit]
      exact ⟨hmachine, fun _ hresult => nomatch hresult⟩
    · rw [call_zero closure values hlimit]
      exact ⟨hmachine, fun _ hresult => nomatch hresult⟩
  | succ room ih =>
    intro machine hmachine
    by_cases hlimit : atLimit limit machine.depth
    · rw [call_of_atLimit closure values _ hlimit]
      exact ⟨hmachine, fun _ hresult => nomatch hresult⟩
    · rw [call_succ closure values room hlimit]
      have hbody := h.enter_keeps (depth + 1) (ih (depth + 1)) hclosure hvalues
      exact hbody.withOpenCall (fun _ => h.opened) (fun _ => h.shut) machine hmachine

/-- The walk through a node with calls up to a limit keeps what every step keeps. -/
theorem eval_keeps (h : Stable own P V) (limit depth : Nat) {id : ScopeId} (hid : own id)
    (node : Node) :
    Keeps (P depth) (Value.Carries V) (evalNode (call limit (room limit)) node id) :=
  evalNode_keeps (h.keeping depth (h.call_keeps limit (room limit) depth)) hid node
    fun _ _ => trivial

/-- `evalProgram` keeps what every step keeps, and leaves no return pending. -/
theorem evaluate_keeps (h : Stable own P V) (limit depth : Nat) {id : ScopeId} (hid : own id)
    (program : Program) :
    Keeps (P depth) (Value.Delivers V) (evalProgram (call limit (room limit)) program id) :=
  evalProgram_keeps (h.keeping depth (h.call_keeps limit (room limit) depth)) hid program
    fun _ _ => trivial

end Stable

end TreeWalk
