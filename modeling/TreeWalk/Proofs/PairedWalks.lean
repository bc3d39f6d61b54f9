import Mathlib.Data.List.Forall2
import TreeWalk.Proofs.Walk

/-!
# Two walks side by side

Two walks that start out alike stay alike.  What *alike* means is left open: a `Likeness` relates
trees, values and what walks yield, and a relation `R` between steps of the two sides says what
becomes of them, given how their results are related.  It is said once what these have to respect
(`Steps.Paired`); then walks through related trees are related.

All comparisons of walks are cases of this one.  The two sides may be the same walk, and then what
is said of both is said of one; they may be walks with other steps through the same tree
(`Steps.Related`); or they may be evaluations of trees that are alike.

The relation between trees has to see through one layer of a tree at a time (`Node.Layer`).  A node
that a walk gets stuck at is related to nothing unless `faulty` holds.

## Main definitions

* `Node.Layer` — one layer of two trees is the same, up to a relation between the trees below it.
* `Likeness` — what is taken to be alike on two sides.
* `Value.Pairing` — what the relations between values have to respect.
* `Steps.Paired` — what the steps of two walks have to respect.
* `Steps.Related` — the same for walks through one tree that yield the same.

## Main results

* `Walk.node_paired`, `Walk.enter_paired` — **walks that are alike stay alike.**
* `Walk.node_related`, `Walk.enter_related` — **walks with related steps are related.**
-/

namespace TreeWalk

/-! ### Trees, one layer at a time -/

namespace Node

/-- Whether a node is a block, the one kind of node that `evalBody` does not get stuck at. -/
def isBlock : Node → Bool
  | block .. => true
  | _ => false

/-- Trees that are related by `N` and evaluated as the bodies of something: blocks, unless trees may
be `faulty`. -/
def Bodies (faulty : Prop) (N : Node → Node → Prop) (node twin : Node) : Prop :=
  N node twin ∧ (faulty ∨ node.isBlock)

/-- The topmost layers of two trees are the same as far as evaluation looks at them, and the trees
below are related by `N`.  Tokens are not looked at.  Nodes at which evaluation gets stuck are the
same only if trees may be `faulty`. -/
inductive Layer (faulty : Prop) (N : Node → Node → Prop) : Node → Node → Prop
  /-- Positions left open. -/
  | hole : Layer faulty N .hole .hole
  /-- Nodes of which only the kind is given. -/
  | bare (h : faulty) (kind : NodeKind) : Layer faulty N (.bare kind) (.bare kind)
  /-- Bindings of one name. -/
  | letStmt {token token' : Token} {name name' : Ident} {value value' : Node}
      (hname : name.name = name'.name) (hvalue : N value value') :
      Layer faulty N (.letStmt token name value) (.letStmt token' name' value')
  /-- Returns. -/
  | returnStmt {token token' : Token} {value value' : Node} (hvalue : N value value') :
      Layer faulty N (.returnStmt token value) (.returnStmt token' value')
  /-- Expressions as statements. -/
  | exprStmt {token token' : Token} {expr expr' : Node} (hexpr : N expr expr') :
      Layer faulty N (.exprStmt token expr) (.exprStmt token' expr')
  /-- Blocks. -/
  | block {token token' : Token} {stmts stmts' : List Node} (hstmts : List.Forall₂ N stmts stmts') :
      Layer faulty N (.block token stmts) (.block token' stmts')
  /-- One name. -/
  | ident {id id' : Ident} (hname : id.name = id'.name) : Layer faulty N (.ident id) (.ident id')
  /-- One number. -/
  | number {token token' : Token} (value : Float) :
      Layer faulty N (.number token value) (.number token' value)
  /-- One text. -/
  | text {token token' : Token} (value : Bytes) :
      Layer faulty N (.text token value) (.text token' value)
  /-- One truth value. -/
  | boolean {token token' : Token} (value : Bool) :
      Layer faulty N (.boolean token value) (.boolean token' value)
  /-- One operator before operands. -/
  | prefixOp {token token' : Token} (op : Bytes) {right right' : Node} (hright : N right right') :
      Layer faulty N (.prefixOp token op right) (.prefixOp token' op right')
  /-- One operator between operands. -/
  | infixOp {token token' : Token} (op : Bytes) {left left' right right' : Node}
      (hleft : N left left') (hright : N right right') :
      Layer faulty N (.infixOp token op left right) (.infixOp token' op left' right')
  /-- Choices; the second block may be missing on both sides. -/
  | ifElse {token token' : Token} {cond cond' yes yes' no no' : Node} (hcond : N cond cond')
      (hyes : Bodies faulty N yes yes')
      (hno : no = .hole ∧ no' = .hole ∨ no.isHole = no'.isHole ∧ Bodies faulty N no no') :
      Layer faulty N (.ifElse token cond yes no) (.ifElse token' cond' yes' no')
  /-- Functions; what is to be known of them is in the relation itself. -/
  | function {token token' : Token} {params params' : List Ident} {body body' : Node} :
      Layer faulty N (.function token params body) (.function token' params' body')
  /-- Calls. -/
  | call {token token' : Token} {callee callee' : Node} {args args' : List Node}
      (hcallee : N callee callee') (hargs : List.Forall₂ N args args') :
      Layer faulty N (.call token callee args) (.call token' callee' args')

end Node

/-! ### Values -/

namespace Value

/-- `Value.orNull` turns no signal into another value and no other value into a signal. -/
@[simp] theorem isSignal_orNull (value : Value) : value.orNull.isSignal = value.isSignal := by
  cases value <;> rfl

theorem orNull_of_isSignal {value : Value} (h : value.isSignal) : value.orNull = value := by
  cases value with
  | nothing => exact absurd h Bool.false_ne_true
  | _ => rfl

/-- What the language does to values it does alike on two sides: operators, truth, `Value.orNull`
and `Value.arrived` respect the relations.  The relation `V` is between values that can be bound and
handed to functions, `D` between what calls yield, and `C` between what walks yield. -/
structure Pairing (V D C : Value → Value → Prop) : Prop where
  /-- Null. -/
  null : V .null .null
  /-- Numbers. -/
  number : ∀ value, V (.number value) (.number value)
  /-- Truth values. -/
  boolean : ∀ value, V (.boolean value) (.boolean value)
  /-- Texts. -/
  text : ∀ value, V (.text value) (.text value)
  /-- A call can yield any value. -/
  delivers : ∀ {value twin}, V value twin → D value twin
  /-- A call can yield nothing. -/
  nothing : D .nothing .nothing
  /-- A call can yield an error. -/
  error : ∀ fault, D (.error fault) (.error fault)
  /-- A walk can yield what a call can. -/
  carries : ∀ {value twin}, D value twin → C value twin
  /-- A walk can also yield a pending return. -/
  pending : ∀ {value twin}, V value twin → C (.pending value) (.pending twin)
  /-- Signals are alike. -/
  isSignal_eq : ∀ {value twin}, C value twin → value.isSignal = twin.isSignal
  /-- What is no signal can be used as a value. -/
  orNull : ∀ {value twin}, C value twin → ¬ value.isSignal → V value.orNull twin.orNull
  /-- A return arrives. -/
  arrived : ∀ {value twin}, C value twin → D value.arrived twin.arrived
  /-- Values that are alike decide alike. -/
  isTruthy_eq : ∀ {value twin}, V value twin → value.isTruthy = twin.isTruthy
  /-- An operator before its operand. -/
  applyPrefix : ∀ op {value twin}, V value twin → D (applyPrefix op value) (applyPrefix op twin)
  /-- An operator between its operands. -/
  applyInfix : ∀ op {left left' right right'}, V left left' → V right right' →
    D (applyInfix op left right) (applyInfix op left' right')
  /-- A function is like a function only, and other values are of one type. -/
  callee : ∀ {value twin}, V value twin →
    (∃ closure closure', value = .function closure ∧ twin = .function closure') ∨
      (∀ closure, value ≠ .function closure) ∧ (∀ closure, twin ≠ .function closure) ∧
        value.typeLabel = twin.typeLabel

/-- Equality respects whatever is done to values. -/
theorem pairing_eq : Pairing Eq Eq Eq where
  null := rfl
  number _ := rfl
  boolean _ := rfl
  text _ := rfl
  delivers h := h
  nothing := rfl
  error _ := rfl
  carries h := h
  pending := congrArg pending
  isSignal_eq := congrArg isSignal
  orNull h _ := congrArg orNull h
  arrived := congrArg Value.arrived
  isTruthy_eq := congrArg isTruthy
  applyPrefix op _ _ := congrArg (Value.applyPrefix op)
  applyInfix op _ _ _ _ := congrArg₂ (Value.applyInfix op)
  callee := by
    rintro value _ rfl
    cases value with
    | function closure => exact .inl ⟨closure, closure, rfl, rfl⟩
    | _ => exact .inr ⟨by simp, by simp, rfl⟩

end Value

/-- What the two sides make of arguments: all of them, related by `V`, or a signal on either side,
related by `C`. -/
inductive Arguments.Paired (V C : Value → Value → Prop) : Arguments → Arguments → Prop
  /-- All values. -/
  | all {values twins : List Value} (h : List.Forall₂ V values twins) :
      Paired V C (.all values) (.all twins)
  /-- A signal. -/
  | signal {value twin : Value} (h : C value twin) (hsignal : value.isSignal) :
      Paired V C (.signal value) (.signal twin)

/-! ### Steps that are alike -/

/-- What is taken to be alike on two sides: the trees that are walked through, the values, what
comes out of walks and of calls, and the scopes in which both sides may be. -/
structure Likeness where
  /-- Whether trees may be faulty. -/
  faulty : Prop
  /-- The scopes in which the walks take place. -/
  own : ScopeId → Prop
  /-- The names that bindings in the trees give a value to. -/
  names : Bytes → Prop
  /-- Trees. -/
  nodes : Node → Node → Prop
  /-- Values that can be bound and handed to functions. -/
  values : Value → Value → Prop
  /-- What calls yield. -/
  delivered : Value → Value → Prop
  /-- What walks yield. -/
  carried : Value → Value → Prop

/-- Functions are alike if they are so as values, as `Likeness.values` has it. -/
def Likeness.functions (like : Likeness) (closure twin : Closure) : Prop :=
  like.values (.function closure) (.function twin)

section

variable {m n : Type → Type} [Monad m] [Monad n]

/-- The steps of two walks are alike.  Whether two steps are is said by `R`, given the relation in
which their results are; it has to respect doing nothing and doing one step after another. -/
structure Steps.Paired (R : (α : Type) → (α → α → Prop) → m α → n α → Prop) (like : Likeness)
    (steps : Steps m) (others : Steps n) : Prop where
  /-- Yielding a result. -/
  pure : ∀ {α : Type} {Q : α → α → Prop} {result result' : α}, Q result result' →
    R α Q (pure result) (pure result')
  /-- One step after the other. -/
  bind : ∀ {α β : Type} {Q : α → α → Prop} {Q' : β → β → Prop} {step : m α} {other : n α}
    {next : α → m β} {next' : α → n β}, R α Q step other →
    (∀ result result', Q result result' → R β Q' (next result) (next' result')) →
    R β Q' (step >>= next) (other >>= next')
  /-- Values. -/
  values : Value.Pairing like.values like.delivered like.carried
  /-- Trees that are alike have the same topmost layer. -/
  layer : ∀ {node twin}, like.nodes node twin → Node.Layer like.faulty like.nodes node twin
  /-- The names of bindings. -/
  name : ∀ {token name value twin}, like.nodes (.letStmt token name value) twin →
    like.names name.name
  /-- Giving up. -/
  stuck : like.faulty → R Value like.carried steps.stuck others.stuck
  /-- Binding a name. -/
  bindName : ∀ {id value twin} name, like.own id → like.names name → like.values value twin →
    R Unit (fun _ _ => True) (steps.bindName id name value) (others.bindName id name twin)
  /-- Reading a name. -/
  readName : ∀ {id} name, like.own id →
    R Value like.carried (steps.readName id name) (others.readName id name)
  /-- Making a function. -/
  newFunction : ∀ {id token token' params params' body body'}, like.own id →
    like.nodes (.function token params body) (.function token' params' body') →
    R Value like.carried (steps.newFunction params body (some id))
      (others.newFunction params' body' (some id))

/-- Functions that are alike, called with arguments that are alike, do what `R` relates, with
results related by `Q`. -/
def Likeness.Calls (like : Likeness) (R : (α : Type) → (α → α → Prop) → m α → n α → Prop)
    (Q : Value → Value → Prop) (call : Closure → List Value → m Value)
    (call' : Closure → List Value → n Value) : Prop :=
  ∀ closure twin values twins, like.functions closure twin →
    List.Forall₂ like.values values twins → R Value Q (call closure values) (call' twin twins)

namespace Walk

variable {R : (α : Type) → (α → α → Prop) → m α → n α → Prop} {like : Likeness} {steps : Steps m}
  {others : Steps n} {call : Closure → List Value → m Value}
  {call' : Closure → List Value → n Value} {id : ScopeId}

/-- The rule for all constructs that need a value (`needed`).  What comes behind the step is a
signal on both sides, and is handed on, or a value on both sides, and then `next` goes on with
it. -/
theorem needed_paired (h : steps.Paired R like others) {α : Type} {Q : α → α → Prop}
    {signal : Value → α} {step : m Value} {other : n Value} {next : Value → m α}
    {next' : Value → n α} (hstep : R Value like.carried step other)
    (hsignal : ∀ value twin, like.carried value twin → value.isSignal →
      Q (signal value) (signal twin))
    (hnext : ∀ value twin, like.values value twin → R α Q (next value) (next' twin)) :
    R α Q (needed signal step next) (needed signal other next') := by
  refine h.bind hstep fun value twin hvalue => ?_
  have hsame := h.values.isSignal_eq hvalue
  simp only [Value.isSignal_orNull, ← hsame]
  split
  · next hcase =>
    rw [Value.orNull_of_isSignal hcase, Value.orNull_of_isSignal (hsame ▸ hcase)]
    exact h.pure (hsignal value twin hvalue hcase)
  · next hcase => exact hnext _ _ (h.values.orNull hvalue hcase)

theorem callValue_of_ne {callee : Value} (h : ∀ closure, callee ≠ .function closure)
    (args : m Arguments) :
    callValue call callee args = pure (.error (.notFunction callee.typeLabel)) := by
  cases callee with
  | function closure => exact absurd rfl (h closure)
  | _ => rfl

theorem callValue_paired (h : steps.Paired R like others)
    (hcall : like.Calls R like.carried call call') {callee callee' : Value}
    (hcallee : like.values callee callee') {args : m Arguments} {args' : n Arguments}
    (hargs : R Arguments (Arguments.Paired like.values like.carried) args args') :
    R Value like.carried (callValue call callee args) (callValue call' callee' args') := by
  rcases h.values.callee hcallee with ⟨closure, closure', rfl, rfl⟩ | ⟨hne, hne', htype⟩
  · refine h.bind hargs fun given given' hgiven => ?_
    cases hgiven with
    | signal hvalue => exact h.pure hvalue
    | all hvalues => exact hcall closure closure' _ _ hcallee hvalues
  · rw [callValue_of_ne hne, callValue_of_ne hne', htype]
    exact h.pure (h.values.carries (h.values.error _))

mutual

/-- **Walks through trees that are alike are alike**: where `steps` and `others` are
(`Steps.Paired`), so are `node steps call` and `node others call'` on trees that `Likeness.nodes`
relates. -/
theorem node_paired (h : steps.Paired R like others)
    (hcall : like.Calls R like.carried call call') (hid : like.own id) (tree twin : Node)
    (htree : like.nodes tree twin) :
    R Value like.carried (node steps call tree id) (node others call' twin id) := by
  -- the layer fixes the shape of the second tree, and the walks take the same way through both
  have hlayer := h.layer htree
  have hkeep : ∀ value twin, like.carried value twin → value.isSignal →
    like.carried value twin := fun _ _ hvalue _ => hvalue
  cases tree with
  | hole =>
    cases hlayer
    rw [node, node]
    exact h.pure (h.values.carries h.values.nothing)
  | bare kind =>
    cases hlayer with
    | bare hfaulty =>
      cases kind with
      | unassigned number =>
        rw [node, node]
        exact h.pure (h.values.carries h.values.nothing)
      | _ =>
        rw [node, node]
        · exact h.stuck hfaulty
        all_goals simp
  | letStmt token name value =>
    cases hlayer with
    | letStmt hname hvalue =>
      rw [node, node, ← hname]
      refine needed_paired h (node_paired h hcall hid value _ hvalue) hkeep
        fun value twin hvalue => ?_
      refine h.bind (h.bindName name.name hid (h.name htree) hvalue) fun _ _ _ => ?_
      exact h.pure (h.values.carries h.values.nothing)
  | returnStmt token value =>
    cases hlayer with
    | returnStmt hvalue =>
      rw [node, node]
      refine needed_paired h (node_paired h hcall hid value _ hvalue) hkeep
        fun value twin hvalue => ?_
      exact h.pure (h.values.pending hvalue)
  | exprStmt token expr =>
    cases hlayer with
    | exprStmt hexpr =>
      rw [node, node]
      exact node_paired h hcall hid expr _ hexpr
  | block token nodes =>
    cases hlayer with
    | block hnodes =>
      rw [node, node]
      exact stmts_paired h hcall hid nodes _ hnodes (h.values.carries h.values.nothing)
  | ident name =>
    cases hlayer with
    | ident hname =>
      rw [node, node, ← hname]
      exact h.readName name.name hid
  | number token value =>
    cases hlayer
    rw [node, node]
    exact h.pure (h.values.carries (h.values.delivers (h.values.number value)))
  | text token value =>
    cases hlayer
    rw [node, node]
    exact h.pure (h.values.carries (h.values.delivers (h.values.text value)))
  | boolean token value =>
    cases hlayer
    rw [node, node]
    exact h.pure (h.values.carries (h.values.delivers (h.values.boolean value)))
  | prefixOp token op right =>
    cases hlayer with
    | prefixOp _ hright =>
      rw [node, node]
      refine needed_paired h (node_paired h hcall hid right _ hright) hkeep
        fun right twin hright => ?_
      exact h.pure (h.values.carries (h.values.applyPrefix op hright))
  | infixOp token op left right =>
    cases hlayer with
    | infixOp _ hleft hright =>
      rw [node, node]
      refine needed_paired h (node_paired h hcall hid right _ hright) hkeep
        fun right twin hright => ?_
      refine needed_paired h (node_paired h hcall hid left _ hleft) hkeep fun left twin hleft => ?_
      exact h.pure (h.values.carries (h.values.applyInfix op hleft hright))
  | ifElse token cond yes no =>
    cases hlayer with
    | ifElse hcond hyes hno =>
      rw [node, node]
      refine needed_paired h (node_paired h hcall hid cond _ hcond) hkeep fun cond twin hcond => ?_
      rw [← h.values.isTruthy_eq hcond]
      have hnull := h.values.carries (h.values.delivers h.values.null)
      split
      · exact body_paired h hcall hid yes _ hyes
      · rcases hno with ⟨rfl, rfl⟩ | ⟨hhole, hno⟩
        · exact h.pure hnull
        · rw [← hhole]
          split
          · exact h.pure hnull
          · exact body_paired h hcall hid no _ hno
  | function token params body =>
    cases hlayer
    rw [node, node]
    exact h.newFunction hid htree
  | call token callee nodes =>
    cases hlayer with
    | call hcallee hnodes =>
      rw [node, node]
      refine needed_paired h (node_paired h hcall hid callee _ hcallee) hkeep
        fun callee twin hcallee => ?_
      exact callValue_paired h hcall hcallee (args_paired h hcall hid nodes _ hnodes)
termination_by structural tree

theorem body_paired (h : steps.Paired R like others)
    (hcall : like.Calls R like.carried call call') (hid : like.own id) (tree twin : Node)
    (htree : Node.Bodies like.faulty like.nodes tree twin) :
    R Value like.carried (body steps call tree id) (body others call' twin id) := by
  have hlayer := h.layer htree.1
  cases tree with
  | block token nodes =>
    cases hlayer with
    | block hnodes =>
      rw [body, body]
      exact stmts_paired h hcall hid nodes _ hnodes (h.values.carries h.values.nothing)
  | _ =>
    -- what is no block is no body, and then trees may be faulty
    have hfaulty : like.faulty := htree.2.resolve_right Bool.false_ne_true
    cases hlayer
    all_goals
      rw [body, body]
      · exact h.stuck hfaulty
      all_goals simp
termination_by structural tree

/-- Statements in a row; `last` and `last'` are the results so far. -/
theorem stmts_paired (h : steps.Paired R like others)
    (hcall : like.Calls R like.carried call call') (hid : like.own id) (nodes twins : List Node)
    (hnodes : List.Forall₂ like.nodes nodes twins) {last last' : Value}
    (hlast : like.carried last last') :
    R Value like.carried (stmts steps call nodes id last) (stmts others call' twins id last') := by
  cases nodes with
  | nil =>
    cases hnodes
    rw [stmts, stmts]
    exact h.pure hlast
  | cons first more =>
    cases hnodes with
    | cons hfirst hmore =>
      rw [stmts, stmts]
      refine h.bind (node_paired h hcall hid first _ hfirst) fun value value' hvalue => ?_
      rw [← h.values.isSignal_eq hvalue]
      -- the walks go on together, or both hand the signal on
      split
      · exact h.pure hvalue
      · exact stmts_paired h hcall hid more _ hmore hvalue
termination_by structural nodes

theorem args_paired (h : steps.Paired R like others)
    (hcall : like.Calls R like.carried call call') (hid : like.own id) (nodes twins : List Node)
    (hnodes : List.Forall₂ like.nodes nodes twins) :
    R Arguments (Arguments.Paired like.values like.carried) (args steps call nodes id)
      (args others call' twins id) := by
  cases nodes with
  | nil =>
    cases hnodes
    rw [args, args]
    exact h.pure (.all .nil)
  | cons first more =>
    cases hnodes with
    | cons hfirst hmore =>
      rw [args, args]
      refine needed_paired h (node_paired h hcall hid first _ hfirst) (fun _ _ => .signal)
        fun value twin hvalue => ?_
      refine h.bind (args_paired h hcall hid more _ hmore) fun given given' hgiven => ?_
      cases hgiven with
      | signal hsignal hcase => exact h.pure (.signal hsignal hcase)
      | all hvalues => exact h.pure (.all (.cons hvalue hvalues))
termination_by structural nodes

end

theorem program_paired (h : steps.Paired R like others)
    (hcall : like.Calls R like.carried call call') (hid : like.own id) {nodes twins : Program}
    (hnodes : List.Forall₂ like.nodes nodes twins) :
    R Value like.delivered (program steps call nodes id) (program others call' twins id) := by
  refine h.bind ?_ fun value twin hvalue => h.pure (h.values.arrived hvalue)
  exact stmts_paired h hcall hid nodes twins hnodes (h.values.carries h.values.nothing)

end Walk

/-! ### Calls -/

/-- The steps of two walks are alike (`Steps.Paired`), and so is what they do to enter functions
that are: their parameters have the same names, their bodies are alike, and they open scopes of the
same number. -/
structure Steps.Enterable (R : (α : Type) → (α → α → Prop) → m α → n α → Prop) (like : Likeness)
    (steps : Steps m) (others : Steps n) : Prop extends Steps.Paired R like steps others where
  /-- Any name can be bound. -/
  anyName : ∀ name, like.names name
  /-- Opening a scope. -/
  openScope : ∀ {closure twin}, like.functions closure twin →
    R ScopeId (fun id id' => id = id' ∧ like.own id) (steps.openScope closure.scope)
      (others.openScope twin.scope)
  /-- Functions that are alike have the same parameters. -/
  params : ∀ {closure twin}, like.functions closure twin →
    closure.params.map Ident.name = twin.params.map Ident.name
  /-- Functions that are alike have bodies that are alike. -/
  body : ∀ {closure twin}, like.functions closure twin →
    Node.Bodies like.faulty like.nodes closure.body twin.body

namespace Walk

variable {R : (α : Type) → (α → α → Prop) → m α → n α → Prop} {like : Likeness} {steps : Steps m}
  {others : Steps n} {call : Closure → List Value → m Value}
  {call' : Closure → List Value → n Value}

/-- Binding parameters (`params`) of the same names to arguments that are alike. -/
theorem params_paired (h : steps.Enterable R like others) {id : ScopeId} (hid : like.own id)
    (names names' : List Ident) (hnames : names.map Ident.name = names'.map Ident.name)
    {values twins : List Value} (hvalues : List.Forall₂ like.values values twins) :
    R Unit (fun _ _ => True) (params steps id names values) (params others id names' twins) := by
  induction names generalizing names' values twins with
  | nil =>
    obtain rfl := List.map_eq_nil_iff.mp hnames.symm
    rw [params, params]
    exact h.pure trivial
  | cons param names ih =>
    cases names' with
    | nil => cases hnames
    | cons param' names' =>
      obtain ⟨hparam, hnames⟩ := List.cons.inj hnames
      cases hvalues with
      -- parameters without an argument are bound to `null` on both sides
      | nil =>
        rw [params, params, ← hparam]
        refine h.bind (h.bindName param.name hid (h.anyName _) h.values.null) fun _ _ _ => ?_
        exact ih names' hnames .nil
      | cons hvalue hvalues =>
        rw [params, params, ← hparam]
        refine h.bind (h.bindName param.name hid (h.anyName _) hvalue) fun _ _ _ => ?_
        exact ih names' hnames hvalues

/-- **Functions that are alike are entered alike**, provided that calls made on the way are. -/
theorem enter_paired (h : steps.Enterable R like others)
    (hcall : like.Calls R like.carried call call') :
    like.Calls R like.delivered (enter steps call) (enter others call') := by
  intro closure twin values twins hclosure hvalues
  refine h.bind (h.openScope hclosure) ?_
  rintro id _ ⟨rfl, hid⟩
  refine h.bind (params_paired h hid _ _ (h.params hclosure) hvalues) fun _ _ _ => ?_
  refine h.bind ?_ fun value twin hvalue => h.pure (h.values.arrived hvalue)
  exact body_paired h.toPaired hcall hid _ _ (h.body hclosure)

end Walk

end

/-! ### The same tree -/

section

variable {m n : Type → Type} [Monad m] [Monad n]

/-- The relation `R` between steps in two monads that yield the same respects doing one step after
another, and holds of the steps that walks are made of. -/
structure Steps.Related (R : (α : Type) → m α → n α → Prop) (steps : Steps m)
    (others : Steps n) : Prop where
  /-- Yielding a result. -/
  pure : ∀ {α : Type} (result : α), R α (pure result) (pure result)
  /-- One step after the other. -/
  bind : ∀ {α β : Type} {step : m α} {other : n α} {next : α → m β} {next' : α → n β},
    R α step other → (∀ result, R β (next result) (next' result)) →
    R β (step >>= next) (other >>= next')
  /-- Giving up. -/
  stuck : R Value steps.stuck others.stuck
  /-- Binding a name. -/
  bindName : ∀ id name value, R Unit (steps.bindName id name value) (others.bindName id name value)
  /-- Reading a name. -/
  readName : ∀ id name, R Value (steps.readName id name) (others.readName id name)
  /-- Making a function. -/
  newFunction : ∀ params body scope,
    R Value (steps.newFunction params body scope) (others.newFunction params body scope)
  /-- Opening a scope. -/
  openScope : ∀ outer, R ScopeId (steps.openScope outer) (others.openScope outer)

/-- Everything is like itself only, and may be faulty: walks through one and the same tree. -/
def Likeness.same : Likeness where
  faulty := True
  own _ := True
  names _ := True
  nodes := Eq
  values := Eq
  delivered := Eq
  carried := Eq

/-- Two steps are related by `R` whatever comes behind them, if that is related whenever the results
are.  This turns a relation of steps with the same result into one that `Steps.Paired` can be about,
where results are related by `Q`. -/
def Onward (R : (α : Type) → m α → n α → Prop) (α : Type) (Q : α → α → Prop) (step : m α)
    (other : n α) : Prop :=
  ∀ (β : Type) (next : α → m β) (next' : α → n β),
    (∀ result result', Q result result' → R β (next result) (next' result')) →
    R β (step >>= next) (other >>= next')

/-- Equal trees have the same topmost layer, and below it equal trees. -/
theorem Node.layer_eq {node twin : Node} (h : node = twin) : Node.Layer True Eq node twin := by
  subst h
  have hself (nodes : List Node) : List.Forall₂ Eq nodes nodes := List.forall₂_same.2 fun _ _ => rfl
  cases node with
  | hole => exact .hole
  | bare kind => exact .bare trivial kind
  | letStmt => exact .letStmt rfl rfl
  | returnStmt => exact .returnStmt rfl
  | exprStmt => exact .exprStmt rfl
  | block token stmts => exact .block (hself stmts)
  | ident => exact .ident rfl
  | number => exact .number _
  | text => exact .text _
  | boolean => exact .boolean _
  | prefixOp => exact .prefixOp _ rfl
  | infixOp => exact .infixOp _ rfl rfl
  | ifElse => exact .ifElse rfl ⟨rfl, .inl trivial⟩ (.inr ⟨rfl, rfl, .inl trivial⟩)
  | function => exact .function
  | call token callee args => exact .call rfl (hself args)

variable {R : (α : Type) → m α → n α → Prop} {steps : Steps m} {others : Steps n}

/-- Steps that are related by `R` are related by `Onward R`, with any relation between results that
holds of equal ones. -/
theorem Steps.Related.onward (h : steps.Related R others) {α : Type} {step : m α} {other : n α}
    (hstep : R α step other) {Q : α → α → Prop} (hQ : ∀ result, Q result result) :
    Onward R α Q step other :=
  fun _ _ _ hnext => h.bind hstep fun result => hnext result result (hQ result)

/-- Calls that are related by `R` are alike in the sense of `Likeness.same`. -/
theorem Steps.Related.calls (h : steps.Related R others) {call : Closure → List Value → m Value}
    {call' : Closure → List Value → n Value}
    (hcall : ∀ closure values, R Value (call closure values) (call' closure values)) :
    Likeness.same.Calls (Onward R) Eq call call' := by
  intro closure twin values twins hclosure hvalues
  cases hclosure
  have hsame : List.Forall₂ Eq values twins := hvalues
  obtain rfl : values = twins := by rwa [List.forall₂_eq_eq_eq] at hsame
  exact h.onward (hcall closure values) fun _ => rfl

variable [LawfulMonad m] [LawfulMonad n]

theorem Onward.related (h : steps.Related R others) {α : Type} {step : m α} {other : n α}
    (hstep : Onward R α Eq step other) : R α step other := by
  have hpure : ∀ result result' : α, result = result' → R α (pure result) (pure result') :=
    fun result _ hsame => hsame ▸ h.pure result
  simpa only [bind_pure] using hstep α pure pure hpure

/-- Steps that are related by `R` are alike in the sense of `Likeness.same`. -/
theorem Steps.Related.enterable (h : steps.Related R others) :
    steps.Enterable (Onward R) .same others where
  -- what comes next is a part of `Onward`, so both laws are those of the monads
  pure hresult := by
    intro β next next' hnext
    rw [pure_bind, pure_bind]
    exact hnext _ _ hresult
  bind hstep hnext := by
    intro β next next' hmore
    rw [bind_assoc, bind_assoc]
    exact hstep β _ _ fun result result' hresult => hnext result result' hresult β _ _ hmore
  values := Value.pairing_eq
  layer := Node.layer_eq
  name _ := trivial
  stuck _ := h.onward h.stuck fun _ => rfl
  bindName name _ _ hvalue := by
    cases hvalue
    exact h.onward (h.bindName _ name _) fun _ => trivial
  readName name _ := h.onward (h.readName _ name) fun _ => rfl
  newFunction _ hnode := by
    cases hnode
    exact h.onward (h.newFunction _ _ _) fun _ => rfl
  anyName _ := trivial
  openScope hclosure := by
    cases hclosure
    exact h.onward (h.openScope _) fun _ => ⟨rfl, trivial⟩
  params hclosure := by
    cases hclosure
    rfl
  body hclosure := by
    cases hclosure
    exact ⟨rfl, .inl trivial⟩

namespace Walk

variable {call : Closure → List Value → m Value} {call' : Closure → List Value → n Value}

/-- **Walks through a node with related steps are related**: `node_paired` with `Likeness.same`. -/
theorem node_related (h : steps.Related R others)
    (hcall : ∀ closure values, R Value (call closure values) (call' closure values)) (tree : Node)
    (id : ScopeId) : R Value (node steps call tree id) (node others call' tree id) :=
  (node_paired h.enterable.toPaired (h.calls hcall) trivial tree tree rfl).related h

/-- **Walks through the body of a function with related steps are related.** -/
theorem enter_related (h : steps.Related R others)
    (hcall : ∀ closure values, R Value (call closure values) (call' closure values))
    (closure : Closure) (values : List Value) :
    R Value (enter steps call closure values) (enter others call' closure values) :=
  (enter_paired h.enterable (h.calls hcall) closure closure values values rfl
    (List.forall₂_same.2 fun _ _ => rfl)).related h

theorem program_related (h : steps.Related R others)
    (hcall : ∀ closure values, R Value (call closure values) (call' closure values))
    (nodes : Program) (id : ScopeId) :
    R Value (program steps call nodes id) (program others call' nodes id) :=
  (program_paired h.enterable.toPaired (h.calls hcall) trivial
    (List.forall₂_same.2 fun _ _ => rfl)).related h

end Walk

end

end TreeWalk
