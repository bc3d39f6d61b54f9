import TreeWalk.Proofs.HeapLaws
import TreeWalk.Proofs.Invariant

/-!
# Two evaluations side by side

Two evaluations that start out alike stay alike.  What *alike* means is left open: trees are related
by `N`, functions by `F` and machines by `P`, and it is said once what these relations have to
respect (`Lockstep`).  Then evaluating related trees on related machines, step by step, ends the
same way on both sides, yields values that are the same up to `F` (`Value.Linked`), and leaves
related machines behind (`Coupled`).  Of the two walks this is known by `Walk.node_paired`; here it
is said of calls, which find the trees to walk through on the heap.

With `faulty` false, no tree at which evaluation gets stuck is related to any, so that the result
says that no evaluation gets stuck.

## Main definitions

* `Value.Linked` — two values are the same up to a relation between functions.
* `Value.EachFunction` — the function that a value is or returns has a property.
* `Coupled` — two steps, done on related machines, end alike.
* `Lockstep` — relations that every kind of step respects.

## Main results

* `Lockstep.enterable` — steps that respect the relations are alike, and hence walks are.
* `Lockstep.call_coupled` — **calls of related functions are coupled.**
-/

namespace TreeWalk

/-! ### Values that differ in functions only -/

namespace Value

/-- The same value up to a relation `F` between functions: a pending return is linked with a return
of a linked value. -/
inductive Linked (F : Closure → Closure → Prop) : Value → Value → Prop
  /-- Nothing. -/
  | nothing : Linked F .nothing .nothing
  /-- Null. -/
  | null : Linked F .null .null
  /-- The same number. -/
  | number (value : Float) : Linked F (.number value) (.number value)
  /-- The same truth value. -/
  | boolean (value : Bool) : Linked F (.boolean value) (.boolean value)
  /-- The same text. -/
  | text (value : Bytes) : Linked F (.text value) (.text value)
  /-- Related functions. -/
  | function {closure twin : Closure} (h : F closure twin) :
      Linked F (.function closure) (.function twin)
  /-- The same error. -/
  | error (fault : Fault) : Linked F (.error fault) (.error fault)
  /-- Pending returns of linked values. -/
  | pending {value twin : Value} (h : Linked F value twin) :
      Linked F (.pending value) (.pending twin)

namespace Linked

variable {F : Closure → Closure → Prop} {value twin : Value}

theorem orNull (h : Linked F value twin) : Linked F value.orNull twin.orNull := by
  cases h with
  | nothing => exact .null
  | null => exact .null
  | number value => exact .number value
  | boolean value => exact .boolean value
  | text value => exact .text value
  | function h => exact .function h
  | error fault => exact .error fault
  | pending h => exact .pending h

theorem arrived (h : Linked F value twin) : Linked F value.arrived twin.arrived := by
  cases h with
  | nothing => exact .nothing
  | null => exact .null
  | number value => exact .number value
  | boolean value => exact .boolean value
  | text value => exact .text value
  | function h => exact .function h
  | error fault => exact .error fault
  | pending h => exact h

theorem isSignal_eq (h : Linked F value twin) : value.isSignal = twin.isSignal := by
  cases h <;> rfl

theorem isTruthy_eq (h : Linked F value twin) : value.isTruthy = twin.isTruthy := by
  cases h <;> rfl

/-- The values that are linked with themselves are a closed class in the sense of `Value.Closed`. -/
theorem closed_self (F : Closure → Closure → Prop) : Closed fun value => Linked F value value where
  null := .null
  number := .number
  boolean := .boolean
  text := .text
  returned _ h := by
    cases h with
    | pending h => exact h

theorem of_delivers (h : value.Delivers fun value => Linked F value value) :
    Linked F value value := by
  cases h with
  | nothing => exact .nothing
  | error fault => exact .error fault
  | value h => exact h

theorem applyPrefix (op : Bytes) (h : Linked F value twin) :
    Linked F (applyPrefix op value) (applyPrefix op twin) := by
  have hsame : Value.applyPrefix op value = Value.applyPrefix op twin := by
    cases h <;> rfl
  rw [hsame]
  exact of_delivers (applyPrefix_delivers (closed_self F) op twin)

/-- Operators tell functions apart by `Closure.stamp` alone, so they do the same to linked operands
as long as `F` relates functions of one stamp. -/
theorem applyInfix (hF : ∀ {closure twin}, F closure twin → closure.stamp = twin.stamp) (op : Bytes)
    {left left' right right' : Value} (hleft : Linked F left left')
    (hright : Linked F right right') :
    Linked F (applyInfix op left right) (applyInfix op left' right') := by
  have hsame : Value.applyInfix op left right = Value.applyInfix op left' right' := by
    cases hleft with
    | @function closure twin h =>
      cases hright with
      | @function closure' twin' h' =>
        show applyToOthers op (.function closure) (.function closure')
          = applyToOthers op (.function twin) (.function twin')
        simp only [applyToOthers, same, hF h, hF h']
        rfl
      | _ => rfl
    | _ => cases hright <;> rfl
  rw [hsame]
  exact of_delivers (applyInfix_delivers (closed_self F) op left' right')

/-- Linked values are treated alike (`Value.Pairing`), as long as `F` relates functions of one
stamp. -/
theorem pairing (hF : ∀ {closure twin}, F closure twin → closure.stamp = twin.stamp) :
    Pairing (Linked F) (Linked F) (Linked F) where
  null := .null
  number := .number
  boolean := .boolean
  text := .text
  delivers h := h
  nothing := .nothing
  error := .error
  carries h := h
  pending := .pending
  isSignal_eq := isSignal_eq
  orNull h _ := h.orNull
  arrived := arrived
  isTruthy_eq := isTruthy_eq
  applyPrefix op _ _ := applyPrefix op
  applyInfix op _ _ _ _ := applyInfix hF op
  -- only a function has a case of its own: what is linked to it is a function, too
  callee h := by
    cases h with
    | function h => exact .inl ⟨_, _, rfl, rfl⟩
    | _ => exact .inr ⟨by simp, by simp, rfl⟩

end Linked

/-- The function that a value is or returns, if any, has the property `G`. -/
def EachFunction (G : Closure → Prop) : Value → Prop
  | function closure => G closure
  | pending value => value.EachFunction G
  | _ => True

/-- Linked by a relation that only relates a function with itself: this is equality, together with a
property of the function. -/
theorem Linked.same_iff {G : Closure → Prop} {value twin : Value} :
    Linked (fun closure other => closure = other ∧ G closure) value twin ↔
      value = twin ∧ value.EachFunction G := by
  constructor
  · intro h
    induction h with
    | function h => exact ⟨congrArg _ h.1, h.2⟩
    | pending _ ih => exact ⟨congrArg _ ih.1, ih.2⟩
    | _ => exact ⟨rfl, trivial⟩
  · rintro ⟨rfl, h⟩
    induction value with
    | nothing => exact .nothing
    | null => exact .null
    | number value => exact .number value
    | boolean value => exact .boolean value
    | text value => exact .text value
    | function closure => exact .function ⟨rfl, h⟩
    | error fault => exact .error fault
    | pending value ih => exact .pending (ih h)

end Value

/-! ### Coupled steps -/

/-- Two evaluations end alike: with results that `Q` relates, or for the same reason, which is
`Abort.stuck` only if trees may be `faulty`. -/
inductive EndAlike (faulty : Prop) {α β : Type} (Q : α → β → Prop) :
    Except Abort α → Except Abort β → Prop
  /-- Both end with a result. -/
  | ok {result : α} {result' : β} (h : Q result result') :
      EndAlike faulty Q (.ok result) (.ok result')
  /-- Both are given up. -/
  | error (reason : Abort) (h : reason = .stuck → faulty) :
      EndAlike faulty Q (.error reason) (.error reason)

/-- Done on machines that `P` relates, the two steps end alike (`EndAlike`) and leave related
machines behind. -/
def Coupled (faulty : Prop) (P : Machine → Machine → Prop) {α β : Type} (Q : α → β → Prop)
    (step : Eval α) (other : Eval β) : Prop :=
  ∀ machine twin, P machine twin →
    P (step machine).2 (other twin).2 ∧ EndAlike faulty Q (step machine).1 (other twin).1

namespace Coupled

variable {faulty : Prop} {P : Machine → Machine → Prop} {α β γ δ : Type} {Q Q' : α → β → Prop}
  {R : γ → δ → Prop}

theorem pure {result : α} {result' : β} (h : Q result result') :
    Coupled faulty P Q (Pure.pure result) (Pure.pure result') :=
  fun _ _ hmachine => ⟨hmachine, .ok h⟩

theorem throw (reason : Abort) (h : reason = .stuck → faulty) :
    Coupled faulty P Q (MonadExcept.throw reason) (MonadExcept.throw reason) :=
  fun _ _ hmachine => ⟨hmachine, .error reason h⟩

/-- Coupled steps, and what is coupled behind them whenever the results are related. -/
theorem bind {step : Eval α} {other : Eval β} {next : α → Eval γ} {next' : β → Eval δ}
    (hstep : Coupled faulty P Q step other)
    (hnext : ∀ result result', Q result result' →
      Coupled faulty P R (next result) (next' result')) :
    Coupled faulty P R (step >>= next) (other >>= next') := by
  intro machine twin hmachine
  obtain ⟨hafter, hend⟩ := hstep machine twin hmachine
  rw [run_bind, run_bind]
  rcases hrun : step machine with ⟨ending, after⟩
  rcases hrun' : other twin with ⟨ending', after'⟩
  rw [hrun, hrun'] at hafter hend
  cases hend with
  | ok h => exact hnext _ _ h after after' hafter
  | error reason h => exact ⟨hafter, .error reason h⟩

/-- What `MonadState.get` yields on both sides are the machines, which are related. -/
theorem get : Coupled faulty P P (MonadState.get : Eval Machine) MonadState.get :=
  fun _ _ hmachine => ⟨hmachine, .ok hmachine⟩

theorem modify {change change' : Machine → Machine}
    (h : ∀ machine twin, P machine twin → P (change machine) (change' twin)) :
    Coupled faulty P (fun _ _ => True) (modify change : Eval PUnit) (modify change') :=
  fun machine twin hmachine => ⟨h machine twin hmachine, .ok trivial⟩

/-- Coupled steps with one more open call on both sides (`withOpenCall`). -/
theorem withOpenCall {step : Eval α} {other : Eval β} (hstep : Coupled faulty P Q step other)
    (hopen : ∀ {machine twin : Machine}, P machine twin →
      P { machine with depth := machine.depth + 1 } { twin with depth := twin.depth + 1 })
    (hshut : ∀ {machine twin : Machine}, P machine twin →
      P { machine with depth := machine.depth - 1 } { twin with depth := twin.depth - 1 }) :
    Coupled faulty P Q (TreeWalk.withOpenCall step) (TreeWalk.withOpenCall other) := by
  intro machine twin hmachine
  obtain ⟨hafter, hend⟩ := hstep _ _ (hopen hmachine)
  exact ⟨hshut hafter, hend⟩

end Coupled

/-! ### Relations that evaluation respects -/

/-- Relations between trees, functions and machines that every kind of step of evaluation respects.
Evaluation may take place in the scopes for which `own` holds. -/
structure Lockstep (faulty : Prop) (own : ScopeId → Prop) (N : Node → Node → Prop)
    (F : Closure → Closure → Prop) (P : Machine → Machine → Prop) : Prop where
  /-- Related trees have the same topmost layer. -/
  layer : ∀ {node twin}, N node twin → Node.Layer faulty N node twin
  /-- Related functions have one stamp. -/
  stamp : ∀ {closure twin}, F closure twin → closure.stamp = twin.stamp
  /-- Related functions have the same parameters. -/
  params : ∀ {closure twin}, F closure twin →
    closure.params.map Ident.name = twin.params.map Ident.name
  /-- Related functions have related bodies. -/
  body : ∀ {closure twin}, F closure twin → Node.Bodies faulty N closure.body twin.body
  /-- On related machines equally many calls are open. -/
  depth : ∀ {machine twin}, P machine twin → machine.depth = twin.depth
  /-- Related machines have equally many scopes, and evaluation may take place in the next one. -/
  next : ∀ {machine twin}, P machine twin →
    machine.heap.next = twin.heap.next ∧ own machine.heap.next
  /-- Looking up a name. -/
  read : ∀ {machine twin id} name, own id → P machine twin →
    Option.Rel (Value.Linked F) (machine.heap.lookup name id) (twin.heap.lookup name id)
  /-- Binding a name. -/
  bind : ∀ {machine twin id value value'} name, own id → Value.Linked F value value' →
    P machine twin →
    P { machine with heap := machine.heap.bind id name value }
      { twin with heap := twin.heap.bind id name value' }
  /-- Making a function. -/
  make : ∀ {machine twin id token token' params params' body body'},
    N (.function token params body) (.function token' params' body') → own id → P machine twin →
    P { machine with stamps := machine.stamps + 1 } { twin with stamps := twin.stamps + 1 } ∧
      F ⟨machine.stamps, params, body, some id⟩ ⟨twin.stamps, params', body', some id⟩
  /-- Opening a scope for a call. -/
  push : ∀ {machine twin closure closure'}, F closure closure' → P machine twin →
    P { machine with heap := machine.heap.push closure.scope }
      { twin with heap := twin.heap.push closure'.scope }
  /-- Opening a call. -/
  opened : ∀ {machine twin}, P machine twin →
    P { machine with depth := machine.depth + 1 } { twin with depth := twin.depth + 1 }
  /-- Closing a call. -/
  shut : ∀ {machine twin}, P machine twin →
    P { machine with depth := machine.depth - 1 } { twin with depth := twin.depth - 1 }

namespace Lockstep

variable {faulty : Prop} {own : ScopeId → Prop} {N : Node → Node → Prop}
  {F : Closure → Closure → Prop} {P : Machine → Machine → Prop}

/-- What is alike on the two sides, in the terms of `Walk.node_paired`: trees by `N`, and values
that are linked by `F`. -/
def likeness (faulty : Prop) (own : ScopeId → Prop) (N : Node → Node → Prop)
    (F : Closure → Closure → Prop) : Likeness where
  faulty := faulty
  own := own
  names _ := True
  nodes := N
  values := Value.Linked F
  delivered := Value.Linked F
  carried := Value.Linked F

theorem readName_coupled (h : Lockstep faulty own N F P) {id : ScopeId} (hid : own id)
    (name : Bytes) : Coupled faulty P (Value.Linked F) (readName id name) (readName id name) := by
  refine Coupled.get.bind fun machine twin hmachine => .pure ?_
  have hread := h.read name hid hmachine
  revert hread
  cases machine.heap.lookup name id with
  | none =>
    cases twin.heap.lookup name id with
    | none => exact fun _ => .error _
    | some twin => exact fun hread => nomatch hread
  | some value =>
    cases twin.heap.lookup name id with
    | none => exact fun hread => nomatch hread
    | some twin =>
      rintro (hread | _)
      exact hread

/-- **The steps of evaluation respect the relations**: they are alike on both sides in the sense of
`Steps.Enterable`, so that walks are. -/
theorem enterable (h : Lockstep faulty own N F P) :
    Eval.steps.Enterable (fun _ => Coupled faulty P) (likeness faulty own N F) Eval.steps where
  pure := .pure
  bind := .bind
  values := Value.Linked.pairing h.stamp
  layer := h.layer
  name _ := trivial
  stuck hfaulty := .throw _ fun _ => hfaulty
  bindName name hid _ hvalue := .modify fun _ _ hmachine => h.bind name hid hvalue hmachine
  readName name hid := h.readName_coupled hid name
  newFunction hid hnode := by
    intro machine twin hmachine
    obtain ⟨hafter, hclosure⟩ := h.make hnode hid hmachine
    exact ⟨hafter, .ok (.function hclosure)⟩
  anyName _ := trivial
  openScope hclosure := by
    intro machine twin hmachine
    cases hclosure with
    | function hclosure => exact ⟨h.push hclosure hmachine, .ok (h.next hmachine)⟩
  params hclosure := by
    cases hclosure with
    | function hclosure => exact h.params hclosure
  body hclosure := by
    cases hclosure with
    | function hclosure => exact h.body hclosure

/-- **Calls of related functions are coupled**, however deeply calls may nest. -/
theorem call_coupled (h : Lockstep faulty own N F P) (limit room : Nat) :
    (likeness faulty own N F).Calls (fun _ => Coupled faulty P) (Value.Linked F)
      (call limit room) (call limit room) := by
  induction room with
  | zero =>
    intro closure twin values values' _ _ machine machine' hmachine
    have hdepth := h.depth hmachine
    -- both machines have as many calls open, so that both are at the limit or neither is
    by_cases hlimit : atLimit limit machine.depth
    · rw [call_of_atLimit closure values 0 hlimit, call_of_atLimit twin values' 0 (hdepth ▸ hlimit)]
      exact ⟨hmachine, .error _ fun hstuck => nomatch hstuck⟩
    · rw [call_zero closure values hlimit, call_zero twin values' (hdepth ▸ hlimit)]
      exact ⟨hmachine, .error _ fun hstuck => nomatch hstuck⟩
  | succ room ih =>
    intro closure twin values values' hclosure hvalues machine machine' hmachine
    have hdepth := h.depth hmachine
    by_cases hlimit : atLimit limit machine.depth
    · rw [call_of_atLimit closure values _ hlimit, call_of_atLimit twin values' _ (hdepth ▸ hlimit)]
      exact ⟨hmachine, .error _ fun hstuck => nomatch hstuck⟩
    · rw [call_succ closure values room hlimit, call_succ twin values' room (hdepth ▸ hlimit)]
      have hbody := Walk.enter_paired h.enterable ih closure twin values values' hclosure hvalues
      rw [← enter_eq_walk, ← enter_eq_walk] at hbody
      exact Coupled.withOpenCall hbody h.opened h.shut machine machine' hmachine

/-- `evalProgram` on related programs is coupled. -/
theorem evaluate_coupled (h : Lockstep faulty own N F P) (limit : Nat) (id : ScopeId) (hid : own id)
    {program twin : Program} (hprogram : List.Forall₂ N program twin) :
    Coupled faulty P (Value.Linked F) (evalProgram (call limit (room limit)) program id)
      (evalProgram (call limit (room limit)) twin id) := by
  rw [evalProgram_eq_walk, evalProgram_eq_walk]
  exact Walk.program_paired h.enterable.toPaired (h.call_coupled limit (room limit)) hid hprogram

end Lockstep

end TreeWalk
