import TreeWalk.Proofs.HeapLaws
import TreeWalk.Proofs.Invariant

/-!
# Signals stay out of the scopes

Scopes hold plain values only: numbers, truth values, texts, null and functions.  Neither nothing
nor an error nor a pending return is ever bound, although all of them travel through evaluation as
results.

The invariant is stated for a set of scopes that no link leads out of, as the scopes in reach of one
scope are such a set: what the other scopes hold does not matter then.

## Main definitions

* `Value.IsPlain` — a value of the language proper.
* `Heap.PlainIn` — the scopes of a set hold plain values only, and no link leads out of the set.
* `Machine.Reachable` — what becomes of a new machine by running things on it.

## Main results

* `Heap.plainIn_stable` — **evaluation keeps scopes plain.**
* `Machine.signals_stay_out_of_scopes` — whatever is run on a new machine, no signal is ever bound,
  a pending return carries a plain value, and no call and no program ends in a pending return.
-/

namespace TreeWalk

namespace Value

/-- A value of the language proper: neither nothing nor a signal. -/
def IsPlain : Value → Prop
  | null | number _ | boolean _ | text _ | function _ => True
  | nothing | error _ | pending _ => False

/-- A plain value (`Value.IsPlain`) that leads to no scope outside the set `S`: if it is a function,
it was made inside the set. -/
def PlainIn (S : ScopeId → Prop) : Value → Prop
  | null | number _ | boolean _ | text _ => True
  | function closure => ∀ id ∈ closure.scope, S id
  | nothing | error _ | pending _ => False

theorem PlainIn.isPlain {S : ScopeId → Prop} {value : Value} (h : value.PlainIn S) :
    value.IsPlain := by
  cases value with
  | nothing | error | pending => exact h
  | _ => trivial

theorem IsPlain.plainIn {value : Value} (h : value.IsPlain) : value.PlainIn fun _ => True := by
  cases value with
  | function closure => exact fun _ _ => trivial
  | _ => exact h

theorem plainIn_closed (S : ScopeId → Prop) : Closed (PlainIn S) where
  null := trivial
  number _ := trivial
  boolean _ := trivial
  text _ := trivial
  returned _ h := h.elim

/-- What a call can yield is no pending return: `Value.Delivers` has none for a class of plain
values. -/
theorem Delivers.ne_pending {S : ScopeId → Prop} {value : Value} (h : value.Delivers (PlainIn S)) :
    ∀ carried, value ≠ .pending carried := by
  rintro carried rfl
  cases h with
  | value h => exact h

/-- The value that a pending return carries is plain. -/
theorem Carries.plainIn_of_pending {S : ScopeId → Prop} {value : Value}
    (h : Carries (PlainIn S) (.pending value)) : value.PlainIn S := by
  cases h with
  | delivers h => exact absurd rfl (h.ne_pending value)
  | pending h => exact h

end Value

/-- The scopes of the set `S` hold plain values only, and neither a link nor a function leads out of
the set; all scopes still to be made are in it. -/
structure Heap.PlainIn (S : ScopeId → Prop) (heap : Heap) : Prop where
  /-- Scopes still to be made are in the set. -/
  fresh : ∀ id, heap.next ≤ id → S id
  /-- Links do not lead out of the set. -/
  outer : ∀ id outer, S id → heap.outer? id = some outer → S outer
  /-- The scopes of the set hold plain values. -/
  holds : ∀ id name value, S id → heap.Holds id name value → value.PlainIn S

namespace Heap.PlainIn

variable {S : ScopeId → Prop} {heap : Heap}

theorem bind (h : heap.PlainIn S) (id : ScopeId) (name : Bytes) {value : Value}
    (hvalue : value.PlainIn S) : (heap.bind id name value).PlainIn S where
  fresh other hother := h.fresh other (by rwa [next_bind] at hother)
  outer other outer hother houter := h.outer other outer hother (by rwa [outer?_bind] at houter)
  holds other key held hother hheld := by
    rcases holds_bind hheld with ⟨-, -, rfl⟩ | hheld
    · exact hvalue
    · exact h.holds other key held hother hheld

theorem push (h : heap.PlainIn S) {outer : Option ScopeId} (houter : ∀ id ∈ outer, S id) :
    (heap.push outer).PlainIn S where
  fresh id hid := h.fresh id (Nat.le_of_succ_le (by rwa [next_push] at hid))
  outer id next hid hnext := by
    rw [outer?_push] at hnext
    split at hnext
    · exact houter next hnext
    · exact h.outer id next hid hnext
  holds id key held hid hheld := h.holds id key held hid (holds_push hheld)

theorem lookup (h : heap.PlainIn S) {id : ScopeId} (hid : S id) {name : Bytes} {value : Value}
    (hvalue : heap.lookup name id = some value) : value.PlainIn S := by
  obtain ⟨other, hother, hheld⟩ := exists_holds_of_lookup h.outer hid hvalue
  exact h.holds other name value hother hheld

end Heap.PlainIn

/-- **Evaluation keeps scopes plain** (`Heap.PlainIn`), and leaves as many calls open as there
were. -/
theorem Heap.plainIn_stable (S : ScopeId → Prop) :
    Stable S (fun depth machine => machine.heap.PlainIn S ∧ machine.depth = depth)
      (Value.PlainIn S) where
  closed := Value.plainIn_closed S
  fresh h := h.1.fresh _ (Nat.le_refl _)
  read hid h hvalue := h.1.lookup hid hvalue
  bind name _ hvalue h := ⟨h.1.bind _ name hvalue, h.2⟩
  make _ _ hid h := ⟨h, fun _ hother => Option.some.inj hother ▸ hid⟩
  push hclosure h := ⟨h.1.push hclosure, h.2⟩
  opened h := ⟨h.1, congrArg (· + 1) h.2⟩
  shut h := ⟨h.1, congrArg (· - 1) h.2⟩

/-! ### Whole runs -/

namespace Machine

/-- What becomes of a new machine: anything may be evaluated on it in any scope and with any limit,
functions may be called with plain values, scopes opened, plain values bound, and another evaluator
may take over, with its own number of open calls. -/
inductive Reachable : Machine → Prop
  /-- A new machine. -/
  | fresh : Reachable .fresh
  /-- A program was run, up to its end or up to where it was given up. -/
  | run {machine : Machine} (h : Reachable machine) (limit : Nat) (program : Program)
      (id : ScopeId) : Reachable (machine.run limit program id).2
  /-- A program was evaluated. -/
  | evaluate {machine : Machine} (h : Reachable machine) (limit : Nat) (program : Program)
      (id : ScopeId) : Reachable (machine.evaluate limit program id).2
  /-- A node was evaluated. -/
  | eval {machine : Machine} (h : Reachable machine) (limit : Nat) (node : Node) (id : ScopeId) :
      Reachable (machine.eval limit node id).2
  /-- A function was called. -/
  | call {machine : Machine} (h : Reachable machine) (limit room : Nat) (closure : Closure)
      {values : List Value} (hvalues : ∀ value ∈ values, value.IsPlain) :
      Reachable (TreeWalk.call limit room closure values machine).2
  /-- A scope was opened. -/
  | push {machine : Machine} (h : Reachable machine) (outer : Option ScopeId) :
      Reachable { machine with heap := machine.heap.push outer }
  /-- A plain value was bound. -/
  | bind {machine : Machine} (h : Reachable machine) (id : ScopeId) (name : Bytes) {value : Value}
      (hvalue : value.IsPlain) : Reachable { machine with heap := machine.heap.bind id name value }
  /-- Another evaluator took over. -/
  | handOver {machine : Machine} (h : Reachable machine) (depth : Nat) :
      Reachable { machine with depth }

/-- All scopes of a machine hold plain values only. -/
def Plain (machine : Machine) : Prop := machine.heap.PlainIn fun _ => True

variable {machine : Machine}

theorem fresh_plain : fresh.Plain where
  fresh _ _ := trivial
  outer _ _ _ _ := trivial
  holds _ _ _ _ h := by
    obtain ⟨_, hscope, -⟩ := Heap.holds_push h
    exact nomatch hscope

/-- A step that keeps all scopes plain does so from one machine, and yields what it promises. -/
theorem Plain.of_keeps {α : Type} {Q : α → Prop} {step : Eval α} (h : machine.Plain)
    (hstep : Keeps (fun after => after.heap.PlainIn (fun _ => True) ∧ after.depth = machine.depth) Q
      step) :
    (step machine).2.Plain ∧ ∀ result, (step machine).1 = .ok result → Q result := by
  obtain ⟨hafter, hresult⟩ := hstep machine ⟨h, rfl⟩
  exact ⟨hafter.1, hresult⟩

theorem Plain.eval (h : machine.Plain) (limit : Nat) (node : Node) (id : ScopeId) :
    (machine.eval limit node id).2.Plain ∧ ∀ result, (machine.eval limit node id).1 = .ok result →
      result.Carries (Value.PlainIn fun _ => True) :=
  h.of_keeps ((Heap.plainIn_stable _).eval_keeps limit machine.depth trivial node)

theorem Plain.evaluate (h : machine.Plain) (limit : Nat) (program : Program) (id : ScopeId) :
    (machine.evaluate limit program id).2.Plain ∧
      ∀ result, (machine.evaluate limit program id).1 = .ok result →
        result.Delivers (Value.PlainIn fun _ => True) :=
  h.of_keeps ((Heap.plainIn_stable _).evaluate_keeps limit machine.depth trivial program)

theorem Plain.call (h : machine.Plain) (limit room : Nat) (closure : Closure) {values : List Value}
    (hvalues : ∀ value ∈ values, value.IsPlain) :
    (TreeWalk.call limit room closure values machine).2.Plain ∧
      ∀ result, (TreeWalk.call limit room closure values machine).1 = .ok result →
        result.Delivers (Value.PlainIn fun _ => True) :=
  h.of_keeps ((Heap.plainIn_stable _).call_keeps limit room machine.depth closure values
    (fun _ _ => trivial) fun value hvalue => (hvalues value hvalue).plainIn)

/-- `Machine.run` is `Machine.evaluate` on the machine without open calls, as far as the ending and
the heap are concerned. -/
theorem run_eq (limit : Nat) (program : Program) (id : ScopeId) :
    (machine.run limit program id).1 = (machine.idle.evaluate limit program id).1 ∧
    (machine.run limit program id).2.heap = (machine.idle.evaluate limit program id).2.heap := by
  rw [run]
  split <;> next hrun => rw [hrun]; exact ⟨rfl, rfl⟩

theorem Reachable.plain (h : machine.Reachable) : machine.Plain := by
  induction h with
  | fresh => exact fresh_plain
  | @run machine _ limit program id ih =>
    -- the number of open calls does not matter to what the scopes hold
    have hidle : machine.idle.Plain := ih
    have hafter := (hidle.evaluate limit program id).1
    rwa [Plain, (run_eq limit program id).2]
  | evaluate _ limit program id ih => exact (ih.evaluate limit program id).1
  | eval _ limit node id ih => exact (ih.eval limit node id).1
  | call _ limit room closure hvalues ih => exact (ih.call limit room closure hvalues).1
  | push _ outer ih => exact Heap.PlainIn.push ih fun _ _ => trivial
  | bind _ id name hvalue ih => exact Heap.PlainIn.bind ih id name hvalue.plainIn
  | handOver _ depth ih => exact ih

/-- **Signals stay out of the scopes.**  On every machine that can be reached, whatever any scope
holds is plain; a pending return that an evaluation yields carries a plain value; and neither calls
nor programs yield a pending return. -/
theorem signals_stay_out_of_scopes (h : machine.Reachable) :
    (∀ id name value, machine.heap.Holds id name value → value.IsPlain) ∧
    (∀ limit node id value,
      (machine.eval limit node id).1 = .ok (.pending value) → value.IsPlain) ∧
    (∀ limit room closure values, (∀ value ∈ values, value.IsPlain) →
      ∀ value, (TreeWalk.call limit room closure values machine).1 ≠ .ok (.pending value)) ∧
    (∀ limit program id value, (machine.evaluate limit program id).1 ≠ .ok (.pending value)) ∧
    (∀ limit program id value, (machine.run limit program id).1 ≠ .ok (.pending value)) := by
  have hplain := h.plain
  refine ⟨?_, ?_, ?_, ?_, ?_⟩
  · intro id name value hheld
    exact (hplain.holds id name value trivial hheld).isPlain
  · intro limit node id value hvalue
    exact ((hplain.eval limit node id).2 _ hvalue).plainIn_of_pending.isPlain
  · intro limit room closure values hvalues value hvalue
    exact ((hplain.call limit room closure hvalues).2 _ hvalue).ne_pending value rfl
  · intro limit program id value hvalue
    exact ((hplain.evaluate limit program id).2 _ hvalue).ne_pending value rfl
  · intro limit program id value hvalue
    -- a run starts with no call open, which changes nothing about the heap
    have hidle : machine.idle.Plain := hplain
    rw [(run_eq limit program id).1] at hvalue
    exact ((hidle.evaluate limit program id).2 _ hvalue).ne_pending value rfl

/-- In `let x = if (true) {return "a"}` the value to bind is a pending return: it is handed on and
carries a plain value. -/
theorem signals_stay_out_of_scopes_let_return :
    let word : Token := default
    let node : Node := .letStmt word ⟨word, [120]⟩
      (.ifElse word (.boolean word true) (.block word [.returnStmt word (.text word [97])]) .hole)
    fresh.Reachable ∧ (fresh.eval 1 node 0).1 = .ok (.pending (.text [97])) ∧
      (Value.text [97]).IsPlain := by
  intro word node
  exact ⟨.fresh, rfl, (signals_stay_out_of_scopes .fresh).2.1 1 node 0 _ rfl⟩

end Machine

end TreeWalk
