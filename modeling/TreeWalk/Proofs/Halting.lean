import TreeWalk.Proofs.Moments
import TreeWalk.Proofs.ProperTrees

/-!
# With a limit every run ends

The body of a called function is found on the heap and is no part of the call, so no recursion on
trees alone accounts for evaluation: a function may find itself on the heap and call itself for
ever.  What ends a run is the limit on nested calls.

This is said of the machine that takes one step at a time, `Moment.step`, with no bound on how many.
It halts, with exactly the result of the run; and at each moment as many calls are open as bodies of
functions wait for their values.

## Main definitions

* `Moment.openCalls` — the calls whose bodies wait for their values.
* `Moment.Counted` — as many calls are open as wait, and not more than the limit allows.

## Main results

* `Moment.Counted.step`, `Moment.depth_iterate_le` — at no moment are more calls open than the limit
  allows.
* `Machine.run_halts` — **every run with a limit halts.**
-/

namespace TreeWalk

namespace Moment

/-! ### Open calls -/

/-- The number of open calls among what waits: of the entries `body`. -/
def openCalls : List Await → Nat
  | [] => 0
  | .body :: waiting => openCalls waiting + 1
  | _ :: waiting => openCalls waiting

/-- On `machine` as many calls are open as are `waiting`, and not more than the `limit` allows. -/
structure Level (limit : Nat) (machine : Machine) (waiting : List Await) : Prop where
  /-- The machine counts what waits. -/
  depth : machine.depth = openCalls waiting
  /-- The limit is not exceeded. -/
  most : openCalls waiting ≤ limit

/-- An entry that `passes` signals on is no body of a call, and so it does not count. -/
theorem Level.tail {limit : Nat} {machine : Machine} {await : Await} {waiting : List Await}
    (h : Level limit machine (await :: waiting)) (hpasses : passes await) :
    Level limit machine waiting := by
  cases await with
  | body => cases hpasses
  | _ => exact ⟨h.depth, h.most⟩

/-- `Level` at a moment: as many calls are open as wait, and not more than the `limit` allows; at
the end of a run no call is open. -/
def Counted (limit : Nat) : Moment → Prop
  | entering machine _ _ waiting => Level limit machine waiting
  | yielding machine _ waiting => Level limit machine waiting
  | halted result => result.2.depth = 0

section

variable {limit : Nat} {machine : Machine} {id : ScopeId} {waiting : List Await}

theorem counted_row (h : Level limit machine waiting) (stmts : List Node) (last : Value) :
    (row id waiting machine stmts last).Counted limit := by
  cases stmts with
  | nil => exact h
  | cons node more => exact ⟨h.depth, h.most⟩

theorem counted_block (h : Level limit machine waiting) (node : Node) :
    (block id waiting machine node).Counted limit := by
  cases node with
  | block token stmts => exact counted_row h stmts .nothing
  | _ => rfl

/-- `invoke` opens a call only below the `limit`, so that one more open call is still allowed. -/
theorem counted_arguments (hlimit : 0 < limit) (h : Level limit machine waiting) (closure : Closure)
    (values : List Value) (args : List Node) :
    (arguments limit closure id waiting machine values args).Counted limit := by
  cases args with
  | nil =>
    rw [arguments, invoke]
    split
    · rfl
    · next hat =>
      rw [atLimit_iff hlimit, h.depth, Nat.not_le] at hat
      exact counted_block ⟨congrArg (· + 1) h.depth, hat⟩ closure.body
  | cons node more => exact ⟨h.depth, h.most⟩

theorem counted_resume (hlimit : 0 < limit) (value : Value) {await : Await}
    (h : Level limit machine (await :: waiting)) :
    (resume limit value waiting machine await).Counted limit := by
  cases await with
  | body =>
    -- the body of a call has its value, and the call is closed
    exact ⟨Nat.sub_eq_of_eq_add h.depth, Nat.le_of_succ_le h.most⟩
  | choice yes no id =>
    have hlevel := h.tail rfl
    rw [resume]
    split
    · exact counted_block hlevel yes
    · split
      · exact hlevel
      · exact counted_block hlevel no
  | callee args id =>
    have hlevel := h.tail rfl
    rw [resume]
    split
    · exact counted_arguments hlimit hlevel _ _ args
    · exact hlevel
  | argument closure values more id =>
    exact counted_arguments hlimit (h.tail rfl) closure _ more
  | row more id => exact counted_row (h.tail rfl) more value
  | _ => exact ⟨h.depth, h.most⟩

/-- **A step keeps the count of open calls**: `Counted` is an invariant of `Moment.step`. -/
theorem Counted.step (hlimit : 0 < limit) {moment : Moment} (h : moment.Counted limit) :
    (step limit moment).Counted limit := by
  cases moment with
  | entering machine node id waiting =>
    cases node with
    | bare kind =>
      cases kind with
      | unassigned number => exact h
      -- the run is given up, which closes all calls
      | _ => rfl
    | block token stmts => exact counted_row h stmts .nothing
    | _ => exact ⟨h.depth, h.most⟩
  | yielding machine value waiting =>
    cases waiting with
    | nil => exact h.depth
    | cons await waiting =>
      rw [Moment.step]
      split
      -- what hands a signal on is no open call
      · next hsignal => exact h.tail (Bool.and_eq_true_iff.1 hsignal).1
      · exact counted_resume hlimit value h
  | halted result => exact h

/-- By induction on `count`: at no moment are more calls open than the `limit` allows. -/
theorem depth_iterate_le (hlimit : 0 < limit) (machine : Machine) (program : Program)
    (id : ScopeId) (count : Nat) :
    ((Moment.step limit)^[count] (start machine program id)).machine.depth ≤ limit := by
  have hcounted : ((Moment.step limit)^[count] (start machine program id)).Counted limit := by
    induction count with
    | zero => exact counted_row ⟨rfl, Nat.zero_le limit⟩ program .nothing
    | succ count ih =>
      rw [Function.iterate_succ_apply']
      exact ih.step hlimit
  generalize (Moment.step limit)^[count] (start machine program id) = moment at hcounted
  cases moment with
  | entering machine node id waiting => exact hcounted.depth ▸ hcounted.most
  | yielding machine value waiting => exact hcounted.depth ▸ hcounted.most
  | halted result => exact Nat.le_trans (Nat.le_of_eq hcounted) (Nat.zero_le limit)

end

end Moment

namespace Machine

open Moment

variable (machine : Machine) (program : Program) (id : ScopeId) {limit : Nat}

/-- **With a limit every run ends.**  Whatever is on the heap, functions that find themselves there
included, a run taken one step at a time halts, with exactly the result of the run, and at no moment
of it are more calls open than the limit allows.  The result is a value, or that the limit was
exceeded; or the run was stuck, which only happens to programs or functions that are malformed. -/
theorem run_halts (hlimit : 0 < limit) :
    (∃ count, (step limit)^[count] (start machine program id) =
      halted (machine.run limit program id)) ∧
    (∀ count, ((step limit)^[count] (start machine program id)).machine.depth ≤ limit) ∧
    ∀ reason, (machine.run limit program id).1 = .error reason →
      reason = .tooDeep limit ∨
        reason = .stuck ∧ ¬ (machine.Proper ∧ ∀ stmt ∈ program, stmt.IsStatement) := by
  refine ⟨(machine.run_reached (machine.run_ne_unfinished hlimit program id)).exists_iterate,
    depth_iterate_le hlimit machine program id, fun reason hreason => ?_⟩
  rcases run_error_cases hlimit hreason with rfl | rfl
  · refine .inr ⟨rfl, ?_⟩
    rintro ⟨hproper, hprogram⟩
    exact (hproper.run limit hprogram id).2 hreason
  · exact .inl rfl

/-- With `f` bound to `fn() {f()}`, the call `f()` ends because of the limit. -/
theorem run_halts_endless_call :
    let word : Token := default
    let f : Ident := ⟨word, [102]⟩
    let again : Node := .exprStmt word (.call word (.ident f) [])
    let endless : Value := .function ⟨0, [], .block word [again], some 0⟩
    let machine : Machine := { fresh with heap := fresh.heap.bind 0 [102] endless, stamps := 1 }
    0 < 3 ∧
      (∃ count, (step 3)^[count] (start machine [again] 0) = halted (machine.run 3 [again] 0)) ∧
      (machine.run 3 [again] 0).1 = .error (.tooDeep 3) := by
  intro word f again endless machine
  refine ⟨by decide, (run_halts machine [again] 0 (by decide)).1, ?_⟩
  -- values hold numbers and cannot be decided, but the reason can
  have hreason : (match (machine.run 3 [again] 0).1 with
      | .error reason => some reason
      | .ok _ => none) = some (.tooDeep 3) := by
    decide +kernel
  cases hending : (machine.run 3 [again] 0).1 with
  | error reason =>
    rw [hending] at hreason
    exact congrArg Except.error (Option.some.inj hreason)
  | ok value =>
    rw [hending] at hreason
    cases hreason

end Machine

end TreeWalk
