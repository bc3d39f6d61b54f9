import TreeWalk.Proofs.Raising
import TreeWalk.Proofs.PairedWalks

/-!
# How deeply calls nest

The limit on nested calls is exact, and nothing else of an evaluation depends on it.  To say so, the
walk is done with steps that keep no count of open calls and know of no limit, but tell the most
calls that were open at once: the most of two steps in a row is the larger one of the two, and a
call is one more than what its body tells (`Metered`).

Without a limit an evaluation need not end.  The metered evaluation therefore has a room, the number
of calls that may be open at once, and is given up when the room is used up; an evaluation without a
limit ends when some room is enough for it (`Machine.EndsFreely`).

## Main definitions

* `Metered`, `Metered.steps`, `Metered.call` — steps that tell the most calls open at once.
* `Erases` — a step of evaluation does what a metered step does.
* `Fits` — a metered step in a small room, compared with the same step in a larger one.
* `Machine.EndsFreely` — an evaluation without a limit ends, and the most calls open during it.

## Main results

* `call_erases`, `call_erases_freely` — a limit on calls is a room.
* `Metered.call_fits` — **a room changes nothing unless it is used up.**
* `Machine.run_limit_exact` — a run is given up exactly if more calls than the limit are ever open
  at once, and every other run is the one without a limit.
-/

namespace TreeWalk

/-! ### Metered steps -/

/-- What a metered step ends with: its `ending`, the store `after` it, and the `most` calls that
were open at once on the way. -/
structure Metering (α : Type) where
  /-- The result, or why the evaluation was given up. -/
  ending : Except Abort α
  /-- What is in store afterwards. -/
  after : Store
  /-- The most calls that were open at once during the step. -/
  most : Nat

/-- A metered step: it changes the store and tells the most calls that were open at once. -/
def Metered (α : Type) : Type := Store → Metering α

namespace Metered

instance : Monad Metered where
  pure result store := ⟨.ok result, store, 0⟩
  bind step next store :=
    match step store with
    | ⟨.ok result, after, most⟩ =>
      let more := next result after
      { more with most := max most more.most }
    | ⟨.error reason, after, most⟩ => ⟨.error reason, after, most⟩

variable {α β : Type}

theorem pure_apply (result : α) (store : Store) :
    (pure result : Metered α) store = ⟨.ok result, store, 0⟩ := rfl

theorem bind_of_ok {step : Metered α} {store after : Store} {result : α} {most : Nat}
    (h : step store = ⟨.ok result, after, most⟩) (next : α → Metered β) :
    (step >>= next) store =
      { next result after with most := max most (next result after).most } := by
  simp only [bind, h]

theorem bind_of_error {step : Metered α} {store after : Store} {reason : Abort} {most : Nat}
    (h : step store = ⟨.error reason, after, most⟩) (next : α → Metered β) :
    (step >>= next) store = ⟨.error reason, after, most⟩ := by
  simp only [bind, h]

/-- `Metered` is lawful, because `max` is associative and `0` is neutral for it. -/
instance : LawfulMonad Metered := by
  refine LawfulMonad.mk' Metered (fun step => ?_) (fun result next => ?_) fun step next more => ?_
  · funext store
    show (step >>= pure) store = step store
    rcases hstep : step store with ⟨_ | result, after, most⟩
    · exact bind_of_error hstep _
    · rw [bind_of_ok hstep, pure_apply, Nat.max_zero]
  · funext store
    rw [bind_of_ok (pure_apply result store), Nat.zero_max]
  · funext store
    rcases hstep : step store with ⟨_ | result, after, most⟩
    · rw [bind_of_error (bind_of_error hstep next), bind_of_error hstep]
    · have hfirst := bind_of_ok hstep next
      rw [bind_of_ok hstep]
      rcases hnext : next result after with ⟨_ | result', after', most'⟩
      · rw [hnext] at hfirst
        rw [bind_of_error hfirst, bind_of_error hnext]
      · rw [hnext] at hfirst
        rw [bind_of_ok hfirst, bind_of_ok hnext, Nat.max_assoc]

/-- Gives the evaluation up for the given `reason`, on the store as it is. -/
def giveUp (reason : Abort) : Metered α := fun store => ⟨.error reason, store, 0⟩

/-- A step during which one more call is open than `step` opens. -/
def nested (step : Metered α) : Metered α := fun store =>
  { step store with most := (step store).most + 1 }

/-- The steps of the metered walk: those of `Eval.steps` without the counter, none of which opens a
call. -/
def steps : Steps Metered where
  stuck := giveUp .stuck
  bindName id name value := fun store =>
    ⟨.ok (), { store with heap := store.heap.bind id name value }, 0⟩
  readName id name := fun store =>
    ⟨.ok ((store.heap.lookup name id).getD (.error (.unbound name))), store, 0⟩
  newFunction params body scope := fun store =>
    ⟨.ok (.function ⟨store.stamps, params, body, scope⟩),
      { store with stamps := store.stamps + 1 }, 0⟩
  openScope outer := fun store =>
    ⟨.ok store.heap.next, { store with heap := store.heap.push outer }, 0⟩

/-- The meaning of calls that may nest `room` levels.  A call beyond that is opened, and then the
evaluation is given up for the given `reason`. -/
def call (reason : Abort) : Nat → Closure → List Value → Metered Value
  | 0, _, _ => nested (giveUp reason)
  | room + 1, closure, values => nested (Walk.enter steps (call reason room) closure values)

/-- Evaluates the program `nodes` in the scope `id`, with the meaning `call reason room` of
calls. -/
def program (reason : Abort) (room : Nat) (nodes : Program) (id : ScopeId) : Metered Value :=
  Walk.program steps (call reason room) nodes id

end Metered

/-! ### A limit is a room -/

/-- The machine with what is in `store` and with `depth` open calls. -/
def Store.machine (store : Store) (depth : Nat) : Machine := ⟨store.heap, store.stamps, depth⟩

/-- With `depth` calls open, `step` ends as `metered` does and leaves the same store; afterwards
`depth` calls are open again. -/
def Erases (depth : Nat) (α : Type) (step : Eval α) (metered : Metered α) : Prop :=
  ∀ store : Store, step (store.machine depth) =
    ((metered store).ending, (metered store).after.machine depth)

/-- `Eval.steps` and `Metered.steps` are related by `Erases depth`, so that `Walk.node_related`
carries the relation over to whole walks. -/
theorem erases_related (depth : Nat) : Eval.steps.Related (Erases depth) Metered.steps where
  pure _ _ := rfl
  bind {α β step other next next'} hstep hnext := by
    intro store
    rw [run_bind, hstep store]
    rcases hother : other store with ⟨_ | result, after, most⟩
    · rw [Metered.bind_of_error hother]
    · rw [Metered.bind_of_ok hother]
      exact hnext result after
  stuck _ := rfl
  bindName _ _ _ _ := rfl
  readName _ _ _ := rfl
  newFunction _ _ _ _ := rfl
  openScope _ _ := rfl

/-- A call that `withOpenCall` opens and closes again is one level of `Metered.nested`. -/
theorem Erases.nested {depth : Nat} {α : Type} {step : Eval α} {metered : Metered α}
    (h : Erases (depth + 1) α step metered) :
    Erases depth α (withOpenCall step) (Metered.nested metered) := by
  intro store
  have hstep := h store
  simp only [withOpenCall, Store.machine] at hstep ⊢
  rw [hstep]
  rfl

/-- With a `limit`, `call` has as much room as the limit leaves: `limit - depth` levels of
`Metered.call`, which give up with `tooDeep limit`.  Its own `room` is never used up. -/
theorem call_erases {limit : Nat} (hlimit : 0 < limit) {room depth : Nat}
    (hroom : limit ≤ room + depth) (closure : Closure) (values : List Value) :
    Erases depth Value (call limit room closure values)
      (Metered.call (.tooDeep limit) (limit - depth) closure values) := by
  induction room generalizing depth closure values with
  | zero =>
    intro store
    have hat : atLimit limit (store.machine depth).depth := (atLimit_iff hlimit _).mpr (by
      show limit ≤ depth
      omega)
    rw [call_of_atLimit closure values 0 hat, Nat.sub_eq_zero_of_le (by omega)]
    rfl
  | succ room ih =>
    by_cases hdepth : limit ≤ depth
    · intro store
      have hat : atLimit limit (store.machine depth).depth := (atLimit_iff hlimit _).mpr hdepth
      rw [call_of_atLimit closure values (room + 1) hat, Nat.sub_eq_zero_of_le hdepth]
      rfl
    · intro store
      have hat : ¬ atLimit limit (store.machine depth).depth := by
        rw [atLimit_iff hlimit]
        exact hdepth
      -- the body has one more call open and one level less left
      have hless : limit - depth = (limit - (depth + 1)) + 1 := by omega
      have hbody := Walk.enter_related (erases_related (depth + 1))
        (fun closure values => ih (by omega) closure values) closure values
      rw [← enter_eq_walk] at hbody
      rw [call_succ closure values room hat, hless, Metered.call]
      exact hbody.nested store

/-- Without a limit, `call` has the `room` it is given, and gives up with `unfinished` beyond it. -/
theorem call_erases_freely (room depth : Nat) (closure : Closure) (values : List Value) :
    Erases depth Value (call 0 room closure values)
      (Metered.call .unfinished room closure values) := by
  have hat : ∀ machine : Machine, ¬ atLimit 0 machine.depth := fun _ => Bool.false_ne_true
  induction room generalizing depth closure values with
  | zero =>
    intro store
    rw [call_zero closure values (hat _)]
    rfl
  | succ room ih =>
    intro store
    have hbody := Walk.enter_related (erases_related (depth + 1)) (ih (depth + 1)) closure values
    rw [← enter_eq_walk] at hbody
    rw [call_succ closure values room (hat _), Metered.call]
    exact hbody.nested store

/-! ### Small and large rooms -/

/-- The end `narrow` of a step in a small `room`, compared with the end `wide` of the same step in a
larger one: where at most `room` calls were open they are the same, and where more were, the narrow
step is given up for the `reason`. -/
structure FitsAt (reason : Abort) (room : Nat) {α : Type} (narrow wide : Metering α) : Prop where
  /-- The room is enough. -/
  same : wide.most ≤ room → narrow = wide
  /-- The room is not enough. -/
  exceeded : room < wide.most → narrow.ending = .error reason
  /-- Nothing else but a malformed node makes a step be given up. -/
  given : ∀ abort, narrow.ending = .error abort → abort = .stuck ∨ abort = reason

/-- `FitsAt` on every store. -/
def Fits (reason : Abort) (room : Nat) (α : Type) (narrow wide : Metered α) : Prop :=
  ∀ store, FitsAt reason room (narrow store) (wide store)

namespace Fits

variable {reason : Abort} {room : Nat} {α β : Type}

/-- A step that opens no call, and that is given up at most because it is stuck, fits itself. -/
theorem of_calm {step : Metered α} (hmost : ∀ store, (step store).most = 0)
    (hgiven : ∀ store abort, (step store).ending = .error abort → abort = .stuck) :
    Fits reason room α step step := by
  intro store
  refine ⟨fun _ => rfl, fun hmore => ?_, fun abort habort => .inl (hgiven store abort habort)⟩
  rw [hmost store] at hmore
  exact absurd hmore (Nat.not_lt_zero room)

/-- `Fits` is kept by `>>=`. -/
theorem bind {step wider : Metered α} {next next' : α → Metered β}
    (hstep : Fits reason room α step wider)
    (hnext : ∀ result, Fits reason room β (next result) (next' result)) :
    Fits reason room β (step >>= next) (wider >>= next') := by
  intro store
  obtain ⟨hsame, hexceeded, hgiven⟩ := hstep store
  by_cases hroom : (wider store).most ≤ room
  · -- the first step is the same in both rooms, so it all depends on the second one
    have hfirst := hsame hroom
    rcases hwider : wider store with ⟨reason' | result, after, most⟩
    · rw [hwider] at hfirst hroom
      rw [hfirst] at hgiven
      rw [Metered.bind_of_error hfirst, Metered.bind_of_error hwider]
      refine ⟨fun _ => rfl, fun hmore => absurd hroom (Nat.not_le.mpr hmore), ?_⟩
      intro abort habort
      exact hgiven abort (congrArg _ (Except.error.inj habort))
    · rw [hwider] at hfirst hroom
      rw [Metered.bind_of_ok hfirst, Metered.bind_of_ok hwider]
      obtain ⟨hsame', hexceeded', hgiven'⟩ := hnext result after
      refine ⟨fun hmax => ?_, fun hmax => hexceeded' ?_, hgiven'⟩
      · rw [hsame' (Nat.le_trans (Nat.le_max_right _ _) hmax)]
      · exact Nat.not_le.mp fun hle => Nat.not_lt.mpr (Nat.max_le.mpr ⟨hroom, hle⟩) hmax
  · have hfirst := hexceeded (Nat.not_le.mp hroom)
    have hnarrow : ((step >>= next) store).ending = .error reason := by
      rcases hrun : step store with ⟨reason' | result, after, most⟩
      · rw [hrun] at hfirst
        rw [Metered.bind_of_error hrun]
        exact congrArg _ (Except.error.inj hfirst)
      · rw [hrun] at hfirst
        exact absurd hfirst (by simp)
    have hmore : room < ((wider >>= next') store).most := by
      rcases hrun : wider store with ⟨reason' | result, after, most⟩
      · rw [Metered.bind_of_error hrun]
        rwa [hrun, Nat.not_le] at hroom
      · rw [Metered.bind_of_ok hrun]
        rw [hrun, Nat.not_le] at hroom
        exact Nat.lt_of_lt_of_le hroom (Nat.le_max_left _ _)
    refine ⟨fun hmax => absurd hmax (Nat.not_le.mpr hmore), fun _ => hnarrow, ?_⟩
    intro abort habort
    rw [hnarrow] at habort
    exact .inr (Except.error.inj habort).symm

/-- `Metered.nested` takes up one level of the room. -/
theorem nested {step wider : Metered α} (h : Fits reason room α step wider) :
    Fits reason (room + 1) α (Metered.nested step) (Metered.nested wider) := by
  intro store
  obtain ⟨hsame, hexceeded, hgiven⟩ := h store
  refine ⟨fun hmost => ?_, fun hmost => hexceeded (Nat.lt_of_succ_lt_succ hmost), hgiven⟩
  rw [Metered.nested, hsame (Nat.le_of_succ_le_succ hmost)]
  rfl

end Fits

namespace Metered

/-- The steps of the metered walk open no call, and so `Fits` relates them to themselves in every
room. -/
theorem fits_related (reason : Abort) (room : Nat) : steps.Related (Fits reason room) steps where
  pure _ := .of_calm (fun _ => rfl) fun _ _ h => absurd h (by simp [pure_apply])
  bind := Fits.bind
  stuck := .of_calm (fun _ => rfl) fun _ _ h => (Except.error.inj h).symm
  bindName _ _ _ := .of_calm (fun _ => rfl) fun _ _ h => absurd h (by simp [steps])
  readName _ _ := .of_calm (fun _ => rfl) fun _ _ h => absurd h (by simp [steps])
  newFunction _ _ _ := .of_calm (fun _ => rfl) fun _ _ h => absurd h (by simp [steps])
  openScope _ := .of_calm (fun _ => rfl) fun _ _ h => absurd h (by simp [steps])

/-- While a call lasts it is itself open: `most` is positive even if the call is given up at
once. -/
theorem call_most_pos (reason : Abort) (room : Nat) (closure : Closure) (values : List Value)
    (store : Store) : 0 < (call reason room closure values store).most := by
  cases room <;> exact Nat.succ_pos _

/-- **A room changes nothing about a call unless it is used up**: `call reason room` fits `call
reason' wider` for every `wider` that is at least `room`, whatever the reasons are. -/
theorem call_fits (reason reason' : Abort) {room wider : Nat} (h : room ≤ wider)
    (closure : Closure) (values : List Value) :
    Fits reason room Value (call reason room closure values)
      (call reason' wider closure values) := by
  induction room generalizing wider closure values with
  | zero =>
    intro store
    refine ⟨fun hmost => ?_, fun _ => rfl, fun abort habort => .inr (Except.error.inj habort).symm⟩
    exact absurd (call_most_pos reason' wider closure values store) (Nat.not_lt.mpr hmost)
  | succ room ih =>
    obtain ⟨wider, rfl⟩ : ∃ less, wider = less + 1 := ⟨wider - 1, by omega⟩
    rw [call, call]
    exact (Walk.enter_related (fits_related reason room)
      (ih (Nat.le_of_succ_le_succ h)) closure values).nested

/-- `call_fits` carried over to a whole program. -/
theorem program_fits (reason reason' : Abort) {room wider : Nat} (h : room ≤ wider)
    (nodes : Program) (id : ScopeId) :
    Fits reason room Value (program reason room nodes id) (program reason' wider nodes id) :=
  Walk.program_related (fits_related reason room) (call_fits reason reason' h) nodes id

end Metered

/-! ### Runs -/

/-- What `Metered.program` leaves, in the form in which `Machine.run` leaves it: with no call
open. -/
def Metering.result (metering : Metering Value) : Ending × Machine :=
  (metering.ending, metering.after.machine 0)

namespace Machine

/-- The `program` ends with `result` if it is run without a limit: with enough room it is not given
up for lack of room, and `most` is the largest number of calls that were open at once. -/
def EndsFreely (machine : Machine) (program : Program) (id : ScopeId) (result : Ending × Machine)
    (most : Nat) : Prop :=
  ∃ room, let metering := Metered.program .unfinished room program id machine.store
    metering.ending ≠ .error .unfinished ∧ metering.result = result ∧ metering.most = most

variable (machine : Machine) (program : Program) (id : ScopeId)

/-- `Machine.run` is what `Machine.evaluate` makes of a machine with no open call, since it resets
the counter only. -/
theorem run_eq_of_evaluate {limit : Nat} {metering : Metering Value}
    (h : machine.idle.evaluate limit program id = metering.result) :
    machine.run limit program id = metering.result := by
  rw [run, h]
  rcases metering with ⟨reason | value, after, most⟩ <;> rfl

theorem run_eq_metered {limit : Nat} (hlimit : 0 < limit) :
    machine.run limit program id =
      (Metered.program (.tooDeep limit) limit program id machine.store).result := by
  apply run_eq_of_evaluate
  have hroom : room limit = limit := if_neg (Nat.ne_of_gt hlimit)
  have hfits : limit ≤ limit + 0 := Nat.le_refl limit
  have hprogram := Walk.program_related (erases_related 0) (call_erases hlimit hfits) program id
  rw [← evalProgram_eq_walk] at hprogram
  rw [evaluate, hroom]
  exact hprogram machine.store

theorem run_eq_metered_freely :
    machine.run 0 program id =
      (Metered.program .unfinished (room 0) program id machine.store).result := by
  apply run_eq_of_evaluate
  have hcalls := call_erases_freely (room 0) 0
  have hprogram := Walk.program_related (erases_related 0) hcalls program id
  rw [← evalProgram_eq_walk] at hprogram
  exact hprogram machine.store

/-- A program that ends without a limit, in any other `room` and for any other `reason` to give up:
if `room` is less than `most` it is given up for `reason`, and otherwise it has the same
`result`. -/
theorem EndsFreely.metered {machine : Machine} {program : Program} {id : ScopeId}
    {result : Ending × Machine} {most : Nat} (h : machine.EndsFreely program id result most)
    (reason : Abort) (room : Nat) :
    let metering := Metered.program reason room program id machine.store
    (most ≤ room → metering.result = result) ∧ (room < most → metering.ending = .error reason) := by
  obtain ⟨enough, hends, rfl, rfl⟩ := h
  rcases Nat.le_total room enough with hle | hle
  · have hfits := Metered.program_fits reason .unfinished hle program id machine.store
    exact ⟨fun hmost => congrArg Metering.result (hfits.same hmost), hfits.exceeded⟩
  · -- the larger room cannot be used up further, or the smaller one would not have been enough
    have hfits := Metered.program_fits .unfinished reason hle program id machine.store
    have hmost : (Metered.program reason room program id machine.store).most ≤ enough :=
      Nat.not_lt.mp fun hmore => hends (hfits.exceeded hmore)
    have hsame := hfits.same hmost
    intro metering
    rw [hsame]
    exact ⟨fun _ => rfl, fun hmore => absurd (Nat.le_trans hmost hle) (Nat.not_le.mpr hmore)⟩

/-- What ends without a limit is not given up with `tooDeep`. -/
theorem EndsFreely.ne_tooDeep {machine : Machine} {program : Program} {id : ScopeId}
    {result : Ending × Machine} {most : Nat} (h : machine.EndsFreely program id result most)
    (limit : Nat) : result.1 ≠ .error (.tooDeep limit) := by
  obtain ⟨enough, hends, rfl, rfl⟩ := h
  intro hdeep
  have hfits := Metered.program_fits .unfinished .unfinished (Nat.le_refl enough) program id
    machine.store
  rcases hfits.given _ hdeep with hcase | hcase <;> exact Abort.noConfusion hcase

/-- A run with a `limit` that is not given up with `tooDeep limit` is the run without a limit, and
at most `limit` calls are open in it at once. -/
theorem exists_endsFreely {limit : Nat} (hlimit : 0 < limit)
    (hrun : (machine.run limit program id).1 ≠ .error (.tooDeep limit)) :
    ∃ most ≤ limit, machine.EndsFreely program id (machine.run limit program id) most := by
  rw [run_eq_metered machine program id hlimit] at hrun ⊢
  have hfits := Metered.program_fits (.tooDeep limit) .unfinished (Nat.le_refl limit) program id
    machine.store
  have hmost := Nat.not_lt.mp fun hmore => hrun (hfits.exceeded hmore)
  have hsame := hfits.same hmost
  refine ⟨_, hmost, limit, fun hends => ?_, congrArg Metering.result hsame.symm, rfl⟩
  rw [← hsame] at hends
  rcases hfits.given _ hends with hcase | hcase <;> exact Abort.noConfusion hcase

/-- **The limit on nested calls is exact and otherwise invisible.**  A run that is not given up
because of its limit has the same result, and leaves the same behind, as with any larger limit and
as without one.  And if a run without a limit ends, then a run with a limit is given up because of
it exactly if the most calls that are open at once are more than the limit, and it tells the limit;
every other run has the same result as the one without a limit.  The run without a limit is the one
with limit zero, as far as that one follows calls. -/
theorem run_limit_exact :
    (∀ limit, 0 < limit → (machine.run limit program id).1 ≠ .error (.tooDeep limit) →
      (∀ more, limit < more → machine.run more program id = machine.run limit program id) ∧
      (limit ≤ room 0 → machine.run 0 program id = machine.run limit program id) ∧
      ∃ most, machine.EndsFreely program id (machine.run limit program id) most) ∧
    (∀ result most, machine.EndsFreely program id result most →
      (most ≤ room 0 → machine.run 0 program id = result) ∧
      ∀ limit, 0 < limit →
        ((∃ told, (machine.run limit program id).1 = .error (.tooDeep told)) ↔ limit < most) ∧
        (limit < most → (machine.run limit program id).1 = .error (.tooDeep limit)) ∧
        (most ≤ limit → machine.run limit program id = result)) ∧
    ((machine.run 0 program id).1 ≠ .error .unfinished →
      ∃ most, machine.EndsFreely program id (machine.run 0 program id) most) := by
  refine ⟨fun limit hlimit hrun => ?_, fun result most hends => ?_, fun hrun => ?_⟩
  -- a run that is not given up is one without a limit, which every larger room repeats
  · obtain ⟨most, hmost, hends⟩ := exists_endsFreely machine program id hlimit hrun
    refine ⟨fun more hmore => ?_, fun hroom => ?_, most, hends⟩
    · rw [run_eq_metered machine program id (Nat.lt_trans hlimit hmore)]
      exact (hends.metered _ more).1 (by omega)
    · rw [run_eq_metered_freely]
      exact (hends.metered _ (room 0)).1 (Nat.le_trans hmost hroom)
  · refine ⟨fun hroom => ?_, fun limit hlimit => ?_⟩
    · rw [run_eq_metered_freely]
      exact (hends.metered _ (room 0)).1 hroom
    · rw [run_eq_metered machine program id hlimit]
      obtain ⟨hsame, hexceeded⟩ := hends.metered (.tooDeep limit) limit
      refine ⟨⟨?_, fun hmore => ⟨limit, hexceeded hmore⟩⟩, hexceeded, hsame⟩
      -- a run in which the limit suffices is the one without a limit, and that one tells of none
      rintro ⟨told, htold⟩
      refine Nat.not_le.mp fun hmost => ?_
      rw [hsame hmost] at htold
      exact hends.ne_tooDeep told htold
  -- here the room of a run without a limit was enough itself
  · rw [run_eq_metered_freely] at hrun ⊢
    exact ⟨_, room 0, hrun, rfl, rfl⟩

/-- In `fn() {fn() {"a"}()}()` two calls are open at once: a limit of two is enough for it, as every
larger one is, and a limit of one is not. -/
theorem run_limit_exact_nested_call :
    let word : Token := default
    let call (body : Node) : Node := .call word (.function word [] (.block word [body])) []
    let program : Program := [call (call (.text word [97]))]
    0 < 2 ∧ (fresh.run 2 program 0).1 = .ok (.text [97]) ∧
      fresh.run 7 program 0 = fresh.run 2 program 0 ∧
      fresh.EndsFreely program 0 (fresh.run 2 program 0) 2 ∧
      (fresh.run 1 program 0).1 = .error (.tooDeep 1) := by
  intro word call program
  have hrun : (fresh.run 2 program 0).1 = .ok (.text [97]) := rfl
  have hfirst := (run_limit_exact fresh program 0).1 2 Nat.two_pos (by rw [hrun]; simp)
  have hends : fresh.EndsFreely program 0 (fresh.run 2 program 0) 2 := by
    refine ⟨2, fun hunfinished => ?_, rfl, rfl⟩
    have hok : (.ok (.text [97]) : Ending) = .error .unfinished := hunfinished
    exact absurd hok (by simp)
  have hsecond := (run_limit_exact fresh program 0).2.1 _ 2 hends
  exact ⟨Nat.two_pos, hrun, hfirst.1 7 (by decide), hends,
    (hsecond.2 1 Nat.one_pos).2.1 (by decide)⟩

end Machine

end TreeWalk
