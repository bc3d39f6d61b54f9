import TreeWalk.Proofs.CallDepth

/-!
# The counter of open calls

An evaluator counts the calls that are open, and the count is all that it keeps for itself: scopes
and functions belong to the heap.  The count goes up when a call is opened and down when it is
closed, also where the evaluation is given up in the middle of many calls.

To see all values that the counter takes, the walk is done with steps that count in the integers,
where a counter may go below zero, and record every change (`Watched`).  They show that evaluation
leaves the counter as it found it, that the counter never goes below that, and that it never exceeds
the limit.  So an evaluator that is asked one thing after another answers as if it were new each
time.

## Main definitions

* `Watched`, `Watched.steps`, `Watched.call` — steps that record the values of the counter.
* `Tracks` — a step of evaluation does what a watched step does, and the counter keeps to its range.
* `Request`, `Request.answer`, `Request.watched` — the three things to ask an evaluator for.
* `Machine.serve`, `Store.serveAnew` — requests to one evaluator, and to a new one each time.

## Main results

* `call_tracks` — **a call leaves the counter as it found it, and keeps it within the limit.**
* `Machine.evaluator_keeps_no_state` — the answers to a sequence of requests do not depend on
  whether the same evaluator gives them.
-/

namespace TreeWalk

/-! ### Watched steps -/

/-- What a watched step ends with: its `ending`, the store `after` it, the `count` it leaves, and
the `counts` that the counter took on the way. -/
structure Watch (α : Type) where
  /-- The result, or why the evaluation was given up. -/
  ending : Except Abort α
  /-- What is in store afterwards. -/
  after : Store
  /-- The counter of open calls afterwards. -/
  count : Int
  /-- The values that the counter was set to, in order. -/
  counts : List Int

/-- A watched step: it changes the store and the counter, and tells how it changed the counter. -/
def Watched (α : Type) : Type := Store → Int → Watch α

namespace Watched

instance : Monad Watched where
  pure result store count := ⟨.ok result, store, count, []⟩
  bind step next store count :=
    match step store count with
    | ⟨.ok result, after, count, counts⟩ =>
      let more := next result after count
      { more with counts := counts ++ more.counts }
    | ⟨.error reason, after, count, counts⟩ => ⟨.error reason, after, count, counts⟩

variable {α β : Type}

theorem bind_of_ok {step : Watched α} {store after : Store} {count count' : Int} {result : α}
    {counts : List Int} (h : step store count = ⟨.ok result, after, count', counts⟩)
    (next : α → Watched β) :
    (step >>= next) store count =
      { next result after count' with counts := counts ++ (next result after count').counts } := by
  simp only [bind, h]

theorem bind_of_error {step : Watched α} {store after : Store} {count count' : Int} {reason : Abort}
    {counts : List Int} (h : step store count = ⟨.error reason, after, count', counts⟩)
    (next : α → Watched β) :
    (step >>= next) store count = ⟨.error reason, after, count', counts⟩ := by
  simp only [bind, h]

theorem pure_apply (result : α) (store : Store) (count : Int) :
    (pure result : Watched α) store count = ⟨.ok result, store, count, []⟩ := rfl

/-- `Watched` is lawful, because `counts` are put together by `++`. -/
instance : LawfulMonad Watched := by
  refine LawfulMonad.mk' Watched (fun step => ?_) (fun result next => ?_) fun step next more => ?_
  · funext store count
    show (step >>= pure) store count = step store count
    rcases hstep : step store count with ⟨_ | result, after, count', counts⟩
    · exact bind_of_error hstep _
    · rw [bind_of_ok hstep, pure_apply, List.append_nil]
  · funext store count
    rw [bind_of_ok (pure_apply result store count), List.nil_append]
  · funext store count
    rcases hstep : step store count with ⟨_ | result, after, count', counts⟩
    · rw [bind_of_error (bind_of_error hstep next), bind_of_error hstep]
    · have hfirst := bind_of_ok hstep next
      rw [bind_of_ok hstep]
      rcases hnext : next result after count' with ⟨_ | result', after', count'', counts'⟩
      · rw [hnext] at hfirst
        rw [bind_of_error hfirst, bind_of_error hnext]
      · rw [hnext] at hfirst
        rw [bind_of_ok hfirst, bind_of_ok hnext, List.append_assoc]

/-- A `step` on the store that leaves the counter alone. -/
def calm (step : Store → Except Abort α × Store) : Watched α := fun store count =>
  ⟨(step store).1, (step store).2, count, []⟩

/-- Gives the evaluation up for the given `reason`, with the store and the counter as they are. -/
def giveUp (reason : Abort) : Watched α := calm fun store => (.error reason, store)

/-- Opens a call for `step`, and closes it again however the step ends. -/
def counted (step : Watched α) : Watched α := fun store count =>
  let watch := step store (count + 1)
  { watch with
    count := watch.count - 1
    counts := (count + 1) :: watch.counts ++ [watch.count - 1] }

/-- Starts `step` with the counter at zero, and sets it to zero again if the step is given up. -/
def reset (step : Watched α) : Watched α := fun store _ =>
  let watch := step store 0
  match watch.ending with
  | .ok _ => { watch with counts := 0 :: watch.counts }
  | .error _ => { watch with count := 0, counts := 0 :: watch.counts ++ [0] }

/-- The steps of the watched walk: those of `Eval.steps`, all of them `calm`. -/
def steps : Steps Watched where
  stuck := giveUp .stuck
  bindName id name value := calm fun store =>
    (.ok (), { store with heap := store.heap.bind id name value })
  readName id name := calm fun store =>
    (.ok ((store.heap.lookup name id).getD (.error (.unbound name))), store)
  newFunction params body scope := calm fun store =>
    (.ok (.function ⟨store.stamps, params, body, scope⟩), { store with stamps := store.stamps + 1 })
  openScope outer := calm fun store =>
    (.ok store.heap.next, { store with heap := store.heap.push outer })

/-- The meaning of calls that may nest `room` levels below the open ones, with the counter compared
with the `limit` first. -/
def call (limit : Nat) : Nat → Closure → List Value → Watched Value
  | room, closure, values => fun store count =>
    if 0 < limit ∧ limit ≤ count then giveUp (.tooDeep limit) store count
    else match room with
      | 0 => giveUp .unfinished store count
      | room + 1 => counted (Walk.enter steps (call limit room) closure values) store count

section

variable {limit : Nat} {store : Store} {depth : Nat} (closure : Closure) (values : List Value)

theorem atLimit_iff : 0 < limit ∧ (limit : Int) ≤ depth ↔ atLimit limit depth := by
  simp [atLimit]

theorem call_of_atLimit (room : Nat) (h : atLimit limit depth) :
    call limit room closure values store depth = giveUp (.tooDeep limit) store depth := by
  cases room <;> exact if_pos (atLimit_iff.2 h)

theorem call_zero (h : ¬ atLimit limit depth) :
    call limit 0 closure values store depth = giveUp .unfinished store depth :=
  if_neg (mt atLimit_iff.1 h)

theorem call_succ (room : Nat) (h : ¬ atLimit limit depth) :
    call limit (room + 1) closure values store depth =
      counted (Walk.enter steps (call limit room) closure values) store depth :=
  if_neg (mt atLimit_iff.1 h)

end

end Watched

/-! ### The range of the counter -/

/-- What a step of evaluation does to `machine` is what `watch` tells.  The counter ends where it
was; on the way it is never lower than there, nor beyond the `limit` if there is one. -/
structure TracksAt (limit : Nat) (machine : Machine) {α : Type} (result : Except Abort α × Machine)
    (watch : Watch α) : Prop where
  /-- The result, and the machine with the calls open that were. -/
  same : result = (watch.ending, watch.after.machine machine.depth)
  /-- The counter afterwards. -/
  count : watch.count = machine.depth
  /-- The counter on the way. -/
  range : ∀ count ∈ watch.counts, machine.depth ≤ count ∧
    (0 < limit → machine.depth ≤ limit → count ≤ limit)

/-- `TracksAt` on every machine: `step` does what `watched` tells. -/
def Tracks (limit : Nat) (α : Type) (step : Eval α) (watched : Watched α) : Prop :=
  ∀ machine : Machine,
    TracksAt limit machine (step machine) (watched machine.store machine.depth)

theorem TracksAt.giveUp {limit : Nat} (reason : Abort) (machine : Machine) {α : Type} :
    TracksAt limit machine ((.error reason, machine) : Except Abort α × Machine)
      (Watched.giveUp reason machine.store machine.depth) :=
  ⟨rfl, rfl, List.forall_mem_nil _⟩

namespace Tracks

variable {limit : Nat} {α β : Type}

/-- A step that leaves the counter alone is tracked by `Watched.calm`. -/
theorem calm {step : Eval α} {calm : Store → Except Abort α × Store}
    (h : ∀ machine : Machine,
      step machine = ((calm machine.store).1, (calm machine.store).2.machine machine.depth)) :
    Tracks limit α step (Watched.calm calm) :=
  fun machine => ⟨h machine, rfl, List.forall_mem_nil _⟩

/-- `Tracks` is kept by `>>=`. -/
theorem bind {step : Eval α} {watched : Watched α} {next : α → Eval β} {next' : α → Watched β}
    (hstep : Tracks limit α step watched)
    (hnext : ∀ result, Tracks limit β (next result) (next' result)) :
    Tracks limit β (step >>= next) (watched >>= next') := by
  intro machine
  obtain ⟨hsame, hcount, hrange⟩ := hstep machine
  rw [run_bind, hsame]
  rcases hwatch : watched machine.store machine.depth with ⟨_ | result, after, count, counts⟩
  · rw [Watched.bind_of_error hwatch]
    rw [hwatch] at hcount hrange
    exact ⟨rfl, hcount, hrange⟩
  · rw [hwatch] at hcount hrange
    obtain rfl : count = machine.depth := hcount
    rw [Watched.bind_of_ok hwatch]
    obtain ⟨hsame', hcount', hrange'⟩ := hnext result (after.machine machine.depth)
    exact ⟨hsame', hcount', List.forall_mem_append.2 ⟨hrange, hrange'⟩⟩

/-- A call that `withOpenCall` opens below the limit and closes again is tracked by
`Watched.counted`. -/
theorem counted {step : Eval α} {watched : Watched α} (h : Tracks limit α step watched)
    {machine : Machine} (hlimit : 0 < limit → machine.depth < limit) :
    TracksAt limit machine (withOpenCall step machine)
      (Watched.counted watched machine.store machine.depth) := by
  obtain ⟨hsame, hcount, hrange⟩ := h { machine with depth := machine.depth + 1 }
  have hend : (watched machine.store (machine.depth + 1)).count - 1 = machine.depth := by
    have hopen : (watched machine.store (machine.depth + 1)).count = machine.depth + 1 := hcount
    omega
  refine ⟨?_, hend, ?_⟩
  · rw [withOpenCall, hsame]
    rfl
  · rw [Watched.counted, hend]
    refine List.forall_mem_append.2 ⟨List.forall_mem_cons.2 ⟨?_, fun count hmem => ?_⟩,
      List.forall_mem_singleton.2 ?_⟩
    · exact ⟨by omega, fun hpos _ => by have := hlimit hpos; omega⟩
    · obtain ⟨hlower, hupper⟩ : ((machine.depth + 1 : Nat) : Int) ≤ count ∧
        (0 < limit → machine.depth + 1 ≤ limit → count ≤ limit) := hrange count hmem
      exact ⟨by omega, fun hpos _ => hupper hpos (hlimit hpos)⟩
    · exact ⟨Int.le_refl _, fun _ hdepth => Int.ofNat_le.2 hdepth⟩

/-- `Eval.steps` and `Watched.steps` are related by `Tracks limit`, so that `Walk.node_related`
carries the relation over to whole walks. -/
theorem related (limit : Nat) : Eval.steps.Related (Tracks limit) Watched.steps where
  pure {α} result := by
    show Tracks limit α (pure result) (Watched.calm fun store => (.ok result, store))
    exact calm fun _ => rfl
  bind := bind
  stuck := calm fun _ => rfl
  bindName _ _ _ := calm fun _ => rfl
  readName _ _ := calm fun _ => rfl
  newFunction _ _ _ := calm fun _ => rfl
  openScope _ := calm fun _ => rfl

end Tracks

/-- **A call leaves the counter as it found it, and keeps it within the limit**, however it ends:
`call` is tracked by `Watched.call`. -/
theorem call_tracks (limit room : Nat) (closure : Closure) (values : List Value) :
    Tracks limit Value (call limit room closure values)
      (Watched.call limit room closure values) := by
  -- the calls in the body have one level less left, and the counter is one more there
  induction room generalizing closure values with
  | zero =>
    intro machine
    by_cases hat : atLimit limit machine.depth
    · rw [call_of_atLimit closure values 0 hat, Watched.call_of_atLimit closure values 0 hat]
      exact .giveUp _ machine
    · rw [call_zero closure values hat, Watched.call_zero closure values hat]
      exact .giveUp _ machine
  | succ room ih =>
    intro machine
    by_cases hat : atLimit limit machine.depth
    · rw [call_of_atLimit closure values _ hat, Watched.call_of_atLimit closure values _ hat]
      exact .giveUp _ machine
    · have hbody := Walk.enter_related (Tracks.related limit) ih closure values
      rw [call_succ closure values room hat, Watched.call_succ closure values room hat,
        enter_eq_walk]
      exact hbody.counted fun hpos => Nat.not_le.1 (mt (atLimit_iff hpos _).2 hat)

theorem evalNode_tracks (limit room : Nat) (node : Node) (id : ScopeId) :
    Tracks limit Value (evalNode (call limit room) node id)
      (Walk.node Watched.steps (Watched.call limit room) node id) := by
  rw [evalNode_eq_walk]
  exact Walk.node_related (Tracks.related limit) (call_tracks limit room) node id

theorem evalProgram_tracks (limit room : Nat) (program : Program) (id : ScopeId) :
    Tracks limit Value (evalProgram (call limit room) program id)
      (Walk.program Watched.steps (Watched.call limit room) program id) := by
  rw [evalProgram_eq_walk]
  exact Walk.program_related (Tracks.related limit) (call_tracks limit room) program id

/-! ### Requests -/

/-- What an evaluator is asked for. -/
inductive Request
  /-- Running a program in a scope, from the outermost level. -/
  | run (program : Program) (id : ScopeId)
  /-- Evaluating a program in a scope. -/
  | evaluate (program : Program) (id : ScopeId)
  /-- Evaluating a node in a scope. -/
  | eval (node : Node) (id : ScopeId)

namespace Request

/-- What an evaluator does about a request: `Machine.run`, `Machine.evaluate` or `Machine.eval`. -/
def answer (limit : Nat) : Request → Machine → Ending × Machine
  | run program id => Machine.run limit program id
  | evaluate program id => Machine.evaluate limit program id
  | eval node id => Machine.eval limit node id

/-- The walk of the same request in `Watched`, which tells all values that the counter of open calls
takes. -/
def watched (limit : Nat) : Request → Watched Value
  | run program id =>
    .reset (Walk.program Watched.steps (Watched.call limit (room limit)) program id)
  | evaluate program id => Walk.program Watched.steps (Watched.call limit (room limit)) program id
  | eval node id => Walk.node Watched.steps (Watched.call limit (room limit)) node id

/-- `Machine.run` sets the counter to zero, where it is already, at its start and when it is given
up; so it is tracked as `Machine.evaluate` is. -/
theorem run_tracks {limit : Nat} {store : Store} {program : Program} {id : ScopeId}
    {watched : Watched Value} (h : TracksAt limit (store.machine 0)
      ((store.machine 0).evaluate limit program id) (watched store 0)) :
    TracksAt limit (store.machine 0) ((store.machine 0).run limit program id)
      (Watched.reset watched store 0) := by
  obtain ⟨hsame, hcount, hrange⟩ := h
  have hzero : ((store.machine 0).depth : Int) ≤ 0 ∧
      (0 < limit → (store.machine 0).depth ≤ limit → (0 : Int) ≤ limit) :=
    ⟨Int.le_refl _, fun _ _ => Int.natCast_nonneg limit⟩
  have hidle : (store.machine 0).idle = store.machine 0 := rfl
  rw [Machine.run, hidle, hsame, Watched.reset]
  rcases hwatch : watched store 0 with ⟨_ | value, after, count, counts⟩
  · rw [hwatch] at hrange
    refine ⟨rfl, rfl, List.forall_mem_append.2 ⟨?_, List.forall_mem_singleton.2 hzero⟩⟩
    exact List.forall_mem_cons.2 ⟨hzero, hrange⟩
  · rw [hwatch] at hcount hrange
    exact ⟨rfl, hcount, List.forall_mem_cons.2 ⟨hzero, hrange⟩⟩

/-- From a machine with no open call, `Request.answer` is tracked by `Request.watched`. -/
theorem answer_tracks (limit : Nat) (request : Request) (store : Store) :
    TracksAt limit (store.machine 0) (request.answer limit (store.machine 0))
      (request.watched limit store 0) := by
  cases request with
  | run program id =>
    exact run_tracks (evalProgram_tracks limit (room limit) program id (store.machine 0))
  | evaluate program id => exact evalProgram_tracks limit (room limit) program id (store.machine 0)
  | eval node id => exact evalNode_tracks limit (room limit) node id (store.machine 0)

end Request

/-- Requests that come with changes: before each one, the `Store` may have been changed from
outside. -/
abbrev Requests := List ((Store → Store) × Request)

/-- The answers of one evaluator to requests one after another: the counter goes from each of them
to the next. -/
def Machine.serve (limit : Nat) : Requests → Machine → List (Ending × Machine)
  | [], _ => []
  | (change, request) :: more, machine =>
    let reply := request.answer limit ((change machine.store).machine machine.depth)
    reply :: serve limit more reply.2

/-- The answers to the same requests, each by a new evaluator with no open call. -/
def Store.serveAnew (limit : Nat) : Requests → Store → List (Ending × Machine)
  | [], _ => []
  | (change, request) :: more, store =>
    let reply := request.answer limit ((change store).machine 0)
    reply :: serveAnew limit more reply.2.store

namespace Machine

/-- By induction on the requests, `Machine.serve` answers as `Store.serveAnew` does, since no call
is open between requests. -/
theorem serve_eq_serveAnew (limit : Nat) (requests : Requests) (store : Store) :
    (∀ reply ∈ serve limit requests (store.machine 0), reply.2.depth = 0) ∧
      serve limit requests (store.machine 0) = store.serveAnew limit requests := by
  induction requests generalizing store with
  | nil => exact ⟨List.forall_mem_nil _, rfl⟩
  | cons first more ih =>
    obtain ⟨change, request⟩ := first
    have hreply := (request.answer_tracks limit (change store)).same
    obtain ⟨hdepth, hmore⟩ := ih (request.watched limit (change store) 0).after
    have hserve : serve limit ((change, request) :: more) (store.machine 0) =
        request.answer limit ((change store).machine 0) ::
          serve limit more (request.answer limit ((change store).machine 0)).2 := rfl
    have hanew : store.serveAnew limit ((change, request) :: more) =
        request.answer limit ((change store).machine 0) ::
          (request.answer limit ((change store).machine 0)).2.store.serveAnew limit more := rfl
    rw [hserve, hanew, hreply]
    exact ⟨List.forall_mem_cons.2 ⟨rfl, hdepth⟩, congrArg _ hmore⟩

/-- **An evaluator keeps nothing from one request to the next.**  Every evaluation of a node, on its
own or in the middle of another one, leaves as many calls open as it found, whether it yields a
value or is given up.  From a request with no call open the counter ends at zero; on the way it is
never below zero, and never beyond the limit if there is one.  So between requests no call is open,
and the answers to any sequence of requests, whatever happens to the heap in between, are those of
new evaluators. -/
theorem evaluator_keeps_no_state (limit : Nat) :
    (∀ room node id machine,
      (evalNode (call limit room) node id machine).2.depth = machine.depth) ∧
    (∀ (request : Request) (store : Store),
      let watch := request.watched limit store 0
      request.answer limit (store.machine 0) = (watch.ending, watch.after.machine 0) ∧
        watch.count = 0 ∧ ∀ count ∈ watch.counts, 0 ≤ count ∧ (0 < limit → count ≤ limit)) ∧
    ∀ (requests : Requests) (store : Store),
      (∀ reply ∈ serve limit requests (store.machine 0), reply.2.depth = 0) ∧
        serve limit requests (store.machine 0) = store.serveAnew limit requests := by
  refine ⟨fun room node id machine => ?_, fun request store => ?_, fun requests store => ?_⟩
  · rw [(evalNode_tracks limit room node id machine).same]
    rfl
  · obtain ⟨hsame, hcount, hrange⟩ := request.answer_tracks limit store
    refine ⟨hsame, hcount, fun count hmem => ?_⟩
    obtain ⟨hlower, hupper⟩ := hrange count hmem
    exact ⟨hlower, fun hpos => hupper hpos (Nat.zero_le limit)⟩
  · exact serve_eq_serveAnew limit requests store

/-- With a limit of two, `fn() {fn() {fn() {"a"}()}()}()` is given up with two calls open.  Both are
closed, and the same evaluator then answers `fn() {fn() {"a"}()}()`, which needs two calls, as a new
one does. -/
theorem evaluator_keeps_no_state_given_up :
    let word : Token := default
    let call (body : Node) : Node := .call word (.function word [] (.block word [body])) []
    let deep : Program := [call (call (call (.text word [97])))]
    let fits : Node := call (call (.text word [97]))
    let requests : Requests := [(id, .evaluate deep 0), (id, .eval fits 0)]
    let watch := (Request.evaluate deep 0).watched 2 fresh.store 0
    0 < 2 ∧ watch.counts = [1, 2, 1, 0] ∧ (∀ count ∈ watch.counts, 0 ≤ count ∧ count ≤ 2) ∧
      (serve 2 requests fresh).map Prod.fst = [.error (.tooDeep 2), .ok (.text [97])] ∧
      serve 2 requests fresh = fresh.store.serveAnew 2 requests := by
  intro word call deep fits requests watch
  obtain ⟨-, hwatch, hserve⟩ := evaluator_keeps_no_state 2
  obtain ⟨-, -, hrange⟩ := hwatch (.evaluate deep 0) fresh.store
  refine ⟨Nat.two_pos, rfl, fun count hmem => ?_, rfl, (hserve requests fresh.store).2⟩
  exact ⟨(hrange count hmem).1, (hrange count hmem).2 Nat.two_pos⟩

end Machine

end TreeWalk
