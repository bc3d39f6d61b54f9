import Mathlib.Data.Nat.Basic
import Mathlib.Order.Basic
import TreeWalk.Tree.Parse

/-!
# The calls of the parser

Reading a program is a tree of calls: each function of the parser calls others on tokens that are
still to be read.  The tree is given by what a single call does (`Parse.Call.callees`), and listing
it in the order in which the calls end gives everything the parser does on the way
(`Parse.Call.made`).  The calls go down: what a call makes has a smaller `Parse.Call.rank`.

## Main definitions

* `Parse.Call`, `Parse.Call.callees`, `Parse.Call.rank` — the calls, what each makes, and what gets
  smaller.
* `Parse.Call.made`, `Parse.Call.inside` — all calls of a tree in the order in which they end.
* `Parse.Call.dropped`, `Parse.Call.complaint?` — statements that are left out, and what is said
  about them.

## Main results

* `Parse.Call.rank_lt` — what a call makes has a smaller rank.
* `Parse.Call.forall_mem_made`, `Parse.Call.exists_caller` — the calls of a tree from the top down
  and from the bottom up.
* `Parse.Call.exists_block_of_mem_inside` — the statements inside a statement are those of its
  blocks.
-/

namespace TreeWalk

namespace Parse

variable {α β : Type} {bound : Nat}

/-! ### Calls -/

/-- A call of one of the parser's functions. -/
inductive Call
  /-- The statements of a program. -/
  | program (tokens : List Token)
  /-- A statement. -/
  | stmt (token : Token) (tokens : List Token)
  /-- The statements of a block. -/
  | block (tokens : List Token)
  /-- The expression that starts with the next token. -/
  | nextExpr (floor : Precedence) (tokens : List Token)
  /-- An expression. -/
  | expr (floor : Precedence) (token : Token) (tokens : List Token)
  /-- The shortest expression. -/
  | operand (token : Token) (tokens : List Token)
  /-- The block behind `else`. -/
  | alternative (tokens : List Token)
  /-- Operators and calls behind an operand. -/
  | climb (floor : Precedence) (left : Node) (tokens : List Token)
  /-- Arguments. -/
  | args (tokens : List Token)
  /-- Arguments behind a first one. -/
  | moreArgs (tokens : List Token)
  /-- Parameters. -/
  | params (tokens : List Token)
  /-- Parameters behind a first one. -/
  | moreParams (tokens : List Token)

/-- The calls `next` behind the reading `parse`, which are made only if it succeeds. -/
def onward (parse : Parse α bound) (next : α → List Token → List Call) : List Call :=
  match parse.result with
  | none => []
  | some value => next value parse.rest

theorem mem_onward {parse : Parse α bound} {next : α → List Token → List Call} {call : Call} :
    call ∈ onward parse next ↔
      ∃ value, parse.result = some value ∧ call ∈ next value parse.rest := by
  rw [onward]
  cases parse.result with
  | none => simp
  | some value => simp

theorem forall_mem_onward {parse : Parse α bound} {next : α → List Token → List Call}
    {p : Call → Prop}
    (h : ∀ value rest, rest.length ≤ bound → ∀ call ∈ next value rest, p call) :
    ∀ call ∈ onward parse next, p call := by
  intro call hcall
  obtain ⟨value, -, hcall⟩ := mem_onward.1 hcall
  exact h value parse.rest parse.length_le call hcall

namespace Call

/-- The tokens behind the one that a call starts with. -/
def tokens : Call → List Token
  | program tokens | stmt _ tokens | block tokens | nextExpr _ tokens | expr _ _ tokens
  | operand _ tokens | alternative tokens | climb _ _ tokens | args tokens | moreArgs tokens
  | params tokens | moreParams tokens => tokens

/-- How far a call stands above those that it makes on the same `tokens`. -/
def level : Call → Nat
  | stmt .. => 4
  | expr .. => 3
  | operand .. => 2
  | alternative .. | climb .. => 1
  | program .. | block .. | nextExpr .. | args .. | moreArgs .. | params .. | moreParams .. => 0

/-- What gets smaller from call to call: the number of `tokens` not yet passed, and on the same
tokens the `level`. -/
def rank (call : Call) : Nat := 5 * call.tokens.length + call.level

/-- The calls that a call makes itself, in order. -/
def callees (finish : Token) : Call → List Call
  | program [] => []
  | program (token :: rest) => [stmt token rest, program (Parse.stmt finish token rest).rest]
  | stmt token tokens =>
    match token.kind with
    | .letWord =>
      onward (expect finish .ident tokens) fun _ rest =>
      onward (expect finish .equal rest) fun _ rest =>
      [nextExpr .lowest rest]
    | .returnWord => [nextExpr .lowest tokens]
    | _ => [expr .lowest token tokens]
  | block [] => []
  | block (token :: rest) =>
    if token.kind = .closeBrace then []
    else [stmt token rest, block (Parse.stmt finish token rest).rest]
  | nextExpr _ [] => []
  | nextExpr floor (token :: rest) => [expr floor token rest]
  | expr floor token tokens =>
    operand token tokens ::
    onward (Parse.operand finish token tokens) fun left rest => [climb floor left rest]
  | operand token tokens =>
    match token.kind with
    | .bang | .minus => [nextExpr .unary tokens]
    | .openParen => [nextExpr .lowest tokens]
    | .ifWord =>
      onward (expect finish .openParen tokens) fun _ rest =>
      nextExpr .lowest rest ::
      onward (Parse.nextExpr finish .lowest rest) fun _ rest =>
      onward (expect finish .closeParen rest) fun _ rest =>
      onward (expect finish .openBrace rest) fun _ rest =>
      block rest ::
      onward (Parse.block finish rest) fun _ rest =>
      [alternative rest]
    | .fnWord =>
      onward (expect finish .openParen tokens) fun _ rest =>
      params rest ::
      onward (Parse.params finish rest) fun _ rest =>
      onward (expect finish .openBrace rest) fun _ rest =>
      [block rest]
    | _ => []
  | alternative [] => []
  | alternative (token :: rest) =>
    if token.kind = .elseWord then
      onward (expect finish .openBrace rest) fun _ rest => [block rest]
    else []
  | climb _ _ [] => []
  | climb floor left (token :: rest) =>
    if floor.rank < token.kind.precedence.rank then
      if token.kind = .openParen then
        args rest ::
        onward (Parse.args finish rest) fun values rest =>
        [climb floor (.call token left values) rest]
      else
        nextExpr token.kind.precedence rest ::
        onward (Parse.nextExpr finish token.kind.precedence rest) fun right rest =>
        [climb floor (.infixOp token token.lexeme left right) rest]
    else []
  | args [] => []
  | args (token :: rest) =>
    if token.kind = .closeParen then []
    else
      expr .lowest token rest ::
      onward (Parse.expr finish .lowest token rest) fun _ rest => [moreArgs rest]
  | moreArgs [] => []
  | moreArgs (token :: rest) =>
    if token.kind = .comma then
      nextExpr .lowest rest ::
      onward (Parse.nextExpr finish .lowest rest) fun _ rest => [moreArgs rest]
    else []
  | params [] => []
  | params (token :: rest) =>
    if token.kind = .closeParen then []
    else if token.kind = .ident then [moreParams rest]
    else []
  | moreParams [] => []
  | moreParams [_] => []
  | moreParams (token :: name :: rest) =>
    if token.kind = .comma ∧ name.kind = .ident then [moreParams rest] else []

theorem level_le (call : Call) : call.level ≤ 4 := by
  cases call <;> simp [level]

theorem rank_lt_of_shorter {inner call : Call}
    (h : inner.tokens.length < call.tokens.length) : inner.rank < call.rank := by
  have := inner.level_le
  rw [rank, rank]
  omega

theorem rank_lt_of_lower {inner call : Call} (h : inner.tokens.length ≤ call.tokens.length)
    (hlevel : inner.level < call.level := by simp [level]) : inner.rank < call.rank := by
  rw [rank, rank]
  omega

/-- The two calls for a row of statements have a smaller `rank` than the call for the row. -/
theorem forall_row_rank_lt {finish token : Token} {rest : List Token} {call : Call}
    (hcall : call.tokens = token :: rest) (more : List Token → Call)
    (hmore : ∀ left, (more left).tokens = left) :
    ∀ inner ∈ [stmt token rest, more (Parse.stmt finish token rest).rest],
      inner.rank < call.rank := by
  have hle := (Parse.stmt finish token rest).length_le
  refine List.forall_mem_cons.2 ⟨rank_lt_of_shorter ?_, List.forall_mem_singleton.2
    (rank_lt_of_shorter ?_)⟩
  · rw [hcall]
    exact Nat.lt_succ_self _
  · rw [hcall, hmore]
    exact Nat.lt_succ_of_le hle

/-- A call `first` behind a token, and a call `second` behind what that one reads, have a smaller
`rank`. -/
theorem forall_pair_rank_lt {call first : Call} {rest : List Token} {parse : Parse α rest.length}
    {second : α → List Token → Call} (hfirst : first.tokens = rest)
    (hsecond : ∀ value left, (second value left).tokens = left)
    (hrest : rest.length < call.tokens.length) :
    ∀ inner ∈ first :: onward parse fun value left => [second value left],
      inner.rank < call.rank := by
  refine List.forall_mem_cons.2 ⟨rank_lt_of_shorter ?_, forall_mem_onward fun value left hleft =>
    List.forall_mem_singleton.2 (rank_lt_of_shorter ?_)⟩
  · rwa [hfirst]
  · rw [hsecond]
    exact hleft.trans_lt hrest

/-- The `callees` of a call have a smaller `rank`, so the tree of calls is finite. -/
theorem rank_lt {finish : Token} {call : Call} :
    ∀ inner ∈ call.callees finish, inner.rank < call.rank := by
  cases call with
  | program tokens =>
    cases tokens with
    | nil => exact List.forall_mem_nil _
    | cons token rest => exact forall_row_rank_lt rfl program fun _ => rfl
  | stmt token tokens =>
    rw [callees]
    split
    · exact forall_mem_onward fun _ _ hname => forall_mem_onward fun _ _ hequal =>
        List.forall_mem_singleton.2 (rank_lt_of_lower (hequal.trans hname))
    · exact List.forall_mem_singleton.2 (rank_lt_of_lower le_rfl)
    · exact List.forall_mem_singleton.2 (rank_lt_of_lower le_rfl)
  | block tokens =>
    cases tokens with
    | nil => exact List.forall_mem_nil _
    | cons token rest =>
      rw [callees]
      split
      · exact List.forall_mem_nil _
      · exact forall_row_rank_lt rfl block fun _ => rfl
  | nextExpr floor tokens =>
    cases tokens with
    | nil => exact List.forall_mem_nil _
    | cons token rest =>
      exact List.forall_mem_singleton.2 (rank_lt_of_shorter (Nat.lt_succ_self _))
  | expr floor token tokens =>
    -- both calls may be made on the same tokens, and are of a lower level
    exact List.forall_mem_cons.2 ⟨rank_lt_of_lower le_rfl, forall_mem_onward fun _ _ hrest =>
      List.forall_mem_singleton.2 (rank_lt_of_lower hrest)⟩
  | operand token tokens =>
    rw [callees]
    split
    · exact List.forall_mem_singleton.2 (rank_lt_of_lower le_rfl)
    · exact List.forall_mem_singleton.2 (rank_lt_of_lower le_rfl)
    · exact List.forall_mem_singleton.2 (rank_lt_of_lower le_rfl)
    · -- a choice: the condition, the first block and the alternative stand further and further on
      refine forall_mem_onward fun _ _ hopen => List.forall_mem_cons.2 ⟨rank_lt_of_lower hopen, ?_⟩
      refine forall_mem_onward fun _ _ hcond => forall_mem_onward fun _ _ hclose => ?_
      refine forall_mem_onward fun _ _ hbrace => ?_
      have hblock := ((hbrace.trans hclose).trans hcond).trans hopen
      refine List.forall_mem_cons.2 ⟨rank_lt_of_lower hblock, forall_mem_onward fun _ _ hyes => ?_⟩
      exact List.forall_mem_singleton.2 (rank_lt_of_lower (hyes.trans hblock))
    · -- a function: its parameters and its body
      refine forall_mem_onward fun _ _ hopen => List.forall_mem_cons.2 ⟨rank_lt_of_lower hopen, ?_⟩
      refine forall_mem_onward fun _ _ hparams => forall_mem_onward fun _ _ hbrace => ?_
      exact List.forall_mem_singleton.2 (rank_lt_of_lower ((hbrace.trans hparams).trans hopen))
    · exact List.forall_mem_nil _
  | alternative tokens =>
    cases tokens with
    | nil => exact List.forall_mem_nil _
    | cons token rest =>
      rw [callees]
      split
      · exact forall_mem_onward fun _ _ hbrace =>
          List.forall_mem_singleton.2 (rank_lt_of_shorter (Nat.lt_succ_of_le hbrace))
      · exact List.forall_mem_nil _
  | climb floor left tokens =>
    cases tokens with
    | nil => exact List.forall_mem_nil _
    | cons token rest =>
      rw [callees]
      split
      · split
        · exact forall_pair_rank_lt rfl (fun _ _ => rfl) (Nat.lt_succ_self _)
        · exact forall_pair_rank_lt rfl (fun _ _ => rfl) (Nat.lt_succ_self _)
      · exact List.forall_mem_nil _
  | args tokens =>
    cases tokens with
    | nil => exact List.forall_mem_nil _
    | cons token rest =>
      rw [callees]
      split
      · exact List.forall_mem_nil _
      · exact forall_pair_rank_lt rfl (fun _ _ => rfl) (Nat.lt_succ_self _)
  | moreArgs tokens =>
    cases tokens with
    | nil => exact List.forall_mem_nil _
    | cons token rest =>
      rw [callees]
      split
      · exact forall_pair_rank_lt rfl (fun _ _ => rfl) (Nat.lt_succ_self _)
      · exact List.forall_mem_nil _
  | params tokens =>
    cases tokens with
    | nil => exact List.forall_mem_nil _
    | cons token rest =>
      rw [callees]
      split
      · exact List.forall_mem_nil _
      · split
        · exact List.forall_mem_singleton.2 (rank_lt_of_shorter (Nat.lt_succ_self _))
        · exact List.forall_mem_nil _
  | moreParams tokens =>
    cases tokens with
    | nil => exact List.forall_mem_nil _
    | cons token rest =>
      cases rest with
      | nil => exact List.forall_mem_nil _
      | cons name rest =>
        rw [callees]
        split
        · exact List.forall_mem_singleton.2
            (rank_lt_of_shorter (Nat.lt_succ_of_lt (Nat.lt_succ_self _)))
        · exact List.forall_mem_nil _

/-- The calls of the tree of `call` in the order in which they end, `call` itself last. -/
def made (finish : Token) (call : Call) : List Call :=
  (call.callees finish).attach.flatMap (fun inner => made finish inner.1) ++ [call]
termination_by call.rank
decreasing_by exact rank_lt _ inner.2

/-- The calls of the tree of `call`, without `call` itself. -/
def inside (finish : Token) (call : Call) : List Call :=
  (call.callees finish).flatMap (made finish)

theorem made_eq (finish : Token) (call : Call) :
    call.made finish = call.inside finish ++ [call] := by
  rw [made, inside, List.flatMap_subtype fun _ _ => rfl, List.unattach_attach]

/-- Whether a call reads a `stmt` and fails, so that the statement is left out. -/
def dropped (finish : Token) : Call → Bool
  | stmt token tokens => (Parse.stmt finish token tokens).result.isNone
  | _ => false

/-- What is said about a statement that is left out: the last of the diagnostics of its call. -/
def complaint? (finish : Token) : Call → Option Diagnostic
  | stmt token tokens =>
    if (Parse.stmt finish token tokens).result.isNone then
      (Parse.stmt finish token tokens).diagnostics.getLast?
    else none
  | _ => none

/-! ### The tree as a whole -/

variable {finish : Token} {tokens : List Token}

/-- What `hstep` hands on from a call to its `callees`, all calls of its tree have: by induction on
the `rank`. -/
theorem forall_mem_made {p : Call → Prop}
    (hstep : ∀ call, p call → ∀ inner ∈ call.callees finish, p inner) (call : Call)
    (hcall : p call) : ∀ inner ∈ call.made finish, p inner := by
  rw [made_eq, inside]
  refine List.forall_mem_append.2 ⟨fun inner hinner => ?_, List.forall_mem_singleton.2 hcall⟩
  obtain ⟨callee, hcallee, hinner⟩ := List.mem_flatMap.1 hinner
  exact forall_mem_made hstep callee (hstep call hcall callee hcallee) inner hinner
termination_by call.rank
decreasing_by exact rank_lt _ hcallee

/-- Every call `inside` a tree is among the `callees` of a call of the tree. -/
theorem exists_caller {inner : Call} (call : Call) (h : inner ∈ call.inside finish) :
    ∃ caller ∈ call.made finish, inner ∈ caller.callees finish := by
  obtain ⟨callee, hcallee, hinner⟩ := List.mem_flatMap.1 h
  rw [made_eq]
  rw [made_eq] at hinner
  rcases List.mem_append.1 hinner with hinner | hinner
  · obtain ⟨caller, hcaller, hmakes⟩ := exists_caller callee hinner
    exact ⟨caller, List.mem_append_left _ (List.mem_flatMap.2 ⟨callee, hcallee, hcaller⟩), hmakes⟩
  · rw [List.mem_singleton.1 hinner]
    exact ⟨call, List.mem_append_right _ (List.mem_singleton_self call), hcallee⟩
termination_by call.rank
decreasing_by exact rank_lt _ hcallee

/-- Only rows of statements read statements: the caller of a `stmt` is a `block` or a `program`. -/
theorem of_stmt_mem_callees {call : Call} {token : Token}
    (h : stmt token tokens ∈ call.callees finish) :
    (∃ row, call = block row) ∨ ∃ row, call = program row := by
  revert h
  fun_cases callees finish call <;> simp [mem_onward]

theorem of_program_mem_callees {call : Call} (h : program tokens ∈ call.callees finish) :
    ∃ row, call = program row := by
  revert h
  fun_cases callees finish call <;> simp [mem_onward]

/-- No `program` is read inside a statement. -/
theorem program_notMem_made_stmt (token : Token) (row : List Token) :
    program row ∉ (stmt token tokens).made finish := by
  have hstep : ∀ call : Call, (∀ row, call ≠ program row) →
      ∀ inner ∈ call.callees finish, ∀ row, inner ≠ program row := by
    intro call hcall inner hinner row hrow
    subst hrow
    obtain ⟨outer, houter⟩ := of_program_mem_callees hinner
    exact hcall outer houter
  have hstmt : ∀ row, stmt token tokens ≠ program row := by
    intro row h
    cases h
  intro hmem
  exact forall_mem_made hstep (stmt token tokens) hstmt _ hmem row rfl

/-- The statements that are read `inside` a statement are read by its blocks. -/
theorem exists_block_of_mem_inside {token inner : Token} {left : List Token}
    (h : stmt inner left ∈ (stmt token tokens).inside finish) :
    ∃ row, block row ∈ (stmt token tokens).inside finish ∧
      stmt inner left ∈ (block row).callees finish := by
  obtain ⟨caller, hcaller, hmakes⟩ := exists_caller _ h
  rcases of_stmt_mem_callees hmakes with ⟨row, rfl⟩ | ⟨row, rfl⟩
  · rw [made_eq] at hcaller
    rcases List.mem_append.1 hcaller with hcaller | hcaller
    · exact ⟨row, hcaller, hmakes⟩
    · cases List.mem_singleton.1 hcaller
  · exact absurd hcaller (program_notMem_made_stmt token row)

end Call

end Parse

end TreeWalk
