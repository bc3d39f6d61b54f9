import Mathlib.Algebra.Order.Group.Nat
import TreeWalk.Proofs.Reading

/-!
# What the calls of the parser do

Two more things are read off the tree of calls (`Parse.Call.made`).  The calls are few: each token
pays for a fixed number of them.  And every complaint belongs to a call that reads a statement and
fails: the diagnostics are, one by one and in order, the last words of these calls.

Both are said by one account, `Parse.Follows`, which the moves of the parser keep.

## Main definitions

* `Parse.Follows` — the account that a reading does what its calls do.

## Main results

* `Parse.follows_rules` — **the moves of the parser do what their calls do.**
* `Parse.program_follows` — so does the reading of a program.
* `Parse.Call.tokens_suffix` — a call works on the end of the tokens of the one that makes it.
* `Cursor.parse_diagnostics_eq_complaints` — **every statement that is left out is reported once.**
-/

namespace TreeWalk

namespace Parse

/-- The account that a reading does what its calls do.  Those are made on what is left of the
tokens, and so is what comes behind them; what they say is what the reading says, and one word more
if the reading itself fails; and the tokens that are taken pay for them, up to `spare` calls. -/
structure Follows (finish : Token) (tokens : List Token) (calls : List Call) (spare : Int)
    (ok : Bool) (rest : List Token) (diagnostics : List Diagnostic) : Prop where
  /-- What is left is the end of what was given. -/
  rest_suffix : rest <:+ tokens
  /-- So is what the calls are made on. -/
  within : ∀ call ∈ calls, call.tokens <:+ tokens
  /-- The diagnostics of the statements that were left out, and one of the reading itself. -/
  reports : ∃ own : Option Diagnostic,
    diagnostics =
      (calls.flatMap (Call.made finish)).filterMap (Call.complaint? finish) ++ own.toList ∧
    own.isSome = !ok
  /-- Each diagnostic is paid for by a token. -/
  few : diagnostics.length + rest.length ≤ tokens.length + (!ok).toNat
  /-- Where more is paid than the calls cost, a token is left to pay for one diagnostic more. -/
  fewer : spare < 0 → diagnostics.length + rest.length < tokens.length + (!ok).toNat
  /-- Eight calls are paid for by a token. -/
  cost : ((calls.flatMap (Call.made finish)).length : Int) + 8 * rest.length ≤
    8 * tokens.length + spare

namespace Follows

variable {finish token : Token} {tokens middle rest : List Token} {calls more : List Call}
  {spare spare' : Int} {ok : Bool} {diagnostics others : List Diagnostic}

/-- Nothing is done: no token is taken, and no call is made. -/
theorem still (finish : Token) (tokens : List Token) :
    Follows finish tokens [] 0 true tokens [] where
  rest_suffix := List.suffix_refl tokens
  within := List.forall_mem_nil _
  reports := ⟨none, rfl, rfl⟩
  few := (Nat.zero_add _).le
  fewer := fun h => absurd h (lt_irrefl 0)
  cost := by simp

/-- A reading fails where it stands, with one `diagnostic` of its own. -/
theorem failed (finish : Token) (tokens : List Token) (diagnostic : Diagnostic) :
    Follows finish tokens [] 0 false tokens [diagnostic] where
  rest_suffix := List.suffix_refl tokens
  within := List.forall_mem_nil _
  reports := ⟨some diagnostic, rfl, rfl⟩
  few := (Nat.add_comm _ _).le
  fewer := fun h => absurd h (lt_irrefl 0)
  cost := by simp

/-- A token is taken in front of what is done, and pays for eight calls. -/
theorem taken (token : Token) (h : Follows finish tokens calls spare ok rest diagnostics) :
    Follows finish (token :: tokens) calls (spare - 8) ok rest diagnostics where
  rest_suffix := h.rest_suffix.trans (List.suffix_cons token tokens)
  within call hcall := (h.within call hcall).trans (List.suffix_cons token tokens)
  reports := h.reports
  few := by
    have := h.few
    rw [List.length_cons]
    omega
  fewer _ := by
    have := h.few
    rw [List.length_cons]
    omega
  cost := by
    have := h.cost
    rw [List.length_cons]
    omega

theorem spared (hspare : spare ≤ spare')
    (h : Follows finish tokens calls spare ok rest diagnostics) :
    Follows finish tokens calls spare' ok rest diagnostics :=
  { h with
    fewer := fun hneg => h.fewer (hspare.trans_lt hneg)
    cost := h.cost.trans (by omega) }

/-- One reading behind another.  The first has come to a value, so by `few` it has nothing to say
itself. -/
theorem onward (hfirst : Follows finish tokens calls spare true middle diagnostics)
    (hsecond : Follows finish middle more spare' ok rest others) :
    Follows finish tokens (calls ++ more) (spare + spare') ok rest (diagnostics ++ others) := by
  obtain ⟨own, hreports, hown⟩ := hfirst.reports
  obtain rfl : own = none := Option.isNone_iff_eq_none.1 (Option.isSome_eq_false_iff.1 hown)
  obtain ⟨own', hreports', hown'⟩ := hsecond.reports
  have hfew := hfirst.few
  have hfew' := hsecond.few
  rw [Bool.not_true, Bool.toNat_false] at hfew
  refine ⟨hsecond.rest_suffix.trans hfirst.rest_suffix, ?_, ⟨own', ?_, hown'⟩, ?_, fun hneg => ?_,
    ?_⟩
  · exact List.forall_mem_append.2 ⟨hfirst.within, fun call hcall =>
      (hsecond.within call hcall).trans hfirst.rest_suffix⟩
  · rw [hreports, hreports', Option.toList_none, List.append_nil, List.flatMap_append,
      List.filterMap_append, List.append_assoc]
  · rw [List.length_append]
    omega
  · -- one of the two has more paid than its calls cost
    rw [List.length_append]
    rcases lt_or_ge spare 0 with hspare | hspare
    · have := hfirst.fewer hspare
      rw [Bool.not_true, Bool.toNat_false] at this
      omega
    · have := hsecond.fewer (by omega)
      omega
  · have := hfirst.cost
    have := hsecond.cost
    rw [List.flatMap_append, List.length_append]
    omega

/-- What a call without a `complaint?` of its own does is what its `callees` do. -/
theorem called {call : Call}
    (h : Follows finish tokens (call.callees finish) spare ok rest diagnostics)
    (hcomplaint : call.complaint? finish = none) (htokens : call.tokens <:+ tokens) :
    Follows finish tokens [call] (spare + 1) ok rest diagnostics where
  rest_suffix := h.rest_suffix
  within := List.forall_mem_singleton.2 htokens
  reports := by
    obtain ⟨own, hreports, hown⟩ := h.reports
    refine ⟨own, ?_, hown⟩
    rw [List.flatMap_singleton, Call.made_eq, List.filterMap_append,
      List.filterMap_cons_none hcomplaint, List.filterMap_nil, List.append_nil]
    exact hreports
  few := h.few
  fewer hneg := h.fewer (by omega)
  cost := by
    have := h.cost
    rw [List.flatMap_singleton, Call.made_eq, List.length_append, Call.inside,
      List.length_singleton]
    omega

theorem called_block (tokens : List Token)
    (h : Follows finish tokens ((Call.block tokens).callees finish) spare ok rest diagnostics) :
    Follows finish tokens [.block tokens] (spare + 1) ok rest diagnostics :=
  h.called rfl (List.suffix_refl tokens)

/-- What a statement has to say itself is the `complaint?` of its call, which comes behind those of
the calls `inside`. -/
theorem stmt_own (h : Meets (Follows finish) (token :: tokens)
      ((Call.stmt token tokens).callees finish) spare (stmt finish token tokens)) :
    (stmt finish token tokens).diagnostics =
        ((Call.stmt token tokens).inside finish).filterMap (Call.complaint? finish) ++
          (Call.complaint? finish (.stmt token tokens)).toList ∧
      (Call.complaint? finish (.stmt token tokens)).isSome =
        (stmt finish token tokens).result.isNone := by
  obtain ⟨own, hreports, hown⟩ := h.reports
  rw [Option.not_isSome] at hown
  have hcomplaint : Call.complaint? finish (.stmt token tokens) = own := by
    rw [Call.complaint?, ← hown, hreports]
    cases own with
    | none => rfl
    | some complaint => simp
  rw [hcomplaint]
  exact ⟨hreports, hown⟩

/-- What is said while a statement is read are the complaints about all calls that are `made`. -/
theorem stmt_reports (h : Meets (Follows finish) (token :: tokens)
      ((Call.stmt token tokens).callees finish) spare (stmt finish token tokens)) :
    ((Call.stmt token tokens).made finish).filterMap (Call.complaint? finish) =
      (stmt finish token tokens).diagnostics := by
  rw [(stmt_own h).1, Call.made_eq, List.filterMap_append, List.filterMap_cons]
  cases Call.complaint? finish (.stmt token tokens) with
  | none => rfl
  | some complaint => rfl

/-- A row of statements: one that is read or left out, and what the call `next` does behind it.  A
statement pays for two calls more than it makes, which are itself and `next`. -/
theorem row {next : Call}
    (hstmt : Meets (Follows finish) (token :: tokens) ((Call.stmt token tokens).callees finish) (-2)
      (stmt finish token tokens))
    (hnext : Follows finish (stmt finish token tokens).rest [next] 1 ok rest others) :
    Follows finish (token :: tokens) [.stmt token tokens, next] 0 ok rest
      ((stmt finish token tokens).diagnostics ++ others) := by
  obtain ⟨own, hreports, hown⟩ := hnext.reports
  refine ⟨hnext.rest_suffix.trans hstmt.rest_suffix, ?_, ⟨own, ?_, hown⟩, ?_,
    fun h => absurd h (lt_irrefl 0), ?_⟩
  · refine List.forall_mem_cons.2 ⟨List.suffix_cons token tokens, fun call hcall => ?_⟩
    exact (hnext.within call hcall).trans hstmt.rest_suffix
  · -- what the statement itself has to say is the last word of its call
    rw [List.flatMap_cons, List.filterMap_append, stmt_reports hstmt, List.append_assoc, ← hreports]
  · -- the first token of the statement pays for a complaint about it
    have hfewer := hstmt.fewer (by decide)
    have := hnext.few
    have := Bool.toNat_le (!(stmt finish token tokens).result.isSome)
    rw [List.length_append]
    omega
  · have hcost := hstmt.cost
    have := hnext.cost
    rw [List.flatMap_cons, List.length_append, Call.made_eq, List.length_append, Call.inside,
      List.length_singleton]
    omega

end Follows

/-- **The moves of the parser do what their calls do**: `Follows` is kept by all of `Rules`, so that
every reading `Meets` it. -/
theorem follows_rules (finish : Token) : Rules finish (Follows finish) (Follows finish) where
  still := .still finish
  taken _ h := h.taken _
  onward := .onward
  called hcomplaint htokens h := h.called hcomplaint htokens
  spared := .spared
  missed _ tokens := .failed finish tokens _
  refused token tokens := (Follows.failed finish tokens _).taken token
  refusedEnd := .failed finish [] _
  tooLarge token tokens _ := (Follows.failed finish tokens _).taken token
  braced {brace tokens _ _ _} _ h := (h.called_block tokens).taken brace
  closed tokens _ := ((Follows.still finish tokens).taken _).spared (by decide)
  unclosed := .failed finish [] _
  row _ hstmt hmore := .row hstmt (hmore.called_block _)

theorem program_follows (finish : Token) (tokens : List Token) :
    Meets (Follows finish) tokens ((Call.program tokens).callees finish) 0
      (program finish tokens) := by
  fun_induction program finish tokens with
  | case1 => exact .still finish []
  | case2 token rest ih =>
    have hmore := (ih _ (stmt finish token rest).length_le).called (follows_rules finish)
      (List.suffix_refl _)
    show Follows finish (token :: rest) _ 0
      ((program finish (stmt finish token rest).rest).result.map _).isSome _ _
    rw [Option.isSome_map]
    exact Follows.row (stmt_meets (follows_rules finish) token rest) hmore

/-! ### The tree of calls as a whole -/

namespace Call

variable {finish : Token}

/-- The `callees` of a call work on the end of its `tokens`. -/
theorem tokens_suffix {call : Call} :
    ∀ inner ∈ call.callees finish, inner.tokens <:+ call.tokens := by
  intro inner hinner
  have hrules := follows_rules finish
  have hgiven : ∃ given, call.tokens <:+ given ∧ inner.tokens <:+ given := by
    cases call with
    | program tokens =>
      exact ⟨tokens, List.suffix_refl _, (program_follows finish tokens).within inner hinner⟩
    | stmt token tokens =>
      exact ⟨token :: tokens, List.suffix_cons _ _,
        (stmt_meets hrules token tokens).within inner hinner⟩
    | block tokens =>
      exact ⟨tokens, List.suffix_refl _, (block_meets hrules tokens).within inner hinner⟩
    | nextExpr floor tokens =>
      exact ⟨tokens, List.suffix_refl _, (nextExpr_meets hrules floor tokens).within inner hinner⟩
    | expr floor token tokens =>
      exact ⟨token :: tokens, List.suffix_cons _ _,
        (expr_meets hrules floor token tokens).within inner hinner⟩
    | operand token tokens =>
      exact ⟨token :: tokens, List.suffix_cons _ _,
        (operand_meets hrules token tokens).within inner hinner⟩
    | alternative tokens =>
      exact ⟨tokens, List.suffix_refl _, (alternative_meets hrules tokens).within inner hinner⟩
    | climb floor left tokens =>
      exact ⟨tokens, List.suffix_refl _, (climb_meets hrules floor left tokens).within inner hinner⟩
    | args tokens =>
      exact ⟨tokens, List.suffix_refl _, (args_meets hrules tokens).within inner hinner⟩
    | moreArgs tokens =>
      exact ⟨tokens, List.suffix_refl _, (moreArgs_meets hrules tokens).within inner hinner⟩
    | params tokens =>
      exact ⟨tokens, List.suffix_refl _, (params_meets hrules tokens).within inner hinner⟩
    | moreParams tokens =>
      exact ⟨tokens, List.suffix_refl _, (moreParams_meets hrules tokens).within inner hinner⟩
  obtain ⟨given, hcall, hinner'⟩ := hgiven
  -- the first token of a construct is not handed on, since the rank would not get smaller
  have hrank := rank_lt inner hinner
  have hlevel := call.level_le
  rw [rank, rank] at hrank
  exact List.suffix_of_suffix_length_le hinner' hcall (by omega)

theorem isSome_complaint? (call : Call) :
    (call.complaint? finish).isSome = call.dropped finish := by
  cases call with
  | stmt token tokens =>
    exact (Follows.stmt_own (stmt_meets (follows_rules finish) token tokens)).2
  | _ => rfl

theorem length_filterMap_complaint? (calls : List Call) :
    (calls.filterMap (complaint? finish)).length = calls.countP (dropped finish) := by
  rw [List.length_filterMap_eq_countP]
  simp only [isSome_complaint?]

end Call

/-- What is said while a program is read are the complaints about all calls that are `made`. -/
theorem program_reports (finish : Token) (tokens : List Token) :
    (program finish tokens).diagnostics =
      ((Call.program tokens).made finish).filterMap (Call.complaint? finish) := by
  obtain ⟨own, hreports, hown⟩ := Follows.reports
    ((program_follows finish tokens).called (follows_rules finish) (List.suffix_refl tokens))
  obtain ⟨nodes, hnodes⟩ := exists_program_result finish tokens
  rw [hnodes] at hown
  cases own with
  | none => rwa [List.flatMap_singleton, Option.toList_none, List.append_nil] at hreports
  | some complaint => cases hown

end Parse

/-! ### Every statement that is left out is reported once -/

open Parse

/-- **Every statement that is left out is reported once.**  The diagnostics of a program are, in
order, the complaints about the statements at any depth that could not be read, one for each; so
there is none exactly if no statement is left out, and there are no more of them than tokens.  A
statement that is read says nothing itself: whatever is reported meanwhile is about statements of
its blocks, and one that is not read adds one complaint to that. -/
theorem Cursor.parse_diagnostics_eq_complaints (cursor : Cursor) :
    let finish := cursor.finish.endToken
    let calls := (Call.program cursor.tokens).made finish
    cursor.parse.diagnostics = calls.filterMap (Call.complaint? finish) ∧
    cursor.parse.diagnostics.length = calls.countP (Call.dropped finish) ∧
    (∀ token tokens, let inside := (Call.stmt token tokens).inside finish
      ((stmt finish token tokens).result.isSome →
        (stmt finish token tokens).diagnostics = inside.filterMap (Call.complaint? finish)) ∧
      ((stmt finish token tokens).result = none → ∃ complaint,
        (stmt finish token tokens).diagnostics =
          inside.filterMap (Call.complaint? finish) ++ [complaint]) ∧
      ∀ inner left, .stmt inner left ∈ inside →
        ∃ row, .block row ∈ inside ∧ .stmt inner left ∈ (Call.block row).callees finish) ∧
    (cursor.parse.diagnostics = [] ↔ ∀ call ∈ calls, call.dropped finish = false) ∧
    cursor.parse.diagnostics.length ≤ cursor.tokens.length := by
  intro finish calls
  have hdiagnostics : cursor.parse.diagnostics = calls.filterMap (Call.complaint? finish) :=
    program_reports finish cursor.tokens
  have hlength : cursor.parse.diagnostics.length = calls.countP (Call.dropped finish) := by
    rw [hdiagnostics, Call.length_filterMap_complaint?]
  -- a program is always read to its end, so each diagnostic is paid for by a token of the text
  obtain ⟨nodes, hnodes⟩ := exists_program_result finish cursor.tokens
  have hfew := (program_follows finish cursor.tokens).few
  rw [hnodes, program_rest] at hfew
  refine ⟨hdiagnostics, hlength, fun token tokens => ?_, ?_, hfew⟩
  · obtain ⟨hreports, hown⟩ := Follows.stmt_own (stmt_meets (follows_rules finish) token tokens)
    refine ⟨fun hsome => ?_, fun hnone => ?_, fun inner left => Call.exists_block_of_mem_inside⟩
    · rw [Option.isNone_eq_false_iff.2 hsome, Option.isSome_eq_false_iff,
        Option.isNone_iff_eq_none] at hown
      rwa [hown, Option.toList_none, List.append_nil] at hreports
    · rw [hnone, Option.isNone_none, Option.isSome_iff_exists] at hown
      obtain ⟨complaint, hcomplaint⟩ := hown
      exact ⟨complaint, by rw [hreports, hcomplaint, Option.toList_some]⟩
  · rw [← List.length_eq_zero_iff, hlength, List.countP_eq_zero]
    simp only [Bool.not_eq_true]

/-- The binding in the body has no name and is left out; the function itself is read and has nothing
to add to what is said about the binding. -/
theorem Cursor.parse_diagnostics_eq_complaints_in_body :
    let cursor := Cursor.start [] (utf8 "fn()\x7blet\x7d")
    let finish := cursor.finish.endToken
    ∃ token tokens, cursor.tokens = token :: tokens ∧
      (stmt finish token tokens).result.isSome ∧
      (((Call.stmt token tokens).inside finish).filterMap (Call.complaint? finish)).length = 1 := by
  have hread : ∃ token tokens,
      (Cursor.start [] (utf8 "fn()\x7blet\x7d")).tokens = token :: tokens ∧
      let reading := stmt (Cursor.start [] (utf8 "fn()\x7blet\x7d")).finish.endToken token tokens
      reading.result.isSome ∧ reading.diagnostics.length = 1 :=
    ⟨⟨.fnWord, utf8 "fn", ⟨[], 1, 1⟩⟩, [⟨.openParen, utf8 "(", ⟨[], 1, 3⟩⟩,
      ⟨.closeParen, utf8 ")", ⟨[], 1, 4⟩⟩, ⟨.openBrace, utf8 "\x7b", ⟨[], 1, 5⟩⟩,
      ⟨.letWord, utf8 "let", ⟨[], 1, 6⟩⟩, ⟨.closeBrace, utf8 "\x7d", ⟨[], 1, 9⟩⟩],
      by decide +kernel, by decide +kernel, by decide +kernel⟩
  intro cursor finish
  obtain ⟨token, tokens, htokens, hsome, hlength⟩ := hread
  obtain ⟨-, -, hstmt, -⟩ := parse_diagnostics_eq_complaints cursor
  exact ⟨token, tokens, htokens, hsome,
    (congrArg List.length ((hstmt token tokens).1 hsome)).symm.trans hlength⟩

end TreeWalk
