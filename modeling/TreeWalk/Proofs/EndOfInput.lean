import Mathlib.Logic.Function.Iterate
import TreeWalk.Proofs.Descent
import TreeWalk.Proofs.Layout

/-!
# The end of the input

A parser that reads with one token of lookahead sees a text through a window: the token it stands
on, the next one, and the cursor behind the two.  Passing a token moves the window on by one.  Once
all tokens are passed, the window shows the end token twice, the cursor stands at the end, and both
stay so however often the window is moved.

Reading a program passes all tokens, whatever is wrong with them.  What it does on the way is
bounded: the calls that are nested in each other work on shorter and shorter ends of the tokens,
with at most five of them on the same one, and there are at most eight calls for each token.

## Main definitions

* `Window`, `Window.advance` — two tokens and the cursor behind them.
* `Window.Shows` — a window on what is left of the tokens.

## Main results

* `Window.shows_iterate` — moving a window passes the tokens one by one.
* `Cursor.parse_ends_at_finish` — **reading a program ends, and it ends at the end of the input.**
-/

namespace TreeWalk

/-! ### Tokens of a cursor at the end -/

namespace Cursor

theorem next?_finish (cursor : Cursor) : cursor.finish.next? = none := by
  obtain ⟨hend, hhead⟩ := cursor.finish_atEnd
  rw [next?_eq_none_iff, skipBlanks_rest isGap_nil hhead rfl]
  exact hend

theorem tokens_finish (cursor : Cursor) : cursor.finish.tokens = [] :=
  (scan_of_none cursor.next?_finish).1

theorem finish_finish (cursor : Cursor) : cursor.finish.finish = cursor.finish :=
  finish_of_atEnd cursor.finish_atEnd.1

/-- Every token takes a byte, so there are at most as many `tokens` as bytes. -/
theorem length_tokens_le (cursor : Cursor) : cursor.tokens.length ≤ cursor.rest.length := by
  induction cursor using scan.induct with
  | case1 cursor hnext =>
    rw [(scan_of_none hnext).1]
    exact Nat.zero_le _
  | case2 cursor token after hnext _ _ _ _ ih =>
    have hlt := length_next?_lt hnext
    rw [(scan_of_some hnext).1, List.length_cons]
    omega

/-- `Cursor.next` gives the first of the `tokens` and leaves the others; at the end it gives the end
token and stays there. -/
theorem next_eq (cursor : Cursor) :
    cursor.next.1 = cursor.tokens.headD cursor.finish.endToken ∧
      cursor.next.2.tokens = cursor.tokens.tail ∧ cursor.next.2.finish = cursor.finish ∧
      (cursor.tokens = [] → cursor.next.2 = cursor.finish) := by
  cases hnext : cursor.next? with
  | none =>
    obtain ⟨htokens, hfinish⟩ := scan_of_none hnext
    have hcursor : cursor.next = (cursor.endToken, cursor.finish) := by
      rw [next, hnext, hfinish]
      rfl
    have hend : cursor.endToken = cursor.finish.endToken := by
      rw [endToken_finish, hfinish]
      rfl
    rw [hcursor, htokens]
    exact ⟨hend, cursor.tokens_finish, cursor.finish_finish, fun _ => rfl⟩
  | some read =>
    obtain ⟨token, after⟩ := read
    obtain ⟨htokens, hfinish⟩ := scan_of_some hnext
    have hcursor : cursor.next = (token, after) := by
      rw [next, hnext]
      rfl
    rw [hcursor, htokens]
    refine ⟨rfl, rfl, hfinish.symm, fun h => ?_⟩
    cases h

end Cursor

/-! ### A window on the tokens -/

/-- What a parser with one token of lookahead has in front of it: the `current` token, the next
one to `peek` at, and the `cursor` behind both. -/
structure Window where
  /-- The token it stands on. -/
  current : Token
  /-- The next token. -/
  peek : Token
  /-- The cursor behind the two. -/
  cursor : Cursor

/-- The `Window` at the start of the text of `cursor`. -/
def Cursor.window (cursor : Cursor) : Window :=
  ⟨cursor.next.1, cursor.next.2.next.1, cursor.next.2.next.2⟩

namespace Window

/-- The `Window` behind the token that `window` stands on. -/
def advance (window : Window) : Window :=
  ⟨window.peek, window.cursor.next.1, window.cursor.next.2⟩

/-- The `window` shows the first two of the `tokens` that are left, with end tokens where there are
too few, and the others are behind it. -/
structure Shows (window : Window) (tokens : List Token) (finish : Cursor) : Prop where
  /-- The first token. -/
  current : window.current = tokens.headD finish.endToken
  /-- The second token. -/
  peek : window.peek = tokens.tail.headD finish.endToken
  /-- The other tokens. -/
  behind : window.cursor.tokens = tokens.tail.tail
  /-- The end behind them. -/
  finish_eq : window.cursor.finish = finish
  /-- The end is reached when there is no second token. -/
  cursor_eq : tokens.tail = [] → window.cursor = finish

theorem shows_window (cursor : Cursor) : cursor.window.Shows cursor.tokens cursor.finish := by
  obtain ⟨hfirst, htokens, hfinish, -⟩ := cursor.next_eq
  obtain ⟨hsecond, htokens', hfinish', hcursor⟩ := cursor.next.2.next_eq
  rw [htokens] at hsecond htokens' hcursor
  rw [hfinish] at hsecond hfinish' hcursor
  exact ⟨hfirst, hsecond, htokens', hfinish', hcursor⟩

/-- `Window.advance` passes a token. -/
theorem Shows.advance {window : Window} {tokens : List Token} {finish : Cursor}
    (h : window.Shows tokens finish) : window.advance.Shows tokens.tail finish := by
  obtain ⟨hsecond, htokens, hfinish, hcursor⟩ := window.cursor.next_eq
  rw [h.behind] at hsecond htokens hcursor
  rw [h.finish_eq] at hsecond hfinish hcursor
  exact ⟨h.peek, hsecond, htokens, hfinish, hcursor⟩

/-- By induction on `passed`: moving a window as often passes as many tokens. -/
theorem shows_iterate (cursor : Cursor) (passed : Nat) :
    (advance^[passed] cursor.window).Shows (cursor.tokens.drop passed) cursor.finish := by
  induction passed with
  | zero => exact shows_window cursor
  | succ passed ih =>
    rw [Function.iterate_succ_apply', ← List.tail_drop]
    exact ih.advance

/-- Behind all tokens a window shows two end tokens, and its cursor is at `finish`. -/
theorem Shows.eq_of_nil {window : Window} {finish : Cursor} (h : window.Shows [] finish) :
    window = ⟨finish.endToken, finish.endToken, finish⟩ := by
  calc window = ⟨window.current, window.peek, window.cursor⟩ := rfl
    _ = ⟨finish.endToken, finish.endToken, finish⟩ := by
      rw [h.current, h.peek, h.cursor_eq rfl]
      rfl

end Window

/-! ### Reading to the end -/

/-- At `finish` there is nothing to read and nothing to complain about. -/
theorem Cursor.parse_finish (cursor : Cursor) : cursor.finish.parse = ⟨[], [], []⟩ := by
  rw [parse, tokens_finish, Parse.program]
  rfl

open Parse

/-- **Reading a program ends, and it ends at the end of the input**, whatever the text is.  There
are at most as many tokens as bytes, and the end token.  Every call of the parser works on tokens
that are not passed yet, and those that it makes work on fewer tokens or on a lower level; there are
at most eight calls for each token.  When all is read, the window behind what has been passed shows
the end of the input, so that reading again from there gives nothing and no complaint. -/
theorem Cursor.parse_ends_at_finish (file text : Bytes) :
    let cursor := Cursor.start file text
    let finish := cursor.finish.endToken
    let calls := (Call.program cursor.tokens).made finish
    let window := Window.advance^[cursor.tokens.length - cursor.parse.rest.length] cursor.window
    cursor.allTokens.length ≤ text.length + 1 ∧
    (∀ call ∈ calls, call.tokens <:+ cursor.tokens ∧ call.level < 5 ∧
      ∀ inner ∈ call.callees finish, inner.tokens <:+ call.tokens ∧
        (inner.tokens.length = call.tokens.length → inner.level < call.level)) ∧
    calls.length ≤ 8 * cursor.tokens.length + 1 ∧
    cursor.parse.rest = [] ∧
    window = ⟨finish, finish, cursor.finish⟩ ∧ finish.kind = .eof ∧ window.advance = window ∧
    window.cursor.next? = none ∧ window.cursor.parse = ⟨[], [], []⟩ := by
  intro cursor finish calls window
  have hrest : cursor.parse.rest = [] := program_rest finish cursor.tokens
  have hshows : window.Shows [] cursor.finish := by
    have hdrop : cursor.tokens.drop (cursor.tokens.length - cursor.parse.rest.length) = [] := by
      rw [hrest]
      exact List.drop_length
    have h := Window.shows_iterate cursor (cursor.tokens.length - cursor.parse.rest.length)
    rwa [hdrop] at h
  have hwindow : window = ⟨finish, finish, cursor.finish⟩ := hshows.eq_of_nil
  have hstill : window.advance = window := hshows.advance.eq_of_nil.trans hwindow.symm
  have hbytes : cursor.allTokens.length ≤ text.length + 1 := by
    have htokens : cursor.tokens.length ≤ text.length := cursor.length_tokens_le
    rw [allTokens, List.length_append, List.length_singleton]
    exact Nat.succ_le_succ htokens
  -- a call hands on that it works on the end of the tokens, so all of them do
  have hwithin : ∀ call ∈ calls, call.tokens <:+ cursor.tokens :=
    Call.forall_mem_made
      (fun call hcall inner hinner => (Call.tokens_suffix inner hinner).trans hcall)
      _ (List.suffix_refl _)
  have hlower : ∀ call, ∀ inner ∈ Call.callees finish call, inner.tokens <:+ call.tokens ∧
      (inner.tokens.length = call.tokens.length → inner.level < call.level) := by
    intro call inner hinner
    -- on the same tokens the rank can only get smaller by the level
    refine ⟨Call.tokens_suffix inner hinner, fun hlength => ?_⟩
    have hrank := Call.rank_lt inner hinner
    rw [Call.rank, Call.rank, hlength] at hrank
    omega
  have hcost :
      ((Call.program cursor.tokens).made finish).length ≤ 8 * cursor.tokens.length + 1 := by
    have h := Follows.cost ((program_follows finish cursor.tokens).called (follows_rules finish)
      (List.suffix_refl _))
    rw [List.flatMap_singleton, program_rest, List.length_nil] at h
    omega
  refine ⟨hbytes, fun call hcall => ⟨hwithin call hcall, Nat.lt_succ_of_le call.level_le,
    hlower call⟩, hcost, hrest, hwindow, rfl, hstill, ?_⟩
  rw [hwindow]
  exact ⟨cursor.next?_finish, cursor.parse_finish⟩

end TreeWalk
