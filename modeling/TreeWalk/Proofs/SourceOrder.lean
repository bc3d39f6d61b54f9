import Mathlib.Data.Prod.Lex
import TreeWalk.Proofs.Layout
import TreeWalk.Proofs.ParserRules

/-!
# Complaints come in the order of the text

The parser complains either of the token it stands on or of the next one, and goes on behind the
first of the two or at the second.  So what it complains of later does not stand before what it
complained of earlier.  Between the two there may be the end of any number of blocks, which is why
the account of a reading names both ends: a complaint lies between the first token that is given and
the first one that is left.

That the tokens themselves come in the order of the text is a matter of scanning.

## Main definitions

* `Position.place` — the line and the column, ordered by line first.
* `Parse.Ascending` — tokens in the order of the text, the end token last.
* `Parse.InOrder` — the complaints of a reading come in order and point at tokens.

## Main results

* `Cursor.ascending_tokens` — the tokens of a text ascend.
* `Parse.inOrder_rules` — **the moves of the parser keep to the order.**
* `Cursor.diagnostics_in_source_order` — complaints come in the order of the text.
-/

namespace TreeWalk

/-! ### Places -/

namespace Position

/-- The line and the column of a position; the line counts first. -/
def place (pos : Position) : ℤ ×ₗ ℤ := toLex (pos.line, pos.column)

theorem place_le_iff {pos other : Position} : pos.place ≤ other.place ↔
    pos.line < other.line ∨ pos.line = other.line ∧ pos.column ≤ other.column :=
  Prod.Lex.toLex_le_toLex

theorem place_le_advance (pos : Position) (b : UInt8) : pos.place ≤ (pos.advance b).place := by
  rw [place_le_iff, advance]
  split
  · exact .inl (Int.lt_succ pos.line)
  · exact .inr ⟨rfl, Int.le_of_lt (Int.lt_succ pos.column)⟩

theorem place_le_advanceOver (pos : Position) (text : Bytes) :
    pos.place ≤ (pos.advanceOver text).place := by
  induction text generalizing pos with
  | nil => exact le_rfl
  | cons b text ih => exact (place_le_advance pos b).trans (ih (pos.advance b))

end Position

/-! ### Tokens in order -/

namespace Parse

/-- The `tokens` come in the order of the text, and the end token `finish` comes last. -/
def Ascending (finish : Token) (tokens : List Token) : Prop :=
  (tokens ++ [finish]).Pairwise fun token other => token.pos.place ≤ other.pos.place

/-- The `place` of the next token, which may be the end token `finish`. -/
def nextPlace (finish : Token) (tokens : List Token) : ℤ ×ₗ ℤ := (tokens.headD finish).pos.place

variable {finish token : Token} {tokens rest : List Token}

theorem suffix_append_finish (h : rest <:+ tokens) : rest ++ [finish] <:+ tokens ++ [finish] := by
  obtain ⟨taken, rfl⟩ := h
  exact ⟨taken, (List.append_assoc taken rest [finish]).symm⟩

theorem Ascending.of_suffix (h : Ascending finish tokens) (hrest : rest <:+ tokens) :
    Ascending finish rest :=
  h.sublist (suffix_append_finish hrest).sublist

theorem Ascending.tail (h : Ascending finish (token :: tokens)) : Ascending finish tokens :=
  h.of_suffix (List.suffix_cons token tokens)

/-- The first token does not stand behind the `nextPlace`. -/
theorem Ascending.place_le_nextPlace (h : Ascending finish (token :: tokens)) :
    token.pos.place ≤ nextPlace finish tokens := by
  have hfirst := (List.pairwise_cons.1 h).1
  cases tokens with
  | nil => exact hfirst finish (List.mem_singleton_self finish)
  | cons next tokens => exact hfirst next List.mem_cons_self

/-- What is left starts no earlier than what was given: `nextPlace` does not decrease. -/
theorem Ascending.nextPlace_le (h : Ascending finish tokens) (hrest : rest <:+ tokens) :
    nextPlace finish tokens ≤ nextPlace finish rest := by
  obtain ⟨taken, rfl⟩ := hrest
  induction taken with
  | nil => exact le_rfl
  | cons token taken ih => exact h.place_le_nextPlace.trans (ih h.tail)

end Parse

namespace Cursor

open Parse

theorem place_le_skipBlanks (cursor : Cursor) : cursor.pos.place ≤ cursor.skipBlanks.pos.place :=
  Position.place_le_advanceOver _ _

/-- The tokens from a `cursor` on are `Ascending`, and none stands before the cursor. -/
theorem ascending_tokens (cursor : Cursor) : Ascending cursor.finish.endToken cursor.tokens ∧
    ∀ token ∈ cursor.tokens ++ [cursor.finish.endToken], cursor.pos.place ≤ token.pos.place := by
  induction cursor using scan.induct with
  | case1 cursor hnext =>
    obtain ⟨htokens, hfinish⟩ := scan_of_none hnext
    rw [htokens, endToken_finish, hfinish]
    refine ⟨List.pairwise_singleton _ _, List.forall_mem_singleton.2 ?_⟩
    exact cursor.place_le_skipBlanks
  | case2 cursor token after hnext _ _ _ _ ih =>
    obtain ⟨hascending, hbehind⟩ := ih
    obtain ⟨htokens, hfinish⟩ := scan_of_some hnext
    obtain ⟨b, rest, -, -, rfl, rfl⟩ := next?_eq_some_iff.1 hnext
    -- the token starts where blanks end, and the rest of the text starts behind its bytes
    have hpassed := fun other hother =>
      (Position.place_le_advanceOver cursor.skipBlanks.pos _).trans (hbehind other hother)
    rw [htokens, hfinish]
    refine ⟨List.pairwise_cons.2 ⟨hpassed, hascending⟩, List.forall_mem_cons.2 ⟨?_, ?_⟩⟩
    · exact cursor.place_le_skipBlanks
    · exact fun other hother => cursor.place_le_skipBlanks.trans (hpassed other hother)

end Cursor

/-! ### Complaints in order -/

namespace Parse

/-- The `diagnostics` of a reading point at tokens, and come in the order of the text if the tokens
do: none before the first of `tokens`, and none behind the first of `rest`. -/
structure InOrder (finish : Token) (tokens rest : List Token) (diagnostics : List Diagnostic) :
    Prop where
  /-- What is left is the end of what was given. -/
  suffix : rest <:+ tokens
  /-- Every complaint points at a token. -/
  pointed : ∀ diagnostic ∈ diagnostics, ∃ token ∈ tokens ++ [finish], diagnostic.pos = token.pos
  /-- They come in order. -/
  sorted : Ascending finish tokens →
    diagnostics.Pairwise fun diagnostic later => diagnostic.pos.place ≤ later.pos.place
  /-- They lie between the two ends. -/
  between : Ascending finish tokens → ∀ diagnostic ∈ diagnostics,
    nextPlace finish tokens ≤ diagnostic.pos.place ∧ diagnostic.pos.place ≤ nextPlace finish rest

namespace InOrder

variable {finish token : Token} {tokens middle rest : List Token}
  {diagnostics more : List Diagnostic}

theorem nil (hrest : rest <:+ tokens) : InOrder finish tokens rest [] where
  suffix := hrest
  pointed := List.forall_mem_nil _
  sorted _ := List.Pairwise.nil
  between _ := List.forall_mem_nil _

/-- A single complaint about a `token` between the two ends. -/
theorem singleton {complaint : Complaint} (hrest : rest <:+ tokens)
    (hmem : token ∈ tokens ++ [finish])
    (hplace : Ascending finish tokens → nextPlace finish tokens ≤ token.pos.place ∧
      token.pos.place ≤ nextPlace finish rest) :
    InOrder finish tokens rest [.of complaint token.pos] where
  suffix := hrest
  pointed := List.forall_mem_singleton.2 ⟨token, hmem, rfl⟩
  sorted _ := List.pairwise_singleton _ _
  between h := List.forall_mem_singleton.2 (hplace h)

/-- A complaint about the first token, which is passed. -/
theorem passed (complaint : Complaint) (token : Token) (tokens : List Token) :
    InOrder finish (token :: tokens) tokens [.of complaint token.pos] :=
  singleton (List.suffix_cons token tokens) List.mem_cons_self
    fun h => ⟨le_rfl, h.place_le_nextPlace⟩

/-- A complaint about the next token, which is left where it is. -/
theorem left (complaint : Complaint) (tokens : List Token) :
    InOrder finish tokens tokens [.of complaint (tokens.headD finish).pos] := by
  refine singleton (List.suffix_refl tokens) ?_ fun _ => ⟨le_rfl, le_rfl⟩
  cases tokens with
  | nil => exact List.mem_singleton_self finish
  | cons token tokens => exact List.mem_cons_self

/-- `InOrder` behind a token that is taken. -/
theorem take (token : Token) (h : InOrder finish tokens rest diagnostics) :
    InOrder finish (token :: tokens) rest diagnostics where
  suffix := h.suffix.trans (List.suffix_cons token tokens)
  pointed diagnostic hdiagnostic := by
    obtain ⟨other, hother, hpos⟩ := h.pointed diagnostic hdiagnostic
    exact ⟨other, List.mem_cons_of_mem token hother, hpos⟩
  sorted hascending := h.sorted hascending.tail
  between hascending diagnostic hdiagnostic := by
    obtain ⟨hlow, hhigh⟩ := h.between hascending.tail diagnostic hdiagnostic
    exact ⟨hascending.place_le_nextPlace.trans hlow, hhigh⟩

/-- One reading behind another: where the first ends, at `middle`, the second starts. -/
theorem append (hfirst : InOrder finish tokens middle diagnostics)
    (hsecond : InOrder finish middle rest more) :
    InOrder finish tokens rest (diagnostics ++ more) where
  suffix := hsecond.suffix.trans hfirst.suffix
  pointed := by
    refine List.forall_mem_append.2 ⟨hfirst.pointed, fun diagnostic hdiagnostic => ?_⟩
    obtain ⟨token, htoken, hpos⟩ := hsecond.pointed diagnostic hdiagnostic
    exact ⟨token, (suffix_append_finish hfirst.suffix).subset htoken, hpos⟩
  sorted hascending := by
    have hmiddle := hascending.of_suffix hfirst.suffix
    refine List.pairwise_append.2 ⟨hfirst.sorted hascending, hsecond.sorted hmiddle, ?_⟩
    intro diagnostic hdiagnostic later hlater
    exact (hfirst.between hascending diagnostic hdiagnostic).2.trans
      (hsecond.between hmiddle later hlater).1
  between hascending := by
    have hmiddle := hascending.of_suffix hfirst.suffix
    refine List.forall_mem_append.2 ⟨fun diagnostic hdiagnostic => ?_, fun later hlater => ?_⟩
    · obtain ⟨hlow, hhigh⟩ := hfirst.between hascending diagnostic hdiagnostic
      exact ⟨hlow, hhigh.trans (hmiddle.nextPlace_le hsecond.suffix)⟩
    · obtain ⟨hlow, hhigh⟩ := hsecond.between hmiddle later hlater
      exact ⟨(hascending.nextPlace_le hfirst.suffix).trans hlow, hhigh⟩

end InOrder

/-- **The moves of the parser keep to the order of the text**: `InOrder` is kept by all of
`Rules`. -/
theorem inOrder_rules (finish : Token) :
    let account : Account := .plain fun tokens _ => InOrder finish tokens
    Rules finish account account where
  still tokens := .nil (List.suffix_refl tokens)
  taken _ h := h.take _
  onward := .append
  called _ _ h := h
  spared _ h := h
  missed _ tokens := .left _ tokens
  refused token tokens := .passed _ token tokens
  refusedEnd := .left _ []
  tooLarge token tokens _ := .passed _ token tokens
  braced _ h := h.take _
  closed tokens _ := .nil (List.suffix_cons _ tokens)
  unclosed := .left _ []
  row _ := .append

theorem program_inOrder (finish : Token) (tokens : List Token) :
    InOrder finish tokens (program finish tokens).rest (program finish tokens).diagnostics := by
  fun_induction program finish tokens with
  | case1 => exact .nil (List.suffix_refl [])
  | case2 token rest ih =>
    have hstmt := stmt_meets (inOrder_rules finish) token rest
    exact InOrder.append hstmt (ih _ (stmt finish token rest).length_le)

end Parse

/-- **Complaints come in the order of the text and point at tokens.**  Every diagnostic of a program
has the position of one of its tokens, which may be the end token, and no diagnostic stands before
an earlier one. -/
theorem Cursor.diagnostics_in_source_order (file text : Bytes) :
    let cursor := Cursor.start file text
    (∀ diagnostic ∈ cursor.parse.diagnostics,
      ∃ token ∈ cursor.allTokens, diagnostic.pos = token.pos) ∧
    cursor.parse.diagnostics.Pairwise fun diagnostic later =>
      diagnostic.pos.line < later.pos.line ∨
        diagnostic.pos.line = later.pos.line ∧ diagnostic.pos.column ≤ later.pos.column := by
  intro cursor
  have hprogram := Parse.program_inOrder cursor.finish.endToken cursor.tokens
  refine ⟨hprogram.pointed, ?_⟩
  exact (hprogram.sorted cursor.ascending_tokens.1).imp Position.place_le_iff.1

end TreeWalk
