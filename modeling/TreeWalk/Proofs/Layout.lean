import Mathlib.Data.List.Chain
import TreeWalk.Proofs.Spelling

/-!
# How a text is laid out

A program text is a run of blanks and then tokens, each followed by a run of blanks.  Scanning finds
the tokens where they stand: nothing of the text is lost, no two tokens overlap, and every token has
the position that its place in the text gives it.  Conversely, tokens that are written one after
another, with blanks where two of them would otherwise grow together, are found again.

## Main definitions

* `Position.behind` — the position behind a text, in closed form.
* `Stretch` — a token, the bytes that spell it and the blanks behind them.
* `Stretch.LiesAt` — a stretch is what scanning should find at a place.
* `Kind.mayTouch` — the kinds of tokens that may stand next to each other.
* `items` — the kinds and texts of the tokens of a text.

## Main results

* `Cursor.exists_stretches` — the tokens from any place on cover the text up to its end.
* `Cursor.allTokens_lossless` — **scanning loses nothing and gets every position right.**
* `items_written`, `items_gap` — a written token is found, and blanks are skipped.
* `Cursor.allTokens_written` — **what is written is found.**
-/

namespace TreeWalk

open Spelling

/-! ### Positions -/

/-- The position behind the first bytes of a file: one line further for each line feed, one column
further for each byte behind the last of them. -/
def Position.behind (file text : Bytes) : Position :=
  ⟨file, 1 + text.count (ascii '\n'), 1 + (text.reverse.takeWhile (· ≠ ascii '\n')).length⟩

theorem Position.advanceOver_start (file text : Bytes) :
    (start file).advanceOver text = behind file text := by
  obtain ⟨reversed, rfl⟩ : ∃ reversed, text = reversed.reverse := ⟨text.reverse, by simp⟩
  induction reversed with
  | nil => rfl
  | cons b reversed ih =>
    rw [List.reverse_cons, advanceOver_append, ih, advanceOver_cons, advanceOver_nil, advance]
    by_cases hb : b = ascii '\n'
    · simp [behind, hb, Int.add_assoc]
    · simp [behind, hb, Int.add_assoc]

/-! ### One step of scanning -/

namespace Cursor

/-- What `skipBlanks` skips is a run of blanks, a `gap`. -/
theorem exists_gap (cursor : Cursor) : ∃ gap, IsGap gap ∧
    cursor.rest = gap ++ cursor.skipBlanks.rest ∧
    cursor.skipBlanks.pos = cursor.pos.advanceOver gap := by
  refine ⟨cursor.rest.takeWhile isBlank, fun b hb => ?_, ?_, rfl⟩
  · exact (isBlank_iff b).mp (List.all_eq_true.mp List.all_takeWhile b hb)
  · exact List.takeWhile_append_dropWhile.symm

theorem not_blank_of_mem_head?_skipBlanks (cursor : Cursor) :
    ∀ b ∈ cursor.skipBlanks.rest.head?, b ∉ blanks := fun b hb =>
  mt (isBlank_iff b).mpr (not_of_mem_head?_dropWhile b hb)

theorem skipBlanks_rest {cursor : Cursor} {gap text : Bytes} (hgap : IsGap gap)
    (htext : ∀ b ∈ text.head?, b ∉ blanks) (h : cursor.rest = gap ++ text) :
    cursor.skipBlanks = ⟨text, cursor.pos.advanceOver gap⟩ := by
  obtain ⟨htake, hdrop⟩ := takeWhile_dropWhile_run (p := isBlank)
    (fun b hb => (isBlank_iff b).mpr (hgap b hb)) (fun b hb => mt (isBlank_iff b).mp (htext b hb))
  rw [skipBlanks, h, htake, hdrop]

theorem next?_eq_none_iff {cursor : Cursor} :
    cursor.next? = none ↔ AtEnd cursor.skipBlanks.rest := by
  rw [next?, AtEnd]
  cases hrest : cursor.skipBlanks.rest with
  | nil => simp
  | cons b rest => by_cases hb : b = 0 <;> simp [hb]

theorem next?_eq_some_iff {cursor after : Cursor} {token : Token} :
    cursor.next? = some (token, after) ↔
      ∃ b rest, cursor.skipBlanks.rest = b :: rest ∧ b ≠ 0 ∧
        token = ⟨(Reading.read b rest).kind, (Reading.read b rest).lexeme, cursor.skipBlanks.pos⟩ ∧
        after = ⟨(Reading.read b rest).rest,
          cursor.skipBlanks.pos.advanceOver (Reading.read b rest).raw⟩ := by
  rw [next?]
  cases hrest : cursor.skipBlanks.rest with
  | nil => simp
  | cons b rest =>
    by_cases hb : b = 0
    · simp [hb]
    · simp only [if_neg hb, Option.some.injEq, Prod.mk.injEq, List.cons.injEq]
      constructor
      · rintro ⟨rfl, rfl⟩
        exact ⟨b, rest, ⟨rfl, rfl⟩, hb, rfl, rfl⟩
      · rintro ⟨_, _, ⟨rfl, rfl⟩, -, rfl, rfl⟩
        exact ⟨rfl, rfl⟩

theorem scan_of_none {cursor : Cursor} (h : cursor.next? = none) :
    cursor.tokens = [] ∧ cursor.finish = cursor.skipBlanks := by
  rw [tokens, finish, scan]
  split
  · exact ⟨rfl, rfl⟩
  · next hnext => exact absurd (h.symm.trans hnext) (by simp)

theorem scan_of_some {cursor after : Cursor} {token : Token}
    (h : cursor.next? = some (token, after)) :
    cursor.tokens = token :: after.tokens ∧ cursor.finish = after.finish := by
  rw [tokens, finish, scan]
  split
  · next hnext => exact absurd (h.symm.trans hnext) (by simp)
  · next hnext =>
    obtain ⟨rfl, rfl⟩ := Prod.mk.inj (Option.some.inj (h.symm.trans hnext))
    exact ⟨rfl, rfl⟩

/-- At `finish` a text is at its end, and no blank is left to skip. -/
theorem finish_atEnd (cursor : Cursor) :
    AtEnd cursor.finish.rest ∧ ∀ b ∈ cursor.finish.rest.head?, b ∉ blanks := by
  induction cursor using scan.induct with
  | case1 cursor hnext =>
    rw [(scan_of_none hnext).2]
    exact ⟨next?_eq_none_iff.mp hnext, cursor.not_blank_of_mem_head?_skipBlanks⟩
  | case2 cursor token after hnext _ _ _ _ ih => rwa [(scan_of_some hnext).2]

theorem endToken_finish (cursor : Cursor) :
    cursor.finish.endToken = ⟨.eof, [], cursor.finish.pos⟩ := by
  rw [endToken, skipBlanks_rest isGap_nil cursor.finish_atEnd.2 rfl]
  rfl

/-- A text that is at its end has its `finish` there. -/
theorem finish_of_atEnd {cursor : Cursor} (h : AtEnd cursor.rest) : cursor.finish = cursor := by
  have hhead : ∀ b ∈ cursor.rest.head?, b ∉ blanks := by
    intro b hb
    rcases h with hrest | ⟨more, hrest⟩
    · simp [hrest] at hb
    · obtain rfl : 0 = b := by simpa [hrest] using hb
      decide
  have hskip : cursor.skipBlanks = cursor := skipBlanks_rest isGap_nil hhead rfl
  have hnext : cursor.next? = none := next?_eq_none_iff.mpr (by rwa [hskip])
  rw [(scan_of_none hnext).2, hskip]

end Cursor

/-! ### Stretches -/

/-- A token, the bytes that spell it, and the blanks behind them. -/
structure Stretch where
  /-- The token. -/
  token : Token
  /-- The bytes that spell it. -/
  raw : Bytes
  /-- The blanks behind them. -/
  gap : Bytes

namespace Stretch

/-- The bytes of a row of stretches, with the blanks behind each. -/
def textOf (stretches : List Stretch) : Bytes :=
  stretches.flatMap fun stretch => stretch.raw ++ stretch.gap

@[simp] theorem textOf_nil : textOf [] = [] := rfl

@[simp] theorem textOf_cons (stretch : Stretch) (more : List Stretch) :
    textOf (stretch :: more) = stretch.raw ++ stretch.gap ++ textOf more := rfl

/-- The `stretch` is what should be found at `pos`, with `after` behind it in a text of which
`finish` is never read. -/
structure LiesAt (stretch : Stretch) (pos : Position) (after finish : Bytes) : Prop where
  /-- It takes some bytes. -/
  raw_ne_nil : stretch.raw ≠ []
  /-- What is behind them is blank. -/
  gap : IsGap stretch.gap
  /-- The bytes spell the token. -/
  spelled : Spelled finish (stretch.gap ++ after ++ finish) stretch.token.kind
    stretch.token.lexeme stretch.raw
  /-- The token knows its position. -/
  pos_eq : stretch.token.pos = pos

/-- Every stretch of a row lies where the ones before it end (`LiesAt`). -/
def Laid (pos : Position) (finish : Bytes) (stretches : List Stretch) : Prop :=
  ∀ before stretch after, stretches = before ++ stretch :: after →
    stretch.LiesAt (pos.advanceOver (textOf before)) (textOf after) finish

theorem laid_nil (pos : Position) (finish : Bytes) : Laid pos finish [] := by
  intro before stretch after h
  simp at h

theorem Laid.cons {pos : Position} {finish : Bytes} {stretch : Stretch} {more : List Stretch}
    (hstretch : stretch.LiesAt pos (textOf more) finish)
    (hmore : Laid (pos.advanceOver (stretch.raw ++ stretch.gap)) finish more) :
    Laid pos finish (stretch :: more) := by
  intro before other after h
  cases before with
  | nil =>
    obtain ⟨rfl, rfl⟩ := List.cons.inj h
    exact hstretch
  | cons first before =>
    obtain ⟨rfl, rfl⟩ := List.cons.inj h
    rw [textOf_cons, Position.advanceOver_append]
    exact hmore before other after rfl

end Stretch

open Stretch

namespace Cursor

/-- The token that `next?` finds lies where it is found. -/
theorem liesAt_of_next? {cursor after : Cursor} {token : Token} {gap text : Bytes}
    (h : cursor.next? = some (token, after)) (hgap : IsGap gap)
    (hafter : after.rest = gap ++ text ++ after.finish.rest) :
    ∃ raw, cursor.skipBlanks.rest = raw ++ after.rest ∧
      after.pos = cursor.skipBlanks.pos.advanceOver raw ∧
      (Stretch.mk token raw gap).LiesAt cursor.skipBlanks.pos text after.finish.rest := by
  have hend (h : AtEnd after.rest) : after.rest = after.finish.rest := by rw [finish_of_atEnd h]
  obtain ⟨b, rest, hrest, hzero, rfl, rfl⟩ := next?_eq_some_iff.mp h
  have hblank : b ∉ blanks := cursor.not_blank_of_mem_head?_skipBlanks b (by simp [hrest])
  refine ⟨_, ?_, rfl, ?_⟩
  · rw [hrest, Reading.read_raw_append_rest]
  · refine ⟨Reading.read_raw_ne_nil b rest, hgap, ?_, rfl⟩
    rw [← hafter]
    exact Reading.read_spelled hblank hzero hend

/-- **The tokens from any place on, with the blanks around them, are the text up to its end.**  By
induction on the scan. -/
theorem exists_stretches (cursor : Cursor) : ∃ lead stretches, IsGap lead ∧
    cursor.rest = lead ++ textOf stretches ++ cursor.finish.rest ∧
    cursor.tokens = stretches.map Stretch.token ∧
    cursor.finish.pos = cursor.pos.advanceOver (lead ++ textOf stretches) ∧
    Laid (cursor.pos.advanceOver lead) cursor.finish.rest stretches := by
  induction cursor using scan.induct with
  | case1 cursor hnext =>
    obtain ⟨lead, hlead, hrest, hpos⟩ := cursor.exists_gap
    obtain ⟨htokens, hfinish⟩ := scan_of_none hnext
    refine ⟨lead, [], hlead, ?_, htokens, ?_, laid_nil _ _⟩
    · rw [textOf_nil, List.append_nil, hfinish]
      exact hrest
    · rw [textOf_nil, List.append_nil, hfinish, hpos]
  | case2 cursor token after hnext _ _ _ _ ih =>
    obtain ⟨lead, hlead, hrest, hpos⟩ := cursor.exists_gap
    obtain ⟨htokens, hfinish⟩ := scan_of_some hnext
    -- the blanks in front of what follows are the gap behind this token
    obtain ⟨gap, stretches, hgap, hafter, hmore, hend, hlaid⟩ := ih
    obtain ⟨raw, hraw, hbehind, hlies⟩ := liesAt_of_next? hnext hgap hafter
    have hmoved : after.pos.advanceOver gap =
        (cursor.pos.advanceOver lead).advanceOver (raw ++ gap) := by
      rw [hbehind, hpos, Position.advanceOver_append]
    refine ⟨lead, ⟨token, raw, gap⟩ :: stretches, hlead, ?_, ?_, ?_, ?_⟩
    · rw [hrest, hraw, hafter, hfinish]
      simp
    · rw [htokens, hmore, List.map_cons]
    · rw [hfinish, hend, Position.advanceOver_append, hmoved]
      simp [Position.advanceOver_append]
    · rw [hfinish]
      refine Laid.cons (hpos ▸ hlies) ?_
      rwa [← hmoved]

/-- **Scanning loses nothing and gets every position right.**  The text ends where there is no byte
or a NUL byte.  Up to there it is a run of blanks and stretches, one for each token; each of them
holds the bytes that spell its token, as long as they could be, and blanks; and each token, the end
token included, has the position that follows from the bytes in front of it. -/
theorem allTokens_lossless (file text : Bytes) :
    let finish := (start file text).finish.rest
    AtEnd finish ∧ ∃ lead stretches, IsGap lead ∧
      text = lead ++ textOf stretches ++ finish ∧
      (start file text).allTokens = stretches.map Stretch.token ++
        [⟨.eof, [], .behind file (lead ++ textOf stretches)⟩] ∧
      ∀ before stretch after, stretches = before ++ stretch :: after →
        stretch.LiesAt (.behind file (lead ++ textOf before)) (textOf after) finish := by
  intro finish
  obtain ⟨lead, stretches, hlead, htext, htokens, hend, hlaid⟩ := (start file text).exists_stretches
  refine ⟨(finish_atEnd _).1, lead, stretches, hlead, htext, ?_, fun before stretch after h => ?_⟩
  · rw [allTokens, htokens, endToken_finish, hend, start, Position.advanceOver_start]
  · rw [← Position.advanceOver_start, Position.advanceOver_append]
    exact hlaid before stretch after h

end Cursor

/-! ### Written tokens -/

/-- The kind and the text of a token. -/
def Token.item (token : Token) : Kind × Bytes := (token.kind, token.lexeme)

/-- The kinds and texts of the tokens of a text. -/
def items (text : Bytes) : List (Kind × Bytes) := (Cursor.start [] text).tokens.map Token.item

namespace Cursor

/-- What tokens are found, by kind and text, depends only on what `skipBlanks` leaves. -/
theorem map_item_tokens_eq {cursor other : Cursor}
    (h : other.skipBlanks.rest = cursor.skipBlanks.rest) :
    other.tokens.map Token.item = cursor.tokens.map Token.item := by
  induction cursor using scan.induct generalizing other with
  | case1 cursor hnext =>
    have hother : other.next? = none := by rwa [next?_eq_none_iff, h, ← next?_eq_none_iff]
    rw [(scan_of_none hnext).1, (scan_of_none hother).1]
  | case2 cursor token after hnext _ _ _ _ ih =>
    obtain ⟨b, rest, hhere, hzero, rfl, rfl⟩ := next?_eq_some_iff.mp hnext
    have hother := next?_eq_some_iff.mpr ⟨b, rest, h.trans hhere, hzero, rfl, rfl⟩
    rw [(scan_of_some hnext).1, (scan_of_some hother).1, List.map_cons, List.map_cons]
    exact congrArg _ (ih rfl)

theorem map_item_tokens (cursor : Cursor) : cursor.tokens.map Token.item = items cursor.rest :=
  map_item_tokens_eq rfl

end Cursor

theorem items_nil : items [] = [] := by
  have hnext : (Cursor.start [] []).next? = none := rfl
  rw [items, (Cursor.scan_of_none hnext).1, List.map_nil]

/-- A `gap` in front of a text adds no `items`. -/
theorem items_gap {gap : Bytes} (hgap : IsGap gap) (text : Bytes) :
    items (gap ++ text) = items text := by
  apply Cursor.map_item_tokens_eq
  show (gap ++ text).dropWhile isBlank = text.dropWhile isBlank
  exact List.dropWhile_append_of_pos fun b hb => (isBlank_iff b).mpr (hgap b hb)

/-- A byte may start a token of the given kind. -/
inductive Starts : Kind → UInt8 → Prop
  /-- Names and reserved words start with letters. -/
  | letter {kind : Kind} {b : UInt8} (word : kind.isWordlike) (h : b ∈ letters) : Starts kind b
  /-- Numerals start with digits. -/
  | digit {b : UInt8} (h : b ∈ digits) : Starts .int b
  /-- Quoted texts start with quotes. -/
  | quote : Starts .string quoteMark
  /-- Signs start with their first bytes. -/
  | sign {kind : Kind} {b : UInt8} {more : Bytes} (h : (kind, b :: more) ∈ signTexts) :
      Starts kind b

theorem Written.exists_head {kind : Kind} {lexeme raw : Bytes} (h : Written kind lexeme raw) :
    ∃ b more, raw = b :: more ∧ Starts kind b := by
  have hnames : ∀ entry ∈ reserved, IsName entry.2 := by decide
  have hsigns : ∀ entry ∈ signTexts, entry.2 ≠ [] := by decide
  have hname {kind : Kind} {text : Bytes} (hword : kind.isWordlike) (h : IsName text) :
      ∃ b more, text = b :: more ∧ Starts kind b := by
    cases text with
    | nil => exact absurd h id
    | cons b more => exact ⟨b, more, rfl, .letter hword h.1⟩
  cases h with
  | word h => exact hname (Kind.isWordlike_of_mem_reserved h) (hnames _ h)
  | name h _ => exact hname (by decide) h
  | sign h =>
    obtain ⟨b, more, rfl⟩ := List.exists_cons_of_ne_nil (hsigns _ h)
    exact ⟨b, more, rfl, .sign h⟩
  | numeral h =>
    obtain ⟨b, more, rfl⟩ := List.exists_cons_of_ne_nil h.1
    exact ⟨b, more, rfl, .digit (h.2 b List.mem_cons_self)⟩
  | quoted h => exact ⟨_, _, rfl, .quote⟩

/-- No token `Starts` with a blank or NUL. -/
theorem Starts.not_mem {kind : Kind} {b : UInt8} (h : Starts kind b) : b ∉ 0 :: blanks := by
  have hletters : ∀ b ∈ letters, b ∉ 0 :: blanks := forall_mem_of_all (by decide)
  have hdigits : ∀ b ∈ digits, b ∉ 0 :: blanks := forall_mem_of_all (by decide)
  have hsigns : ∀ entry ∈ signTexts, entry.2.headD 0 ∉ 0 :: blanks := by decide
  cases h with
  | letter _ h => exact hletters b h
  | digit h => exact hdigits b h
  | quote => decide
  | sign h => exact hsigns _ h

/-- A token that is `Written` at the start of a text is the first of its `items`. -/
theorem items_written {kind : Kind} {lexeme raw after : Bytes} (h : Written kind lexeme raw)
    (hends : Ends kind after) : items (raw ++ after) = (kind, lexeme) :: items after := by
  obtain ⟨b, more, rfl, hstarts⟩ := h.exists_head
  have hb := hstarts.not_mem
  rw [List.mem_cons, not_or] at hb
  have hhead : ∀ c ∈ (b :: more ++ after).head?, c ∉ blanks := by
    intro c hc
    obtain rfl := Option.some.inj hc
    exact hb.2
  have hskip : (Cursor.start [] (b :: more ++ after)).skipBlanks = _ :=
    Cursor.skipBlanks_rest isGap_nil hhead rfl
  have hnext := Cursor.next?_eq_some_iff.mpr
    ⟨b, more ++ after, congrArg Cursor.rest hskip, hb.1, rfl, rfl⟩
  rw [items, (Cursor.scan_of_some hnext).1, List.map_cons, Cursor.map_item_tokens,
    Reading.read_of_written h hends]
  rfl

namespace Kind

/-- Whether a token of the kind `first` and one of the kind `second` remain apart when nothing
stands between them. -/
def mayTouch (first second : Kind) : Bool :=
  !(first.isWordlike && (second.isWordlike || second = int)) &&
  !(first = int && second = int) &&
  !((first = equal || first = bang) && (second = equal || second = equalEqual))

/-- The texts that a token of the given `kind` can have. -/
def Admits (kind : Kind) (lexeme : Bytes) : Prop :=
  (kind, lexeme) ∈ reserved ++ signTexts ∨
  kind = ident ∧ IsName lexeme ∧ lexeme ∉ reserved.map (·.2) ∨
  kind = int ∧ IsNumeral lexeme ∨
  kind = string ∧ 0 ∉ lexeme

end Kind

/-- The first byte of a token is not in the `continuation` of one that it `mayTouch`. -/
theorem Starts.not_mem_continuation {first second : Kind} {b : UInt8} (h : Starts second b)
    (htouch : first.mayTouch second) : b ∉ first.continuation := by
  have hletters : ∀ b ∈ letters, b ∉ digits ∧ b ∉ [ascii '='] := forall_mem_of_all (by decide)
  have hdigits : ∀ b ∈ digits, b ∉ [ascii '='] := forall_mem_of_all (by decide)
  have hsigns : ∀ entry ∈ signTexts, entry.2.headD 0 ∉ letters ++ digits ∧
      entry.2.headD 0 ∉ digits ∧
      (entry.1 ≠ .equal ∧ entry.1 ≠ .equalEqual → entry.2.headD 0 ∉ [ascii '=']) := by decide
  simp only [Kind.mayTouch, Bool.and_eq_true, Bool.not_eq_true', Bool.and_eq_false_imp,
    Bool.or_eq_false_iff, Bool.or_eq_true, decide_eq_true_eq, decide_eq_false_iff_not] at htouch
  obtain ⟨⟨hword, hnumeral⟩, hequal⟩ := htouch
  rw [Kind.continuation]
  repeat' split
  -- names and reserved words, numerals, and signs that an `=` could make longer; nothing continues
  -- any other kind
  · next hfirst =>
    obtain ⟨hnoword, hnonumeral⟩ := hword hfirst
    cases h with
    | letter hsecond _ => exact absurd hsecond (by simp [hnoword])
    | digit _ => exact absurd rfl hnonumeral
    | quote => decide
    | sign h => exact (hsigns _ h).1
  · next hfirst =>
    cases h with
    | letter _ h => exact (hletters b h).1
    | digit _ => exact absurd rfl (hnumeral hfirst)
    | quote => decide
    | sign h => exact (hsigns _ h).2.1
  · next hfirst =>
    cases h with
    | letter _ h => exact (hletters b h).2
    | digit h => exact hdigits b h
    | quote => decide
    | sign h => exact (hsigns _ h).2.2 (hequal (by simpa using hfirst))
  · exact List.not_mem_nil

/-- In front of a token that it `mayTouch`, a token `Ends`. -/
theorem Written.ends {first second : Kind} {lexeme raw : Bytes} (h : Written second lexeme raw)
    (htouch : first.mayTouch second) (after : Bytes) : Ends first (raw ++ after) := by
  obtain ⟨b, more, rfl, hstarts⟩ := h.exists_head
  intro c hc
  obtain rfl : b = c := Option.some.inj hc
  exact hstarts.not_mem_continuation htouch

/-- In front of a blank every token `Ends`. -/
theorem IsGap.ends {gap : Bytes} (hgap : IsGap gap) (hne : gap ≠ []) (kind : Kind)
    (after : Bytes) : Ends kind (gap ++ after) := by
  have hall : ∀ b ∈ blanks, b ∉ letters ++ digits ∧ b ∉ digits ∧ b ∉ [ascii '='] :=
    forall_mem_of_all (by decide)
  obtain ⟨b, more, rfl⟩ := List.exists_cons_of_ne_nil hne
  intro c hc
  obtain rfl : b = c := Option.some.inj hc
  obtain ⟨hword, hnumeral, hequal⟩ := hall b (hgap b List.mem_cons_self)
  rw [Kind.continuation]
  repeat' split
  · exact hword
  · exact hnumeral
  · exact hequal
  · exact List.not_mem_nil

/-- A `content` has a `Quoting` exactly if there is no NUL in it. -/
theorem Quoting.exists_iff {content : Bytes} : (∃ text, Quoting content text) ↔ 0 ∉ content := by
  constructor
  · rintro ⟨text, h⟩
    induction h with
    | nil => exact List.not_mem_nil
    | plain hb _ ih =>
      have hzero : (0 : UInt8) ≠ _ := fun hzero => hb (hzero ▸ List.mem_cons_self)
      simp [hzero, ih]
    | escaped hletter _ ih =>
      have hall : ∀ entry ∈ escapes, 0 ≠ entry.2 := forall_mem_of_all (by decide)
      have hzero := hall _ hletter
      simp [hzero, ih]
  · intro h
    induction content with
    | nil => exact ⟨[], .nil⟩
    | cons b content ih =>
      rw [List.mem_cons, not_or] at h
      obtain ⟨text, htext⟩ := ih h.2
      -- a quote and a backslash have to be escaped, and any other byte may stand for itself
      by_cases hb : b ∈ [quoteMark, backslash]
      · have hall : ∀ b ∈ [quoteMark, backslash], (b, b) ∈ escapes :=
          forall_mem_of_all (by decide)
        exact ⟨_, .escaped (hall b hb) htext⟩
      · exact ⟨_, .plain (fun hmem => (List.mem_cons.mp hmem).elim (Ne.symm h.1) hb) htext⟩

theorem Kind.admits_iff {kind : Kind} {lexeme : Bytes} :
    kind.Admits lexeme ↔ ∃ raw, Written kind lexeme raw := by
  constructor
  · rintro (h | ⟨rfl, h, hfree⟩ | ⟨rfl, h⟩ | ⟨rfl, h⟩)
    · rcases List.mem_append.mp h with h | h
      · exact ⟨_, .word h⟩
      · exact ⟨_, .sign h⟩
    · exact ⟨_, .name h hfree⟩
    · exact ⟨_, .numeral h⟩
    · obtain ⟨text, htext⟩ := Quoting.exists_iff.mpr h
      exact ⟨_, .quoted htext⟩
  · rintro ⟨raw, h⟩
    cases h with
    | word h => exact .inl (List.mem_append_left _ h)
    | sign h => exact .inl (List.mem_append_right _ h)
    | name h hfree => exact .inr (.inl ⟨rfl, h, hfree⟩)
    | numeral h => exact .inr (.inr (.inl ⟨rfl, h⟩))
    | quoted h => exact .inr (.inr (.inr ⟨rfl, Quoting.exists_iff.mp ⟨_, h⟩⟩))

namespace Stretch

/-- The bytes `raw` spell the token, and blanks follow. -/
def IsWritten (stretch : Stretch) : Prop :=
  Written stretch.token.kind stretch.token.lexeme stretch.raw ∧ IsGap stretch.gap

/-- The stretch `second` can stand behind `first`: there are blanks between the two, or the tokens
remain apart without (`mayTouch`). -/
def CanPrecede (first second : Stretch) : Prop :=
  first.gap = [] → first.token.kind.mayTouch second.token.kind

instance : DecidableRel CanPrecede := fun _ _ => instDecidableForall

/-- In a row of written stretches no token is continued by what is behind it: each one `Ends`. -/
theorem ends_of_isChain {stretch : Stretch} {more : List Stretch} (hgap : IsGap stretch.gap)
    (hmore : ∀ other ∈ more, other.IsWritten) (hchain : (stretch :: more).IsChain CanPrecede) :
    Ends stretch.token.kind (stretch.gap ++ textOf more) := by
  by_cases hempty : stretch.gap = []
  · cases more with
    | nil =>
      intro b hb
      simp [hempty] at hb
    | cons next more =>
      have htouch := (List.isChain_cons_cons.mp hchain).1 hempty
      rw [hempty, List.nil_append, textOf_cons, List.append_assoc]
      exact (hmore next List.mem_cons_self).1.ends htouch _
  · exact hgap.ends hempty _ _

theorem items_textOf {stretches : List Stretch} (h : ∀ stretch ∈ stretches, stretch.IsWritten)
    (hchain : stretches.IsChain CanPrecede) :
    items (textOf stretches) = stretches.map fun stretch => stretch.token.item := by
  induction stretches with
  | nil => exact items_nil
  | cons stretch more ih =>
    obtain ⟨⟨hwritten, hgap⟩, hmore⟩ := List.forall_mem_cons.mp h
    have hends := ends_of_isChain hgap hmore hchain
    rw [textOf_cons, List.append_assoc, items_written hwritten hends, items_gap hgap,
      ih hmore hchain.tail]
    rfl

end Stretch

/-- **What is written is found.**  Whatever tokens are written in a row, each one with a text that
its kind admits, with blanks behind them where the next token would not remain apart: scanning finds
these tokens, and then the end. -/
theorem Cursor.allTokens_written (file : Bytes) :
    (∀ kind lexeme, kind.Admits lexeme ↔ ∃ raw, Written kind lexeme raw) ∧
    ∀ lead stretches, IsGap lead → (∀ stretch ∈ stretches, stretch.IsWritten) →
      stretches.IsChain CanPrecede →
      (start file (lead ++ textOf stretches)).allTokens.map Token.item =
        (stretches.map fun stretch => stretch.token.item) ++ [(.eof, [])] := by
  refine ⟨fun kind lexeme => Kind.admits_iff, fun lead stretches hlead hwritten hchain => ?_⟩
  rw [allTokens, List.map_append, map_item_tokens, start, items_gap hlead,
    Stretch.items_textOf hwritten hchain]
  rfl

/-- The text `let a!="\n"` is found to be what it was written from. -/
theorem Cursor.allTokens_written_touching :
    let stretches : List Stretch :=
      [⟨⟨.letWord, utf8 "let", default⟩, utf8 "let", utf8 " "⟩,
        ⟨⟨.ident, utf8 "a", default⟩, utf8 "a", []⟩,
        ⟨⟨.bangEqual, utf8 "!=", default⟩, utf8 "!=", []⟩,
        ⟨⟨.string, utf8 "\n", default⟩, utf8 "\"\\n\"", []⟩]
    IsGap [] ∧ (∀ stretch ∈ stretches, stretch.IsWritten) ∧ stretches.IsChain CanPrecede ∧
      (start [] (utf8 "let a!=\"\\n\"")).allTokens.map Token.item =
        [(.letWord, utf8 "let"), (.ident, utf8 "a"), (.bangEqual, utf8 "!="),
          (.string, utf8 "\n"), (.eof, [])] := by
  intro stretches
  have hwritten : ∀ stretch ∈ stretches, stretch.IsWritten := by
    simp only [stretches, List.forall_mem_cons]
    refine ⟨⟨.word (by decide), by decide⟩, ⟨.name (by decide) (by decide), by decide⟩,
      ⟨.sign (by decide), by decide⟩, ⟨?_, by decide⟩, fun _ h => absurd h List.not_mem_nil⟩
    exact .quoted (.escaped (by decide) .nil)
  have hchain : stretches.IsChain CanPrecede := by decide
  exact ⟨by decide, hwritten, hchain,
    (allTokens_written []).2 [] stretches (by decide) hwritten hchain⟩

end TreeWalk
