import TreeWalk.Proofs.FrontEnds
import TreeWalk.Proofs.Locality
import TreeWalk.Proofs.ParserComplete
import TreeWalk.Proofs.SourceOrder

/-!
# NUL bytes

A NUL byte is meant to end the input just as its end does.  Blanks, names, numerals, signs and the
plain bytes of quoted texts all stop in front of it.  An escape does not: a backslash takes the byte
behind it whatever that is, so a NUL byte that stands where the letter of an escape is due is taken,
and scanning goes on behind it.

Whether a NUL byte is in such a place is seen from the quotes and backslashes in front of it.  If it
is not, nothing behind it matters.  If it is, the tokens behind it are found and read; but the
quoted text in front of it is illegal, so that the program is not run.

## Main definitions

* `Quotation`, `Quotation.passOver` — what quotes and backslashes have opened.
* `MeetsNul` — what becomes of a NUL byte that is put behind a text.
* `Legal` — tokens of which none is illegal.

## Main results

* `Reading.read_before_nul` — **what one token makes of a NUL byte.**
* `Cursor.next?_before_nul`, `Cursor.scan_before_nul` — what one step of scanning makes of it, and
  what all steps do.
* `Grammar.Phrase.legal` — no derivation holds an illegal token.
* `Cursor.nul_ends_input` — a NUL byte ends the input, unless it stands in an escape.
* `Cursor.nul_passed_in_escape` — a NUL byte that does not end the input.
-/

namespace TreeWalk

open Spelling

/-! ### Quotes and backslashes -/

/-- What quotes and backslashes have opened. -/
inductive Quotation
  /-- Nothing is open. -/
  | outside
  /-- A quoted text is open. -/
  | inside
  /-- A quoted text is open, and an escape in it. -/
  | escaping
  deriving DecidableEq, Repr

namespace Quotation

/-- What is open behind the byte `b`.  A byte that is the letter of no escape ends the quoted
text. -/
def pass : Quotation → UInt8 → Quotation
  | outside, b => if b = quoteMark then inside else outside
  | inside, b => if b = quoteMark then outside else if b = backslash then escaping else inside
  | escaping, b => if b ∈ escapes.map (·.1) then inside else outside

/-- What is open behind `text`, byte by byte. -/
def passOver (quotation : Quotation) (text : Bytes) : Quotation := text.foldl pass quotation

@[simp] theorem passOver_nil (quotation : Quotation) : quotation.passOver [] = quotation := rfl

@[simp] theorem passOver_cons (quotation : Quotation) (b : UInt8) (text : Bytes) :
    quotation.passOver (b :: text) = (quotation.pass b).passOver text := rfl

theorem passOver_append (quotation : Quotation) (first second : Bytes) :
    quotation.passOver (first ++ second) = (quotation.passOver first).passOver second := by
  simp [passOver]

theorem pass_quoteMark : inside.pass quoteMark = outside := by decide

theorem pass_backslash : inside.pass backslash = escaping := by decide

theorem pass_inside {b : UInt8} (hquote : b ≠ quoteMark) (hback : b ≠ backslash) :
    inside.pass b = inside := by
  rw [pass, if_neg hquote, if_neg hback]

/-- Behind the letter of an escape, which `escape?` knows, the quoted text goes on; behind any other
byte it is over. -/
theorem pass_escaping (b : UInt8) :
    escaping.pass b = if (escape? b).isSome then inside else outside := by
  have hletter : b ∈ escapes.map (·.1) ↔ (escape? b).isSome := by
    rw [List.mem_map, Option.isSome_iff_exists]
    constructor
    · rintro ⟨⟨letter, meant⟩, hmem, rfl⟩
      exact ⟨meant, escape?_eq_some_iff.2 hmem⟩
    · rintro ⟨meant, hescape⟩
      exact ⟨(b, meant), escape?_eq_some_iff.1 hescape, rfl⟩
  rw [pass]
  exact if_congr hletter rfl rfl

/-- A `text` without a quote opens nothing. -/
theorem passOver_outside {text : Bytes} (h : quoteMark ∉ text) :
    outside.passOver text = outside := by
  induction text with
  | nil => rfl
  | cons b text ih =>
    rw [List.mem_cons, not_or] at h
    rw [passOver_cons, pass, if_neg (Ne.symm h.1)]
    exact ih h.2

end Quotation

open Quotation

/-! ### One token in front of a NUL byte -/

/-- A run of bytes of which `p` holds ends in front of a byte `stop` of which it does not, whatever
comes behind it. -/
theorem takeWhile_dropWhile_stop {p : UInt8 → Bool} {stop : UInt8} (hstop : p stop = false)
    (text more : Bytes) : (text ++ stop :: more).takeWhile p = text.takeWhile p ∧
      (text ++ stop :: more).dropWhile p = text.dropWhile p ++ stop :: more := by
  induction text with
  | nil => simp [hstop]
  | cons b text ih =>
    by_cases hb : p b
    · simp [hb, ih]
    · simp [hb]

/-- How something that was read from a text meets a NUL byte that is put behind the text: it took
`raw` and left `rest`, and now takes and leaves what is given last.  It leaves the byte where it is,
or takes it for the letter of an escape. -/
inductive MeetsNul (opened : Quotation) (more : Bytes) : Bytes → Bytes → Bytes → Bytes → Prop
  /-- The byte is left. -/
  | left {raw rest : Bytes} (open_ne : opened.passOver raw ≠ .escaping)
      (closed : rest ≠ [] → opened.passOver raw = .outside) :
      MeetsNul opened more raw rest raw (rest ++ 0 :: more)
  /-- The byte is taken. -/
  | taken {raw : Bytes} (open_eq : opened.passOver raw = .escaping) :
      MeetsNul opened more raw [] (raw ++ [0]) more

namespace MeetsNul

variable {opened before : Quotation} {more first raw rest raw' rest' : Bytes}

/-- Where nothing is open behind `raw`, the byte is left. -/
theorem of_closed (h : opened.passOver raw = .outside) (more rest : Bytes) :
    MeetsNul opened more raw rest raw (rest ++ 0 :: more) :=
  .left (by rw [h]; exact Quotation.noConfusion) fun _ => h

/-- The same if more bytes are taken in front, behind which `opened` is open. -/
theorem cons (h : MeetsNul opened more raw rest raw' rest')
    (hfirst : before.passOver first = opened) :
    MeetsNul before more (first ++ raw) rest (first ++ raw') rest' := by
  have hraw : before.passOver (first ++ raw) = opened.passOver raw := by
    rw [passOver_append, hfirst]
  cases h with
  | left hopen hclosed => exact .left (hraw ▸ hopen) (hraw ▸ hclosed)
  | taken hopen =>
    rw [← List.append_assoc]
    exact .taken (hraw ▸ hopen)

/-- Where an escape is open behind `raw`, nothing is left of the text, and the byte is taken. -/
theorem of_escaping (h : MeetsNul opened more raw rest raw' rest')
    (hopen : opened.passOver raw = .escaping) : rest = [] ∧ raw' = raw ++ [0] ∧ rest' = more := by
  cases h with
  | left hclosed _ => exact absurd hopen hclosed
  | taken _ => exact ⟨rfl, rfl, rfl⟩

/-- Where no escape is open behind `raw`, the byte is left. -/
theorem of_not_escaping (h : MeetsNul opened more raw rest raw' rest')
    (hopen : opened.passOver raw ≠ .escaping) : raw' = raw ∧ rest' = rest ++ 0 :: more ∧
      (rest ≠ [] → opened.passOver raw = .outside) := by
  cases h with
  | left _ hclosed => exact ⟨rfl, rfl, hclosed⟩
  | taken hescaping => exact absurd hescaping hopen

end MeetsNul

/-- What `Quoted.read` finds in a text and how the quoted text ends does not depend on a NUL byte
behind it; if the byte is taken, the quoted text ends with a bad escape. -/
theorem Quoted.read_before_nul {text : Bytes} (h : 0 ∉ text) (more : Bytes) :
    let quoted := Quoted.read text
    let quoted' := Quoted.read (text ++ 0 :: more)
    quoted'.content = quoted.content ∧ quoted'.ending = quoted.ending ∧
      MeetsNul .inside more quoted.raw quoted.rest quoted'.raw quoted'.rest ∧
      (inside.passOver quoted.raw = .escaping → quoted.ending = .badEscape 0) := by
  fun_induction Quoted.read text with
  | case1 =>
    -- the text ends inside the quotes, where the byte is left
    have hread : Quoted.read (0 :: more) = ⟨[], .unclosed, [], 0 :: more⟩ := by
      rw [Quoted.read.eq_def]
      exact if_pos rfl
    rw [List.nil_append, hread]
    exact ⟨rfl, rfl, .left (by decide) (absurd rfl), fun hopen => absurd hopen (by decide)⟩
  | case2 rest => exact absurd List.mem_cons_self h
  | case3 rest hzero =>
    -- a quote closes the text, and the byte is behind it
    have hread : Quoted.read (ascii '"' :: (rest ++ 0 :: more)) =
        ⟨[], .closed, [ascii '"'], rest ++ 0 :: more⟩ := by
      rw [Quoted.read.eq_def]
      exact (if_neg hzero).trans (if_pos rfl)
    have hclosed : inside.passOver [ascii '"'] = .outside := pass_quoteMark
    rw [List.cons_append, hread]
    refine ⟨rfl, rfl, .of_closed hclosed more rest, fun hopen => ?_⟩
    cases hclosed.symm.trans hopen
  | case4 hzero hquote =>
    -- the text ends behind a backslash, and the byte is taken for the letter of the escape
    have hescape : escape? 0 = none := by decide
    have hread : Quoted.read (ascii '\\' :: 0 :: more) =
        ⟨[], .badEscape 0, [ascii '\\', 0], more⟩ := by
      simp [Quoted.read, hescape, hzero, hquote]
    rw [List.singleton_append, hread]
    exact ⟨rfl, rfl, .taken pass_backslash, fun _ => rfl⟩
  | case5 e rest content hescape hzero hquote ih =>
    -- a whole escape, behind which the quoted text goes on
    have hread : Quoted.read (ascii '\\' :: e :: (rest ++ 0 :: more)) =
        (Quoted.read (rest ++ 0 :: more)).push content [ascii '\\', e] := by
      simp [Quoted.read, hescape, hzero, hquote]
    have hinside : inside.passOver [ascii '\\', e] = .inside := by
      have hletter : escaping.pass e = inside := by rw [pass_escaping, hescape]; rfl
      exact (congrArg (pass · e) pass_backslash).trans hletter
    have hrest : 0 ∉ rest := fun hmem => h (List.mem_cons_of_mem _ (List.mem_cons_of_mem _ hmem))
    obtain ⟨hcontent, hending, hmeets, hbad⟩ := ih hrest
    rw [List.cons_append, List.cons_append, hread]
    refine ⟨congrArg (content :: ·) hcontent, hending, hmeets.cons hinside, fun hopen => hbad ?_⟩
    rwa [push, passOver_append, hinside] at hopen
  | case6 e rest hescape hzero hquote =>
    -- a bad escape ends the quoted text in front of the byte
    have hread : Quoted.read (ascii '\\' :: e :: (rest ++ 0 :: more)) =
        ⟨[], .badEscape e, [ascii '\\', e], rest ++ 0 :: more⟩ := by
      simp [Quoted.read, hescape, hzero, hquote]
    have hclosed : inside.passOver [ascii '\\', e] = .outside := by
      have hletter : escaping.pass e = outside := by rw [pass_escaping, hescape]; rfl
      exact (congrArg (pass · e) pass_backslash).trans hletter
    rw [List.cons_append, List.cons_append, hread]
    refine ⟨rfl, rfl, .of_closed hclosed more rest, fun hopen => ?_⟩
    cases hclosed.symm.trans hopen
  | case7 b rest hzero hquote hback ih =>
    have hread : Quoted.read (b :: (rest ++ 0 :: more)) =
        (Quoted.read (rest ++ 0 :: more)).push b [b] := by
      rw [Quoted.read.eq_def]
      simp only [if_neg hzero, if_neg hquote, if_neg hback]
    have hinside : inside.passOver [b] = .inside := pass_inside hquote hback
    obtain ⟨hcontent, hending, hmeets, hbad⟩ := ih fun hmem => h (List.mem_cons_of_mem _ hmem)
    rw [List.cons_append, hread]
    refine ⟨congrArg (b :: ·) hcontent, hending, hmeets.cons hinside, fun hopen => hbad ?_⟩
    rwa [push, passOver_append, hinside] at hopen

namespace Reading

/-- What is read with a NUL byte behind the text, `reading'`, is the token of `reading`; if the byte
is taken, it is illegal. -/
structure SameBeforeNul (more : Bytes) (reading reading' : Reading) : Prop where
  /-- The same kind. -/
  kind : reading'.kind = reading.kind
  /-- The same text. -/
  lexeme : reading'.lexeme = reading.lexeme
  /-- What becomes of the byte. -/
  meets : MeetsNul .outside more reading.raw reading.rest reading'.raw reading'.rest
  /-- A token that takes the byte is illegal. -/
  illegal : outside.passOver reading.raw = .escaping → reading.kind = .illegal

/-- A token without quotes leaves the byte, as `SameBeforeNul` has it. -/
theorem sameBeforeNul_plain (kind : Kind) {raw : Bytes} (hraw : quoteMark ∉ raw)
    (rest more : Bytes) :
    SameBeforeNul more (plain kind raw rest) (plain kind raw (rest ++ 0 :: more)) where
  kind := rfl
  lexeme := rfl
  meets := .of_closed (passOver_outside hraw) more rest
  illegal hopen := by cases (passOver_outside hraw).symm.trans hopen

theorem sameBeforeNul_beforeEqual (short long : Kind) {b : UInt8} (hb : b ≠ quoteMark)
    (rest more : Bytes) :
    SameBeforeNul more (beforeEqual short long b rest)
      (beforeEqual short long b (rest ++ 0 :: more)) := by
  have hone : quoteMark ∉ [b] := by simpa using Ne.symm hb
  cases rest with
  | nil => exact sameBeforeNul_plain short hone [] more
  | cons e rest =>
    rw [List.cons_append, beforeEqual, beforeEqual]
    by_cases he : e = ascii '='
    · have htwo : quoteMark ∉ [b, e] := by
        rw [he, List.mem_cons, not_or]
        exact ⟨Ne.symm hb, by decide⟩
      rw [if_pos he, if_pos he]
      exact sameBeforeNul_plain long htwo rest more
    · rw [if_neg he, if_neg he]
      exact sameBeforeNul_plain short hone (e :: rest) more

theorem sameBeforeNul_ofQuoted {rest : Bytes} (h : 0 ∉ rest) (more : Bytes) :
    SameBeforeNul more (ofQuoted quoteMark (Quoted.read rest))
      (ofQuoted quoteMark (Quoted.read (rest ++ 0 :: more))) := by
  obtain ⟨hcontent, hending, hmeets, hbad⟩ := Quoted.read_before_nul h more
  have hopen : outside.passOver [quoteMark] = .inside := by decide
  have htaken := hmeets.cons hopen
  generalize Quoted.read (rest ++ 0 :: more) = quoted' at *
  generalize Quoted.read rest = quoted at *
  obtain ⟨content, ending, raw, left⟩ := quoted
  obtain ⟨content', ending', raw', left'⟩ := quoted'
  obtain rfl : content' = content := hcontent
  obtain rfl : ending' = ending := hending
  cases ending' with
  | closed =>
    refine ⟨rfl, rfl, htaken, fun hescaping => ?_⟩
    cases hbad hescaping
  | unclosed => exact ⟨rfl, rfl, htaken, fun _ => rfl⟩
  | badEscape letter => exact ⟨rfl, rfl, htaken, fun _ => rfl⟩

/-- `SameBeforeNul` for a run of bytes of one sort, to which neither NUL nor the quote belongs. -/
theorem sameBeforeNul_run {p : UInt8 → Bool} (hzero : p 0 = false) (hmark : p quoteMark = false)
    (kindOf : Bytes → Kind) {b : UInt8} (hb : b ≠ quoteMark) (rest more : Bytes) :
    let run (text : Bytes) := b :: text.takeWhile p
    SameBeforeNul more (plain (kindOf (run rest)) (run rest) (rest.dropWhile p))
      (plain (kindOf (run (rest ++ 0 :: more))) (run (rest ++ 0 :: more))
        ((rest ++ 0 :: more).dropWhile p)) := by
  intro run
  obtain ⟨htake, hdrop⟩ := takeWhile_dropWhile_stop hzero rest more
  have hrun : quoteMark ∉ run rest := by
    rw [List.mem_cons, not_or]
    refine ⟨Ne.symm hb, fun hmem => ?_⟩
    have hp : p quoteMark := List.all_eq_true.mp List.all_takeWhile quoteMark hmem
    exact Bool.noConfusion (hp.symm.trans hmark)
  have hsame : run (rest ++ 0 :: more) = run rest := congrArg (b :: ·) htake
  rw [hsame, hdrop]
  exact sameBeforeNul_plain _ hrun _ more

/-- **What one token makes of a NUL byte**: `read` finds the same token, and the byte is left unless
an escape is open. -/
theorem read_before_nul (b : UInt8) {rest : Bytes} (h : 0 ∉ rest) (more : Bytes) :
    SameBeforeNul more (read b rest) (read b (rest ++ 0 :: more)) := by
  by_cases hquote : b = ascii '"'
  · subst hquote
    exact sameBeforeNul_ofQuoted h more
  have hone : quoteMark ∉ [b] := fun hmem => hquote (List.mem_singleton.1 hmem).symm
  unfold read
  split
  · next kind hsign => exact sameBeforeNul_plain kind hone rest more
  rw [if_neg hquote, if_neg hquote]
  by_cases hbang : b = ascii '!'
  · rw [if_pos hbang, if_pos hbang]
    exact sameBeforeNul_beforeEqual _ _ hquote rest more
  rw [if_neg hbang, if_neg hbang]
  by_cases hequal : b = ascii '='
  · rw [if_pos hequal, if_pos hequal]
    exact sameBeforeNul_beforeEqual _ _ hquote rest more
  rw [if_neg hequal, if_neg hequal]
  by_cases hletter : isLetter b
  · rw [if_pos hletter, if_pos hletter]
    exact sameBeforeNul_run (by decide) (by decide)
      (fun word => (Kind.keyword? word).getD .ident) hquote rest more
  rw [if_neg hletter, if_neg hletter]
  by_cases hdigit : isDigit b
  · rw [if_pos hdigit, if_pos hdigit]
    exact sameBeforeNul_run (by decide) (by decide) (fun _ => .int) hquote rest more
  · rw [if_neg hdigit, if_neg hdigit]
    exact sameBeforeNul_plain .illegal hone rest more

end Reading

/-! ### All tokens in front of a NUL byte -/

namespace Cursor

variable {cursor after : Cursor} {token : Token}

/-- `skipBlanks` stops in front of a NUL byte behind the text. -/
theorem skipBlanks_before_nul (cursor : Cursor) (more : Bytes) :
    (cursor.followedBy (0 :: more)).skipBlanks = cursor.skipBlanks.followedBy (0 :: more) := by
  have hblank : isBlank 0 = false := by decide
  obtain ⟨htake, hdrop⟩ := takeWhile_dropWhile_stop hblank cursor.rest more
  simp only [followedBy, skipBlanks, htake, hdrop]

/-- `skipBlanks` passes no quote, so what is open behind the text of `cursor` is what is open behind
that of `cursor.skipBlanks`. -/
theorem passOver_skipBlanks (cursor : Cursor) :
    outside.passOver cursor.rest = outside.passOver cursor.skipBlanks.rest := by
  obtain ⟨gap, hgap, hrest, -⟩ := cursor.exists_gap
  have hmark : quoteMark ∉ gap := fun hmem => absurd (hgap _ hmem) (by decide)
  rw [hrest, passOver_append, passOver_outside hmark]

theorem skipBlanks_rest_of_next? (hzero : 0 ∉ cursor.rest) (h : cursor.next? = none) :
    cursor.skipBlanks.rest = [] := by
  rcases next?_eq_none_iff.1 h with hnil | ⟨more, hnul⟩
  · exact hnil
  · obtain ⟨gap, -, hrest, -⟩ := cursor.exists_gap
    rw [hrest, hnul] at hzero
    exact absurd (List.mem_append_right gap List.mem_cons_self) hzero

theorem rest_of_next? (h : cursor.next? = some (token, after)) :
    ∃ front, cursor.rest = front ++ after.rest := by
  obtain ⟨gap, -, hrest, -⟩ := cursor.exists_gap
  obtain ⟨b, rest, hskip, -, -, rfl⟩ := next?_eq_some_iff.1 h
  refine ⟨gap ++ (Reading.read b rest).raw, ?_⟩
  rw [List.append_assoc, Reading.read_raw_append_rest, hrest, hskip]

/-- **What one step of scanning makes of a NUL byte behind the text.**  The token is the same.  The
byte is left, and whether an escape is open is seen from what is left of the text; or an escape is
open, and the byte is taken by an illegal token. -/
theorem next?_before_nul (hzero : 0 ∉ cursor.rest) (hnext : cursor.next? = some (token, after)) :
    (∀ more, (cursor.followedBy (0 :: more)).next? = some (token, after.followedBy (0 :: more))) ∧
        (outside.passOver cursor.rest = .escaping ↔ outside.passOver after.rest = .escaping) ∨
      (∀ more, (cursor.followedBy (0 :: more)).next? =
        some (token, (cursor.followedBy [0]).behind more)) ∧
        outside.passOver cursor.rest = .escaping ∧ after.rest = [] ∧ token.kind = .illegal := by
  obtain ⟨b, rest, hskip, hb, rfl, rfl⟩ := next?_eq_some_iff.1 hnext
  have hrest : 0 ∉ rest := by
    obtain ⟨gap, -, hgap, -⟩ := cursor.exists_gap
    rw [hgap, hskip] at hzero
    exact fun hmem => hzero (List.mem_append_right _ (List.mem_cons_of_mem b hmem))
  have hsame (more : Bytes) := Reading.read_before_nul b hrest more
  have hstep (more : Bytes) : (cursor.followedBy (0 :: more)).next? = some
      (⟨(Reading.read b rest).kind, (Reading.read b rest).lexeme, cursor.skipBlanks.pos⟩,
        ⟨(Reading.read b (rest ++ 0 :: more)).rest,
          cursor.skipBlanks.pos.advanceOver (Reading.read b (rest ++ 0 :: more)).raw⟩) := by
    have hskip' := cursor.skipBlanks_before_nul more
    refine next?_eq_some_iff.2 ⟨b, rest ++ 0 :: more, ?_, hb, ?_, ?_⟩
    · rw [hskip', followedBy, hskip]
      rfl
    · rw [hskip', (hsame more).kind, (hsame more).lexeme]
      rfl
    · rw [hskip']
      rfl
  -- what is open behind the text is open behind the token and what is left of the text
  have hopened : outside.passOver cursor.rest =
      (outside.passOver (Reading.read b rest).raw).passOver (Reading.read b rest).rest := by
    rw [passOver_skipBlanks, hskip, ← passOver_append, Reading.read_raw_append_rest]
  by_cases hopen : outside.passOver (Reading.read b rest).raw = .escaping
  · -- the token ends in an open escape: it is the last one, and takes the byte
    right
    have hleft : (Reading.read b rest).rest = [] := ((hsame []).meets.of_escaping hopen).1
    refine ⟨fun more => ?_, ?_, hleft, (hsame []).illegal hopen⟩
    · obtain ⟨-, hraw, hmore⟩ := (hsame more).meets.of_escaping hopen
      obtain ⟨-, hraw', hmore'⟩ := (hsame []).meets.of_escaping hopen
      rw [← behind_of_next? (hstep []) more, hstep more, hraw, hmore, hraw', hmore']
      rfl
    · rw [hopened, hleft, hopen]
      rfl
  · left
    refine ⟨fun more => ?_, ?_⟩
    · obtain ⟨hraw, hmore, -⟩ := (hsame more).meets.of_not_escaping hopen
      rw [hstep more, hraw, hmore]
      rfl
    · obtain ⟨-, -, hclosed⟩ := (hsame []).meets.of_not_escaping hopen
      rw [hopened]
      by_cases hleft : (Reading.read b rest).rest = []
      · -- nothing is left, and no escape is open on either side
        rw [hleft]
        exact iff_of_false hopen Quotation.noConfusion
      · rw [hclosed hleft]

/-- **The tokens of a text with a NUL byte behind it.**  If no escape is open where the text ends,
they are those of the text, and scanning ends in front of the byte; otherwise one of them is
illegal, and scanning goes on behind the byte. -/
theorem scan_before_nul (cursor : Cursor) (hzero : 0 ∉ cursor.rest) (more : Bytes) :
    (outside.passOver cursor.rest ≠ .escaping →
      (cursor.followedBy (0 :: more)).tokens = cursor.tokens ∧
      (cursor.followedBy (0 :: more)).finish = cursor.finish.followedBy (0 :: more)) ∧
    (outside.passOver cursor.rest = .escaping →
      (cursor.followedBy (0 :: more)).tokens =
        cursor.tokens ++ ((cursor.followedBy [0]).behind more).tokens ∧
      (cursor.followedBy (0 :: more)).finish = ((cursor.followedBy [0]).behind more).finish ∧
      ∃ token ∈ cursor.tokens, token.kind = .illegal) := by
  induction cursor using scan.induct with
  | case1 cursor hnext =>
    -- only blanks are left, and the byte ends them
    have hskip : cursor.skipBlanks.rest = [] := skipBlanks_rest_of_next? hzero hnext
    have hclosed : outside.passOver cursor.rest = .outside := by
      rw [passOver_skipBlanks, hskip, passOver_nil]
    have hskip' := cursor.skipBlanks_before_nul more
    have hnext' : (cursor.followedBy (0 :: more)).next? = none := by
      rw [next?_eq_none_iff, hskip', followedBy, hskip]
      exact .inr ⟨more, rfl⟩
    obtain ⟨htokens, hfinish⟩ := scan_of_none hnext
    obtain ⟨htokens', hfinish'⟩ := scan_of_none hnext'
    refine ⟨fun _ => ⟨htokens'.trans htokens.symm, ?_⟩, fun hopen => ?_⟩
    · rw [hfinish', hfinish, hskip']
    · cases hclosed.symm.trans hopen
  | case2 cursor token after hnext _ _ _ _ ih =>
    obtain ⟨htokens, hfinish⟩ := scan_of_some hnext
    have hzero' : 0 ∉ after.rest := by
      obtain ⟨front, hfront⟩ := rest_of_next? hnext
      exact fun hmem => hzero (hfront ▸ List.mem_append_right front hmem)
    rcases next?_before_nul hzero hnext with ⟨hstep, hopen⟩ | ⟨hstep, hopen, hleft, hkind⟩
    · -- the token leaves the byte, so what is open is seen from what is left of the text
      obtain ⟨htokens', hfinish'⟩ := scan_of_some (hstep more)
      obtain ⟨hleave, htake⟩ := ih hzero'
      rw [htokens', hfinish', htokens, hfinish]
      refine ⟨fun hne => ?_, fun heq => ?_⟩
      · obtain ⟨ihtokens, ihfinish⟩ := hleave (mt hopen.2 hne)
        exact ⟨congrArg (token :: ·) ihtokens, ihfinish⟩
      · obtain ⟨ihtokens, ihfinish, other, hmem, hkind⟩ := htake (hopen.1 heq)
        rw [behind_of_next? (hstep []) more] at ihtokens ihfinish
        exact ⟨congrArg (token :: ·) ihtokens, ihfinish, other, List.mem_cons_of_mem _ hmem, hkind⟩
    · -- the token takes the byte, and scanning goes on behind it
      obtain ⟨htokens', hfinish'⟩ := scan_of_some (hstep more)
      have hlast : after.tokens = [] := by
        have hnone : after.next? = none := by
          rw [next?_eq_none_iff, skipBlanks, hleft]
          exact .inl rfl
        exact (scan_of_none hnone).1
      refine ⟨absurd hopen, fun _ => ?_⟩
      rw [htokens', hfinish', htokens, hlast]
      exact ⟨rfl, rfl, token, List.mem_singleton_self token, hkind⟩

/-- A text without a NUL byte is read to its end, where `finish` is. -/
theorem finish_of_notMem (hzero : 0 ∉ cursor.rest) :
    cursor.finish = ⟨[], cursor.pos.advanceOver cursor.rest⟩ := by
  obtain ⟨lead, stretches, -, hrest, -, hpos, -⟩ := cursor.exists_stretches
  have hend : cursor.finish.rest = [] := by
    rcases cursor.finish_atEnd.1 with hnil | ⟨more, hnul⟩
    · exact hnil
    · rw [hrest, hnul] at hzero
      exact absurd (List.mem_append_right _ List.mem_cons_self) hzero
  rw [hend, List.append_nil] at hrest
  calc cursor.finish = ⟨cursor.finish.rest, cursor.finish.pos⟩ := rfl
    _ = ⟨[], cursor.pos.advanceOver cursor.rest⟩ := by rw [hend, hpos, hrest]

end Cursor

/-! ### Illegal tokens -/

/-- None of `tokens` is illegal. -/
def Legal (tokens : List Token) : Prop := ∀ token ∈ tokens, token.kind ≠ .illegal

theorem legal_nil : Legal [] := List.forall_mem_nil _

theorem Legal.append {first second : List Token} (hfirst : Legal first) (hsecond : Legal second) :
    Legal (first ++ second) := List.forall_mem_append.2 ⟨hfirst, hsecond⟩

open Grammar

theorem Grammar.Terminal.legal_cons {kinds : List Kind} (token : Terminal kinds)
    {tokens : List Token} (htokens : Legal tokens) (h : .illegal ∉ kinds) :
    Legal (token.1 :: tokens) :=
  List.forall_mem_cons.2 ⟨fun heq => h (heq ▸ token.2), htokens⟩

theorem Grammar.Params.legal (params : Params) : Legal params.tokens := by
  cases params with
  | none => exact legal_nil
  | some first more =>
    refine first.legal_cons (fun token htoken => ?_) (by decide)
    obtain ⟨⟨comma, name⟩, -, hmem⟩ := List.mem_flatMap.1 htoken
    exact comma.legal_cons (name.legal_cons legal_nil (by decide)) (by decide) token hmem

/-- **No derivation holds an illegal token**: by induction on `d`, all terminals of the grammar are
of other kinds. -/
theorem Grammar.Phrase.legal {s : Symbol} (d : Phrase s) : Legal d.tokens := by
  -- each production is made of tokens of its own and of other derivations
  induction d with
  | done | noElse | chainEnd | noCall | noArgs | lastArg => exact legal_nil
  | next head tail ihhead ihtail => exact ihhead.append ihtail
  | stmt clause stop ih =>
    refine ih.append ?_
    cases stop with
    | none => exact legal_nil
    | some stop => exact stop.legal_cons legal_nil (by decide)
  | letClause word name sign value ih =>
    exact word.legal_cons (name.legal_cons (sign.legal_cons ih (by decide)) (by decide)) (by decide)
  | returnClause word value ih => exact word.legal_cons ih (by decide)
  | exprClause value ih => exact ih
  | block opening body closing ih =>
    exact opening.legal_cons (ih.append (closing.legal_cons legal_nil (by decide))) (by decide)
  | elseBlock word body ih => exact word.legal_cons ih (by decide)
  | binary _ first more ihfirst ihmore => exact ihfirst.append ihmore
  | @chainNext level op right more ihright ihmore =>
    exact op.legal_cons (ihright.append ihmore) (by cases level <;> decide)
  | prefixed op right ih => exact op.legal_cons ih (by decide)
  | unprefixed inner ih => exact ih
  | primary atom calls ihatom ihcalls => exact ihatom.append ihcalls
  | nextCall opening args closing more ihargs ihmore =>
    exact opening.legal_cons (ihargs.append (closing.legal_cons ihmore (by decide))) (by decide)
  | ident token | number token | text token | yesWord token | noWord token =>
    exact token.legal_cons legal_nil (by decide)
  | group opening inner closing ih =>
    exact opening.legal_cons (ih.append (closing.legal_cons legal_nil (by decide))) (by decide)
  | ifElse word opening cond closing yes no ihcond ihyes ihno =>
    have hrest := closing.legal_cons (ihyes.append ihno) (by decide)
    exact word.legal_cons (opening.legal_cons (ihcond.append hrest) (by decide)) (by decide)
  | function word opening params closing body ih =>
    have hrest := closing.legal_cons ih (by decide)
    exact word.legal_cons (opening.legal_cons (params.legal.append hrest) (by decide)) (by decide)
  | someArgs first more ihfirst ihmore => exact ihfirst.append ihmore
  | nextArg comma value more ihvalue ihmore =>
    exact comma.legal_cons (ihvalue.append ihmore) (by decide)

/-- `advance` leads to a later place. -/
theorem Position.place_lt_advance (pos : Position) (b : UInt8) :
    pos.place < (pos.advance b).place := by
  rw [place, place, Prod.Lex.toLex_lt_toLex, advance]
  split
  · exact .inl (Int.lt_succ pos.line)
  · exact .inr ⟨rfl, Int.lt_succ pos.column⟩

namespace Cursor

/-- An illegal token is complained of, since by `program_sound` a text without complaints has a
derivation. -/
theorem diagnostics_ne_nil {cursor : Cursor} {token : Token} (hmem : token ∈ cursor.tokens)
    (hkind : token.kind = .illegal) : cursor.parse.diagnostics ≠ [] := by
  intro hclean
  obtain ⟨d, -, htokens, -⟩ := Parse.program_sound (parse_reads hclean)
  exact d.legal token (htokens ▸ hmem) hkind

/-! ### Texts with a NUL byte -/

/-- A text `src` that holds a NUL byte is cut at the first of them. -/
theorem eq_append_nul {src : Bytes} (h : 0 ∈ src) :
    src = src.takeWhile (· ≠ 0) ++ 0 :: (src.dropWhile (· ≠ 0)).tail := by
  induction src with
  | nil => exact absurd h List.not_mem_nil
  | cons b src ih =>
    by_cases hb : b = 0
    · simp [hb]
    · have hmem : 0 ∈ src := (List.mem_cons.1 h).resolve_left (Ne.symm hb)
      simpa [hb] using ih hmem

/-- The `Cursor` at the start of such a text is one at the start of what is in front of its first
NUL byte, `followedBy` that and more. -/
theorem start_eq_followedBy {src : Bytes} (hnul : 0 ∈ src) (file : Bytes) :
    start file src = (start file (src.takeWhile (· ≠ 0))).followedBy
      (0 :: (src.dropWhile (· ≠ 0)).tail) :=
  congrArg (start file) (eq_append_nul hnul)

theorem zero_notMem_takeWhile {src : Bytes} : 0 ∉ src.takeWhile (· ≠ 0) := fun hmem => by
  simpa using List.all_eq_true.1 List.all_takeWhile 0 hmem

/-- `parse` and `parseExpr` look at the tokens of a text and at its end token only. -/
theorem parse_congr {cursor other : Cursor} (h : cursor.allTokens = other.allTokens) :
    cursor.parse = other.parse ∧ cursor.parseExpr = other.parseExpr := by
  obtain ⟨htokens, hfinish⟩ := List.append_inj' h rfl
  have hend : cursor.finish.endToken = other.finish.endToken := List.singleton_inj.1 hfinish
  rw [parse, parse, parseExpr, parseExpr, htokens, hend]
  exact ⟨rfl, rfl⟩

theorem tryOut_congr {text other : Bytes}
    (h : ∀ file, (start file text).allTokens = (start file other).allTokens) (name : Bytes)
    (limit : Int) : tryOut text name limit = tryOut other name limit := by
  have hparse : (ofTrial name text).parse = (ofTrial name other).parse := (parse_congr (h _)).1
  rw [tryOut, tryOut, parseMessages_eq, parseMessages_eq, hparse]

/-- Of a text with diagnostics `tryOut` says that it is unreadable. -/
theorem tryOut_unreadable {text name : Bytes} (h : (ofTrial name text).parse.diagnostics ≠ [])
    (limit : Int) : (tryOut text name limit).2 = some .unreadable := by
  rw [tryOut, parseMessages_eq]
  simp only [if_pos (mt List.map_eq_nil_iff.1 h)]

/-- Scanning that goes on at a later place ends at a later place, so the end tokens differ. -/
theorem append_allTokens_ne {cursor onward : Cursor}
    (h : cursor.finish.pos.place < onward.pos.place) :
    cursor.tokens ++ onward.allTokens ≠ cursor.allTokens := by
  intro heq
  rw [allTokens.eq_def cursor, List.append_cancel_left_eq] at heq
  have hmem : cursor.finish.endToken ∈ onward.tokens ++ [onward.finish.endToken] := by
    rw [← allTokens, heq]
    exact List.mem_singleton_self _
  have hplace := onward.ascending_tokens.2 _ hmem
  rw [endToken_finish] at hplace
  exact absurd h (not_lt.2 hplace)

/-- `scan_before_nul` for `allTokens`, with the end token. -/
theorem allTokens_before_nul (cursor : Cursor) (hzero : 0 ∉ cursor.rest) (more : Bytes) :
    (outside.passOver cursor.rest ≠ .escaping →
      (cursor.followedBy (0 :: more)).allTokens = cursor.allTokens) ∧
    (outside.passOver cursor.rest = .escaping →
      (cursor.followedBy (0 :: more)).allTokens =
        cursor.tokens ++ ((cursor.followedBy [0]).behind more).allTokens) := by
  obtain ⟨hleave, htake⟩ := cursor.scan_before_nul hzero more
  refine ⟨fun hopen => ?_, fun hopen => ?_⟩
  · obtain ⟨htokens, hfinish⟩ := hleave hopen
    rw [allTokens, allTokens, htokens, endToken_finish, endToken_finish, hfinish]
    rfl
  · obtain ⟨htokens, hfinish, -⟩ := htake hopen
    rw [allTokens, allTokens, htokens, hfinish, List.append_assoc]

/-- `allTokens` of a text are those of what is in front of its first NUL byte, if no escape is open
there. -/
theorem allTokens_takeWhile {src : Bytes} (hnul : 0 ∈ src)
    (hopen : outside.passOver (src.takeWhile (· ≠ 0)) ≠ .escaping) (file : Bytes) :
    (start file src).allTokens = (start file (src.takeWhile (· ≠ 0))).allTokens := by
  have hsame := ((start file (src.takeWhile (· ≠ 0))).allTokens_before_nul zero_notMem_takeWhile
    (src.dropWhile (· ≠ 0)).tail).1 hopen
  rw [← start_eq_followedBy hnul] at hsame
  exact hsame

/-- A text is not read without diagnostics if an escape is open in front of its first NUL byte,
since that token is illegal. -/
theorem diagnostics_ne_nil_of_escaping {src : Bytes} (hnul : 0 ∈ src)
    (hopen : outside.passOver (src.takeWhile (· ≠ 0)) = .escaping) (file : Bytes) :
    (start file src).parse.diagnostics ≠ [] := by
  obtain ⟨htokens, -, token, hmem, hkind⟩ :=
    ((start file (src.takeWhile (· ≠ 0))).scan_before_nul zero_notMem_takeWhile
      (src.dropWhile (· ≠ 0)).tail).2 hopen
  rw [← start_eq_followedBy hnul] at htokens
  have hmem' : token ∈ (start file src).tokens := htokens ▸ List.mem_append_left _ hmem
  exact diagnostics_ne_nil hmem' hkind

/-- **A NUL byte ends the input, unless it stands in an escape.**  Let a text be cut in front of its
first NUL byte.  All its tokens, the end token included, are those of what is in front of the byte
if and only if no escape is open there; and then it is read, and run, as what is in front of the
byte.  Otherwise the tokens behind the byte are found behind those in front of it; but one of these
is illegal, so that nothing is run. -/
theorem nul_ends_input (file src : Bytes) (hnul : 0 ∈ src) :
    let text := src.takeWhile (· ≠ 0)
    let more := (src.dropWhile (· ≠ 0)).tail
    let whole := start file src
    let cut := start file text
    let onward := (start file (text ++ [0])).behind more
    (whole.allTokens = cut.allTokens ↔ outside.passOver text ≠ .escaping) ∧
    (outside.passOver text ≠ .escaping → whole.parse = cut.parse ∧
      whole.parseExpr = cut.parseExpr ∧ (∀ limit, tryOut src file limit = tryOut text file limit) ∧
      ∀ limit showEnv, Report.ofRun file src limit showEnv = .ofRun file text limit showEnv) ∧
    (outside.passOver text = .escaping → whole.allTokens = cut.tokens ++ onward.allTokens ∧
      (∀ limit, (tryOut src file limit).2 = some .unreadable) ∧
      ∀ limit showEnv, Report.ofRun file src limit showEnv =
        ⟨.failure, Report.diagnosticLines whole.parse.diagnostics⟩) := by
  intro text more whole cut onward
  have hlonger := (cut.allTokens_before_nul zero_notMem_takeWhile more).2
  rw [← start_eq_followedBy hnul] at hlonger
  -- the tokens behind the byte end at a later place, so they are not those in front of it
  have hlater : cut.finish.pos.place < onward.pos.place := by
    have honward : onward.pos = cut.finish.pos.advance 0 := by
      rw [finish_of_notMem zero_notMem_takeWhile]
      exact Position.advanceOver_append _ text [0]
    rw [honward]
    exact Position.place_lt_advance _ 0
  refine ⟨⟨fun heq hopen => ?_, fun hopen => allTokens_takeWhile hnul hopen file⟩,
    fun hopen => ?_, fun hopen => ⟨hlonger hopen, fun limit => ?_, fun limit showEnv => ?_⟩⟩
  · exact append_allTokens_ne hlater ((hlonger hopen).symm.trans heq)
  · obtain ⟨hparse, hexpr⟩ := parse_congr (allTokens_takeWhile hnul hopen file)
    refine ⟨hparse, hexpr, tryOut_congr (allTokens_takeWhile hnul hopen) file, ?_⟩
    intro limit showEnv
    rw [Report.ofRun, Report.ofRun, parseInto, parseInto, hparse]
  · exact tryOut_unreadable (diagnostics_ne_nil_of_escaping hnul hopen _) limit
  · exact Report.ofRun_of_diagnostics (diagnostics_ne_nil_of_escaping hnul hopen file)

/-- In a quoted text that is left open behind a whole escape the NUL byte ends the input, and the
quote behind it is never seen. -/
theorem nul_ends_input_in_quotes :
    let src : Bytes := utf8 "a \"b\\n" ++ 0 :: utf8 "\" c"
    let text : Bytes := utf8 "a \"b\\n"
    0 ∈ src ∧ src.takeWhile (· ≠ 0) = text ∧ outside.passOver text = .inside ∧
      (start [] src).allTokens = (start [] text).allTokens ∧
      ∀ limit, tryOut src [] limit = tryOut text [] limit := by
  intro src text
  have hnul : 0 ∈ src := by decide
  have htext : src.takeWhile (· ≠ 0) = text := by decide
  have hopen : outside.passOver text = .inside := by decide
  have hclosed : outside.passOver (src.takeWhile (· ≠ 0)) ≠ .escaping := by
    rw [htext, hopen]
    exact Quotation.noConfusion
  obtain ⟨hsame, hrun, -⟩ := nul_ends_input [] src hnul
  have htokens := hsame.2 hclosed
  have hruns := (hrun hclosed).2.2.1
  rw [htext] at htokens
  simp only [htext] at hruns
  exact ⟨hnul, htext, hopen, htokens, hruns⟩

/-- In front of the NUL byte stands a backslash in quotes: the byte is taken, and the name behind it
is found. -/
theorem nul_passed_in_escape :
    let src : Bytes := [quoteMark, backslash, 0, ascii 'x']
    let text : Bytes := [quoteMark, backslash]
    src.takeWhile (· ≠ 0) = text ∧
      (start [] src).allTokens = [⟨.illegal, [backslash, 0], ⟨[], 1, 1⟩⟩,
        ⟨.ident, [ascii 'x'], ⟨[], 1, 4⟩⟩, ⟨.eof, [], ⟨[], 1, 5⟩⟩] ∧
      (start [] text).allTokens =
        [⟨.illegal, [backslash, 0], ⟨[], 1, 1⟩⟩, ⟨.eof, [], ⟨[], 1, 3⟩⟩] ∧
      (start [] src).allTokens ≠ (start [] text).allTokens := by
  intro src text
  have hsrc : (start [] src).allTokens = [⟨.illegal, [backslash, 0], ⟨[], 1, 1⟩⟩,
      ⟨.ident, [ascii 'x'], ⟨[], 1, 4⟩⟩, ⟨.eof, [], ⟨[], 1, 5⟩⟩] := by
    with_unfolding_all rfl
  have htext : (start [] text).allTokens =
      [⟨.illegal, [backslash, 0], ⟨[], 1, 1⟩⟩, ⟨.eof, [], ⟨[], 1, 3⟩⟩] := by
    with_unfolding_all rfl
  refine ⟨by decide, hsrc, htext, ?_⟩
  rw [hsrc, htext]
  decide

end Cursor

end TreeWalk
