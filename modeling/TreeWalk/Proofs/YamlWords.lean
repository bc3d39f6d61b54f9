import Mathlib.Data.Bool.AllAny
import TreeWalk.Yaml.Stream

/-!
# Words in YAML

A word of letters, digits and underscores is the simplest thing that YAML knows.  It holds none of
the signs that mean something, so it is a plain scalar wherever it stands; whether it is a key or a
value depends only on what is behind it.  Lines of comments may stand in front of a key.

Reading is followed character by character here, in a text that fits into one piece and is
therefore all there once its first character was asked for.

## Main definitions

* `Yaml.IsWordChar`, `Yaml.Word` — letters, digits and underscores.
* `Yaml.Cursor.loaded` — a place in a text all of which was asked for.
* `Yaml.Cursor.StartsLine` — a line that is neither blank nor indented.
* `Yaml.Comment`, `Yaml.commentLines` — comments, each on a line of its own.

## Main results

* `Yaml.Cursor.plain?_key`, `Yaml.Cursor.plain?_value` — **a word in front of a colon and one at the
  end of a line are plain scalars.**
* `Yaml.Cursor.skipComments_loaded`, `Yaml.Stream.toToken_comments` — comments are skipped.
* `Yaml.Stream.fetch_key`, `Yaml.Stream.fetch_colon`, `Yaml.Stream.fetch_value`,
  `Yaml.Stream.fetch_end` — the tokens of a line, and of the end of the text.
-/

namespace TreeWalk.Yaml

/-! ### Words -/

/-- A character is a letter, a digit or an underscore. -/
def IsWordChar (c : Char) : Prop := c.isAlphanum ∨ c = '_'

instance (c : Char) : Decidable (IsWordChar c) := inferInstanceAs (Decidable (_ ∨ _))

namespace IsWordChar

variable {c : Char}

theorem ne {d : Char} (hc : IsWordChar c) (hd : ¬ IsWordChar d) : c ≠ d :=
  fun h => hd (h ▸ hc)

/-- The codes of characters of words lie between those of `0` and `z`. -/
theorem toNat_range (hc : IsWordChar c) : 48 ≤ c.toNat ∧ c.toNat ≤ 122 := by
  unfold IsWordChar Char.isAlphanum Char.isAlpha Char.isUpper Char.isLower Char.isDigit at hc
  simp only [Bool.or_eq_true, Bool.and_eq_true, decide_eq_true_eq] at hc
  rcases hc with ((⟨hlow, hhigh⟩ | ⟨hlow, hhigh⟩) | ⟨hlow, hhigh⟩) | rfl
  · exact ⟨Nat.le_trans (by decide) hlow, Nat.le_trans hhigh (by decide)⟩
  · exact ⟨Nat.le_trans (by decide) hlow, Nat.le_trans hhigh (by decide)⟩
  · exact ⟨Nat.le_trans (by decide) hlow, Nat.le_trans hhigh (by decide)⟩
  · decide

theorem isBlank_eq (hc : IsWordChar c) : isBlank c = false := by
  rw [isBlank, Bool.or_eq_false_iff, decide_eq_false_iff_not, decide_eq_false_iff_not]
  exact ⟨hc.ne (by decide), hc.ne (by decide)⟩

theorem isBreak_eq (hc : IsWordChar c) : isBreak c = false := by
  have hrange := hc.toNat_range
  have hline : c ≠ '\n' := hc.ne (by decide)
  have hreturn : c ≠ '\r' := hc.ne (by decide)
  simp only [isBreak, isSeparator, hline, hreturn, decide_false, Bool.false_or,
    Bool.or_eq_false_iff, decide_eq_false_iff_not]
  omega

theorem ne_byteOrderMark (hc : IsWordChar c) : c ≠ byteOrderMark := hc.ne (by decide)

theorem endsPlainWord_eq (hc : IsWordChar c) (rest : List Char) :
    endsPlainWord false (c :: rest) = false := by
  have hcolon : c ≠ ':' := hc.ne (by decide)
  simp only [endsPlainWord, hc.isBlank_eq, hc.isBreak_eq, hcolon, decide_false, Bool.false_and,
    Bool.or_self]

end IsWordChar

/-- A word: letters, digits and underscores, at least one of them. -/
structure Word where
  /-- The characters. -/
  chars : List Char
  /-- There is one. -/
  ne_nil : chars ≠ []
  /-- They are letters, digits and underscores. -/
  plain : ∀ c ∈ chars, IsWordChar c

theorem Word.exists_head (word : Word) : ∃ c more, word.chars = c :: more ∧ IsWordChar c := by
  obtain ⟨c, more, hword⟩ := List.exists_cons_of_ne_nil word.ne_nil
  exact ⟨c, more, hword, word.plain c (hword ▸ List.mem_cons_self)⟩

/-! ### Places in a text of one piece -/

namespace Cursor

/-- A `Cursor` in a text all of which was asked for. -/
def loaded (rest : List Char) (index line column breaks : Nat) : Cursor :=
  ⟨rest, [], true, false, index, line, column, breaks⟩

variable {rest : List Char} {c : Char} (index line column breaks : Nat)

theorem head?_ne_byteOrderMark (rest : List Char) (hc : c ≠ byteOrderMark) :
    (c :: rest).head? ≠ some byteOrderMark :=
  fun h => hc (Option.some.inj h)

/-- `need` changes nothing when all characters are there. -/
theorem need_loaded (n : Nat) (h : rest.head? ≠ some byteOrderMark) :
    (loaded rest index line column breaks).need n
      = some (loaded rest index line column breaks) := by
  simp only [need, loaded, gather, Bool.or_true, if_true, h, decide_false, ite_self]

theorem skip_loaded (hc : isBlank c = false) :
    (loaded (c :: rest) index line column breaks).skip =
      loaded rest (index + 1) line (column + 1) 0 := by
  simp only [skip, loaded, hc, Bool.false_eq_true, if_false]

/-- `plainWord?` reads a word of a plain scalar to its end. -/
theorem plainWord?_loaded {word : List Char} (hword : ∀ c ∈ word, IsWordChar c)
    (hends : endsPlainWord false rest) (hmark : rest.head? ≠ some byteOrderMark) {fuel : Nat}
    (hfuel : word.length < fuel) :
    plainWord? false fuel (loaded (word ++ rest) index line column breaks) =
      some (word, loaded rest (index + word.length) line (column + word.length)
        (if word = [] then breaks else 0)) := by
  induction word generalizing fuel index column breaks with
  | nil =>
    obtain ⟨fuel, rfl⟩ := Nat.exists_eq_succ_of_ne_zero (Nat.ne_of_gt hfuel)
    cases rest with
    | nil => rfl
    | cons c rest => simp only [List.nil_append, plainWord?, loaded, hends, if_true]; rfl
  | cons c word ih =>
    obtain ⟨fuel, rfl⟩ := Nat.exists_eq_succ_of_ne_zero (Nat.ne_of_gt (Nat.zero_lt_of_lt hfuel))
    rw [List.forall_mem_cons] at hword
    have hhead : (word ++ rest).head? ≠ some byteOrderMark := by
      cases word with
      | nil => exact hmark
      | cons d word =>
        have hd := (hword.2 d List.mem_cons_self).ne_byteOrderMark
        simpa using hd
    have hstep := ih (index + 1) (column + 1) 0 hword.2 (Nat.lt_of_succ_lt_succ hfuel)
    have hskip : (loaded (c :: (word ++ rest)) index line column breaks).skip.need 2 =
        some (loaded (word ++ rest) (index + 1) line (column + 1) 0) := by
      rw [skip_loaded index line column breaks hword.1.isBlank_eq, need_loaded _ _ _ _ 2 hhead]
    rw [List.cons_append, plainWord?]
    simp only [loaded] at hskip hstep ⊢
    rw [hword.1.endsPlainWord_eq, hskip]
    simp only [Bool.false_eq_true, if_false, Option.bind_eq_bind, Option.bind_some, hstep,
      Option.pure_def, List.length_cons, ite_self, reduceCtorEq]
    congr 3
    all_goals omega

theorem skipBreak_loaded :
    (loaded ('\n' :: rest) index line column breaks).skipBreak =
      loaded rest (index + 1) (line + 1) 0 (breaks + 1) := rfl

/-- A line that is neither blank nor indented starts here, or there is no line. -/
def StartsLine (rest : List Char) : Prop :=
  ∀ c ∈ rest.head?, isBlank c = false ∧ isBreak c = false ∧ c ≠ byteOrderMark

theorem StartsLine.head?_ne {rest : List Char} (h : StartsLine rest) :
    rest.head? ≠ some byteOrderMark :=
  fun hmark => (h _ hmark).2.2 rfl

/-- `gap?` ends where a line starts. -/
theorem gap?_startsLine {rest : List Char} (hrest : StartsLine rest) (indent fuel : Nat)
    (crossed : Bool) :
    gap? indent (fuel + 1) crossed (loaded rest index line column breaks) =
      some (⟨[], []⟩, loaded rest index line column breaks) := by
  cases rest with
  | nil => rfl
  | cons c rest =>
    obtain ⟨hblank, hbreak, -⟩ := hrest c rfl
    simp only [gap?, loaded, hblank, hbreak, Bool.false_eq_true, if_false]

/-- `gap?` behind a line is its line break. -/
theorem gap?_lineBreak {rest : List Char} (hrest : StartsLine rest) (indent fuel : Nat) :
    gap? indent (fuel + 2) false (loaded ('\n' :: rest) index line column breaks) =
      some (⟨[], ['\n']⟩, loaded rest (index + 1) (line + 1) 0 (breaks + 1)) := by
  have hneed : (loaded ('\n' :: rest) index line column breaks).need 2 =
      some (loaded ('\n' :: rest) index line column breaks) :=
    need_loaded index line column breaks 2 (head?_ne_byteOrderMark rest (by decide))
  have hnext := need_loaded (index + 1) (line + 1) 0 (breaks + 1) 1 hrest.head?_ne
  have hblank : isBlank '\n' = false := by decide
  have hbreak : isBreak '\n' = true := by decide
  have htext : breakText '\n' = '\n' := by decide
  rw [gap?]
  show (if isBlank '\n' then _ else if isBreak '\n' then _ else _) = _
  rw [hblank, hbreak, hneed]
  simp only [Bool.false_eq_true, if_false, if_true, Option.bind_eq_bind, Option.bind_some,
    skipBreak_loaded, hnext, gap?_startsLine _ _ _ _ hrest, Option.pure_def, htext]

/-- A marker starts with its sign `d`. -/
theorem not_atMarkerOf_loaded {d : Char} (hc : c ≠ d) :
    (loaded (c :: rest) index line column breaks).atMarkerOf d = false := by
  rw [atMarkerOf, loaded]
  match rest with
  | [] => exact Bool.and_false _
  | [_] => exact Bool.and_false _
  | _ :: _ :: _ => simp only [hc, decide_false, Bool.false_and, Bool.and_false]

/-- No marker starts with a character of a word. -/
theorem not_atMarker_loaded (hc : IsWordChar c) :
    (loaded (c :: rest) index line column breaks).atMarker = false := by
  rw [atMarker, not_atMarkerOf_loaded _ _ _ _ (hc.ne (by decide)),
    not_atMarkerOf_loaded _ _ _ _ (hc.ne (by decide)), Bool.or_self]

/-- `plainWords?` reads the first word of a plain scalar, and goes on behind it. -/
theorem plainWords?_loaded {word : List Char} (hword : ∀ c ∈ word, IsWordChar c) (hne : word ≠ [])
    (hends : endsPlainWord false rest) (hmark : rest.head? ≠ some byteOrderMark) (indent : Nat)
    {fuel : Nat} (hfuel : word.length < fuel) :
    plainWords? false indent (fuel + 1) [] false (loaded (word ++ rest) index line column breaks) =
      (let behind := loaded rest (index + word.length) line (column + word.length) 0
      if !behind.startsGap then some ⟨word, false, behind⟩
      else do
        let (gap, cursor) ← gap? indent fuel false behind
        if cursor.column < indent then some ⟨word, !gap.breaks.isEmpty, cursor⟩
        else
          let more ← plainWords? false indent fuel gap.folded (!gap.breaks.isEmpty) cursor
          some { more with text := word ++ more.text }) := by
  obtain ⟨c, more, rfl⟩ := List.exists_cons_of_ne_nil hne
  have hc : IsWordChar c := hword c List.mem_cons_self
  have hsees : (loaded (c :: (more ++ rest)) index line column breaks).sees '#' = false := by
    have hsign : c ≠ '#' := hc.ne (by decide)
    simp [sees, loaded, hsign]
  have hneed (n : Nat) := need_loaded index line column breaks n
    (head?_ne_byteOrderMark (more ++ rest) hc.ne_byteOrderMark)
  have hbehind (index column n : Nat) := need_loaded index line column 0 n hmark
  rw [plainWords?, List.cons_append, hneed]
  simp only [Option.bind_eq_bind, Option.bind_some, not_atMarker_loaded _ _ _ _ hc, hsees,
    Bool.or_self, Bool.false_eq_true, if_false]
  rw [← List.cons_append, plainWord?_loaded _ _ _ _ hword hends hmark hfuel]
  simp only [Option.bind_some, reduceCtorEq, if_false, hbehind, List.isEmpty_cons, Bool.and_false,
    Bool.not_false, Bool.true_and, decide_eq_true_eq, List.nil_append, Option.pure_def,
    Bool.false_eq_true]

/-- `plain?` reads a word in front of a colon as a plain scalar. -/
theorem plain?_key {word rest : List Char} (hword : ∀ c ∈ word, IsWordChar c) (hne : word ≠ [])
    (indent : Int) {fuel : Nat} (hfuel : word.length + 2 ≤ fuel) :
    plain? fuel false indent (loaded (word ++ ':' :: ' ' :: rest) index line column breaks) =
      some ⟨word, false, loaded (':' :: ' ' :: rest) (index + word.length) line
        (column + word.length) 0⟩ := by
  obtain ⟨fuel, rfl⟩ : ∃ less, fuel = less + 1 := ⟨fuel - 1, by omega⟩
  rw [plain?, plainWords?_loaded _ _ _ _ hword hne rfl
    (head?_ne_byteOrderMark _ (by decide)) _ (by omega)]
  rfl

/-- `plain?` reads a word at the end of a line as a plain scalar, if the next line is not
indented. -/
theorem plain?_value {word rest : List Char} (hword : ∀ c ∈ word, IsWordChar c) (hne : word ≠ [])
    (hrest : StartsLine rest) {fuel : Nat} (hfuel : word.length + 3 ≤ fuel) :
    plain? fuel false 0 (loaded (word ++ '\n' :: rest) index line column breaks) =
      some ⟨word, true, loaded rest (index + word.length + 1) (line + 1) 0 1⟩ := by
  obtain ⟨fuel, rfl⟩ : ∃ less, fuel = less + 3 := ⟨fuel - 3, by omega⟩
  rw [plain?, plainWords?_loaded _ _ _ _ hword hne rfl
    (head?_ne_byteOrderMark _ (by decide)) _ (by omega)]
  dsimp only
  rw [gap?_lineBreak _ _ _ _ hrest]
  rfl

/-! #### Comments and blanks -/

theorem peek_loaded (n : Nat) : (loaded rest index line column breaks).peek n = rest[n]? := rfl

/-- `seesComment` finds no comment where another character comes next. -/
theorem seesComment_loaded {n : Nat} (hc : rest[n]? = some c) (hblank : isBlank c = false)
    (hsign : c ≠ '#') (hmark : rest.head? ≠ some byteOrderMark) (count : Nat) :
    seesComment (count + 1) n (loaded rest index line column breaks) =
      some (false, loaded rest index line column breaks) := by
  rw [seesComment, need_loaded index line column breaks (n + 1) hmark]
  simp only [Option.bind_eq_bind, Option.bind_some, peek_loaded, hc, hblank, Bool.false_eq_true,
    if_false, hsign, decide_false, Option.pure_def]

/-- `seesComment` passes a blank on the way to a comment. -/
theorem seesComment_blank {n : Nat} (hc : rest[n]? = some c) (hblank : isBlank c = true)
    (hmark : rest.head? ≠ some byteOrderMark) (count : Nat) :
    seesComment (count + 1) n (loaded rest index line column breaks) =
      seesComment count (n + 1) (loaded rest index line column breaks) := by
  rw [seesComment, need_loaded index line column breaks (n + 1) hmark]
  simp only [Option.bind_eq_bind, Option.bind_some, peek_loaded, hc, hblank, if_true]

theorem lineComment_of_seesComment {cursor : Cursor}
    (h : seesComment commentReach 0 cursor = some (false, cursor)) (fuel : Nat) :
    cursor.lineComment fuel = some cursor := by
  rw [lineComment, h]
  split
  · rfl
  · rfl

/-- `lineComment` finds no comment behind a character that is no blank. -/
theorem lineComment_loaded (hblank : isBlank c = false) (hsign : c ≠ '#')
    (hmark : c ≠ byteOrderMark) (fuel : Nat) :
    (loaded (c :: rest) index line column breaks).lineComment fuel =
      some (loaded (c :: rest) index line column breaks) :=
  lineComment_of_seesComment (seesComment_loaded _ _ _ _ rfl hblank hsign
    (head?_ne_byteOrderMark rest hmark) 511) fuel

/-- `lineComment` finds no comment behind a space and a word. -/
theorem lineComment_space (hc : IsWordChar c) (fuel : Nat) :
    (loaded (' ' :: c :: rest) index line column breaks).lineComment fuel =
      some (loaded (' ' :: c :: rest) index line column breaks) := by
  have hmark := head?_ne_byteOrderMark (c :: rest) (show ' ' ≠ byteOrderMark by decide)
  refine lineComment_of_seesComment ?_ fuel
  calc seesComment (511 + 1) 0 (loaded (' ' :: c :: rest) index line column breaks)
      = seesComment (510 + 1) 1 (loaded (' ' :: c :: rest) index line column breaks) :=
        seesComment_blank _ _ _ _ rfl (by decide) hmark 511
    _ = some (false, loaded (' ' :: c :: rest) index line column breaks) :=
        seesComment_loaded _ _ _ _ rfl hc.isBlank_eq (hc.ne (by decide)) hmark 510

theorem dropWhile_loaded {p : Char → Bool} (hc : p c = false) (fuel : Nat) :
    (loaded (c :: rest) index line column breaks).dropWhile p (fuel + 1) =
      some (loaded (c :: rest) index line column breaks) := by
  simp only [dropWhile, loaded, hc, Bool.false_eq_true, if_false]

/-- `dropWhile` skips a blank. -/
theorem dropWhile_blank {p : Char → Bool} (hc : p c = true) (hblank : isBlank c = true)
    (hmark : rest.head? ≠ some byteOrderMark) (fuel : Nat) :
    (loaded (c :: rest) index line column breaks).dropWhile p (fuel + 1) =
      (loaded rest (index + 1) line (column + 1) breaks).dropWhile p fuel := by
  have hskip : (loaded (c :: rest) index line column breaks).skip =
      loaded rest (index + 1) line (column + 1) breaks := by
    simp only [skip, loaded, hblank, if_true]
  have hneed := need_loaded (index + 1) line (column + 1) breaks 1 hmark
  rw [← hskip] at hneed ⊢
  simp only [loaded] at hneed ⊢
  simp only [dropWhile, hc, if_true, hneed, Option.bind_eq_bind, Option.bind_some]

end Cursor

theorem Cursor.startsLine_append (word : Word) (rest : List Char) :
    StartsLine (word.chars ++ rest) := by
  obtain ⟨c, more, hword, hc⟩ := word.exists_head
  intro d hd
  rw [hword] at hd
  obtain rfl : c = d := Option.some.inj hd
  exact ⟨hc.isBlank_eq, hc.isBreak_eq, hc.ne_byteOrderMark⟩

/-! ### Comments -/

/-- A comment: characters of ASCII that can be printed. -/
structure Comment where
  /-- The characters behind the sign. -/
  chars : List Char
  /-- They can be printed. -/
  printable : ∀ c ∈ chars, 32 ≤ c.toNat ∧ c.toNat < 127

theorem Comment.isBreak_eq (comment : Comment) {c : Char} (hc : c ∈ comment.chars) :
    isBreak c = false := by
  have hrange := comment.printable c hc
  have hline : c ≠ '\n' := by
    rintro rfl
    exact absurd hrange (by decide)
  have hreturn : c ≠ '\r' := by
    rintro rfl
    exact absurd hrange (by decide)
  simp only [isBreak, isSeparator, hline, hreturn, decide_false, Bool.false_or,
    Bool.or_eq_false_iff, decide_eq_false_iff_not]
  omega

/-- Comments, each on a line of its own. -/
def commentLines : List Comment → List Char
  | [] => []
  | comment :: more => '#' :: (comment.chars ++ '\n' :: commentLines more)

namespace Cursor

variable {rest : List Char}

/-- `skipLine` skips the rest of a line up to its line break. -/
theorem skipLine_loaded {front : List Char} (hfront : ∀ c ∈ front, isBreak c = false)
    (hmarks : ∀ c ∈ front, c ≠ byteOrderMark) (index line column : Nat) {fuel : Nat}
    (hfuel : front.length < fuel) :
    (loaded (front ++ '\n' :: rest) index line column 0).skipLine fuel =
      some (loaded ('\n' :: rest) (index + front.length) line (column + front.length) 0) := by
  induction front generalizing fuel index column with
  | nil =>
    obtain ⟨fuel, rfl⟩ := Nat.exists_eq_succ_of_ne_zero (Nat.ne_of_gt hfuel)
    exact dropWhile_loaded _ _ _ _ (by decide) fuel
  | cons c front ih =>
    obtain ⟨fuel, rfl⟩ := Nat.exists_eq_succ_of_ne_zero (Nat.ne_of_gt (Nat.zero_lt_of_lt hfuel))
    rw [List.forall_mem_cons] at hfront hmarks
    have hskip : (loaded (c :: (front ++ '\n' :: rest)) index line column 0).skip =
        loaded (front ++ '\n' :: rest) (index + 1) line (column + 1) 0 := by
      simp only [skip, loaded, ite_self]
    have hhead : (front ++ '\n' :: rest).head? ≠ some byteOrderMark := by
      cases front with
      | nil => exact head?_ne_byteOrderMark rest (by decide)
      | cons d front => exact head?_ne_byteOrderMark _ (hmarks.2 d List.mem_cons_self)
    have hneed := need_loaded (index + 1) line (column + 1) 0 1 hhead
    rw [← hskip] at hneed
    have hstep : (loaded (c :: front ++ '\n' :: rest) index line column 0).skipLine (fuel + 1) =
        (loaded (front ++ '\n' :: rest) (index + 1) line (column + 1) 0).skipLine fuel := by
      rw [← hskip, skipLine, skipLine, List.cons_append]
      simp only [loaded] at hneed ⊢
      simp only [dropWhile, hfront.1, Bool.not_false, if_true, hneed, Option.bind_eq_bind,
        Option.bind_some]
    rw [hstep, ih hfront.2 hmarks.2 _ _ (Nat.lt_of_succ_lt_succ hfuel), List.length_cons]
    congr 2
    all_goals omega

/-- `skipLine` skips a comment up to the end of its line. -/
theorem skipLine_comment (comment : Comment) (index line breaks : Nat) {fuel : Nat}
    (hfuel : comment.chars.length + 1 < fuel) :
    (loaded ('#' :: (comment.chars ++ '\n' :: rest)) index line 0 breaks).skipLine fuel =
      some (loaded ('\n' :: rest) (index + 1 + comment.chars.length) line
        (1 + comment.chars.length) 0) := by
  obtain ⟨fuel, rfl⟩ : ∃ less, fuel = less + 1 := ⟨fuel - 1, by omega⟩
  have hmarks : ∀ c ∈ comment.chars, c ≠ byteOrderMark := by
    rintro _ hc rfl
    exact absurd (comment.printable _ hc).2 (by decide)
  have hhead : (comment.chars ++ '\n' :: rest).head? ≠ some byteOrderMark := by
    cases hchars : comment.chars with
    | nil => exact head?_ne_byteOrderMark rest (by decide)
    | cons d more => exact head?_ne_byteOrderMark _ (hmarks d (hchars ▸ List.mem_cons_self))
  have hskip := @skip_loaded (comment.chars ++ '\n' :: rest) '#' index line 0 breaks (by decide)
  have hneed := need_loaded (index + 1) line 1 0 1 hhead
  rw [← hskip] at hneed
  have hstep : (loaded ('#' :: (comment.chars ++ '\n' :: rest)) index line 0 breaks).skipLine
      (fuel + 1) = (loaded (comment.chars ++ '\n' :: rest) (index + 1) line 1 0).skipLine fuel := by
    rw [← hskip, skipLine, skipLine]
    simp only [loaded] at hneed ⊢
    simp only [dropWhile, show (!isBreak '#') = true from rfl, if_true, hneed,
      Option.bind_eq_bind, Option.bind_some]
  rw [hstep, skipLine_loaded (fun c => comment.isBreak_eq) hmarks _ _ _ (by omega)]

/-- `seesNextComment` tells behind a line break whether the next line is a comment. -/
theorem seesNextComment_loaded {c : Char} (hblank : isBlank c = false) (hbreak : isBreak c = false)
    (rest : List Char) (index line column : Nat) :
    seesNextComment (commentReach - 1) 1 (loaded ('\n' :: c :: rest) index line column 0) =
      some (decide (c = '#'), loaded ('\n' :: c :: rest) index line column 0) := by
  have hneed := need_loaded index line column 0 2 (head?_ne_byteOrderMark (c :: rest)
    (show '\n' ≠ byteOrderMark by decide))
  have hwide : isWideBreak '\n' = false := by decide
  rw [show commentReach - 1 = 510 + 1 from rfl, seesNextComment, hneed]
  simp only [Option.bind_eq_bind, Option.bind_some, peek_loaded, List.getElem?_cons_succ,
    List.getElem?_cons_zero, Nat.sub_self, Option.any_some, hwide, hblank, hbreak, Bool.or_self,
    Bool.false_eq_true, if_false, Option.pure_def]

theorem toComment_loaded (index line column fuel : Nat) :
    toComment (fuel + 2) (loaded ('\n' :: '#' :: rest) index line column 0) =
      some (loaded ('#' :: rest) (index + 1) (line + 1) 0 1) := rfl

/-- **Comments on lines of their own are skipped**, up to the end of the last of them: by induction
on `more`. -/
theorem skipComments_loaded {c : Char} (hblank : isBlank c = false) (hbreak : isBreak c = false)
    (hsign : c ≠ '#') (comment : Comment) (more : List Comment) (index line breaks : Nat)
    {fuel : Nat} (hfuel : (commentLines (comment :: more)).length + 2 ≤ fuel) :
    ∃ column, (loaded (commentLines (comment :: more) ++ c :: rest) index line 0
        breaks).skipComments fuel =
      some (loaded ('\n' :: c :: rest) (index + ((commentLines (comment :: more)).length - 1))
        (line + more.length) column 0) := by
  -- behind each comment it is seen whether there is another one
  induction more generalizing comment index line breaks fuel with
  | nil =>
    have hlength : (commentLines [comment]).length = comment.chars.length + 2 := by
      simp only [commentLines, List.length_cons, List.length_append, List.length_nil]
    obtain ⟨fuel, rfl⟩ : ∃ less, fuel = less + 1 := ⟨fuel - 1, by omega⟩
    have hline := @skipLine_comment (c :: rest) comment index line breaks fuel (by omega)
    have hindex : index + (comment.chars.length + 2 - 1) = index + 1 + comment.chars.length := by
      omega
    refine ⟨1 + comment.chars.length, ?_⟩
    rw [hlength, hindex]
    simp only [commentLines, List.cons_append, List.append_assoc, List.nil_append, skipComments,
      hline, Option.bind_eq_bind, Option.bind_some, seesNextComment_loaded hblank hbreak, hsign,
      decide_false, Bool.false_eq_true, if_false, Option.pure_def, List.length_nil, Nat.add_zero]
  | cons next more ih =>
    have hlength : (commentLines (comment :: next :: more)).length =
        comment.chars.length + 2 + (commentLines (next :: more)).length := by
      simp only [commentLines, List.length_cons, List.length_append]
      omega
    have hpositive : 0 < (commentLines (next :: more)).length := Nat.succ_pos _
    obtain ⟨fuel, rfl⟩ : ∃ less, fuel = less + 3 := ⟨fuel - 3, by omega⟩
    obtain ⟨column, hmore⟩ := ih next (index + 1 + comment.chars.length + 1) (line + 1) 1
      (show (commentLines (next :: more)).length + 2 ≤ fuel + 2 by omega)
    have hline := @skipLine_comment (commentLines (next :: more) ++ c :: rest) comment index line
      breaks (fuel + 2) (by omega)
    have hindex : index + (comment.chars.length + 2 + (commentLines (next :: more)).length - 1) =
        index + 1 + comment.chars.length + 1 + ((commentLines (next :: more)).length - 1) := by
      omega
    have hunfold : commentLines (comment :: next :: more) ++ c :: rest =
        '#' :: (comment.chars ++ '\n' :: (commentLines (next :: more) ++ c :: rest)) := by
      simp only [commentLines, List.cons_append, List.append_assoc]
    have hsees : seesNextComment (commentReach - 1) 1 (loaded ('\n' :: (commentLines (next :: more)
        ++ c :: rest)) (index + 1 + comment.chars.length) line (1 + comment.chars.length) 0) =
        some (true, loaded ('\n' :: (commentLines (next :: more) ++ c :: rest))
          (index + 1 + comment.chars.length) line (1 + comment.chars.length) 0) :=
      seesNextComment_loaded (show isBlank '#' = false from rfl) (show isBreak '#' = false from rfl)
        _ _ _ _
    have hgoes : toComment (fuel + 2) (loaded ('\n' :: (commentLines (next :: more) ++ c :: rest))
        (index + 1 + comment.chars.length) line (1 + comment.chars.length) 0) =
        some (loaded (commentLines (next :: more) ++ c :: rest)
          (index + 1 + comment.chars.length + 1) (line + 1) 0 1) :=
      toComment_loaded ..
    have hlines : line + (next :: more).length = line + 1 + more.length := by
      rw [List.length_cons]
      omega
    refine ⟨column, ?_⟩
    rw [hlength, hindex, hunfold, hlines, skipComments, hline]
    simp only [Option.bind_eq_bind, Option.bind_some, hsees, if_true, hgoes, hmore]

end Cursor

/-! ### Tokens of a text of one piece -/

/-- A token starts where a character stands that is neither a blank, nor a line break, nor the sign
of a comment. -/
structure Solid (c : Char) : Prop where
  /-- It is no space. -/
  space : c ≠ ' '
  /-- It is no tab. -/
  tab : c ≠ '\t'
  /-- It starts no comment. -/
  sign : c ≠ '#'
  /-- It breaks no line. -/
  unbroken : isBreak c = false
  /-- It does not mark the order of bytes. -/
  unmarked : c ≠ byteOrderMark

theorem IsWordChar.solid {c : Char} (hc : IsWordChar c) : Solid c :=
  ⟨hc.ne (by decide), hc.ne (by decide), hc.ne (by decide), hc.isBreak_eq, hc.ne_byteOrderMark⟩

theorem solid_colon : Solid ':' := ⟨by decide, by decide, by decide, by decide, by decide⟩

namespace Stream

variable {stream there next : Stream} {c : Char} {rest : List Char}
  {index line column breaks fuel : Nat}

/-- `toToken` where the blanks in front are known, and neither a comment nor a line break
follows. -/
theorem toToken_loaded (hcursor : stream.cursor = .loaded rest index line column breaks)
    (hmark : rest.head? ≠ some byteOrderMark) {after : Cursor}
    (hdrop : ∀ tabs : Bool, (Cursor.loaded rest index line column breaks).dropWhile
      (fun c => c = ' ' || (tabs && c = '\t')) fuel = some after)
    (hsees : after.sees '#' = false) (hbreak : after.seesBreak = false) :
    stream.toToken (fuel + 1) = some (stream.moved after) := by
  have hneed := Cursor.need_loaded index line column breaks 1 hmark
  have hmarked : (Cursor.loaded rest index line column breaks).marked = false := rfl
  rw [toToken, hcursor, hneed]
  simp only [Option.bind_eq_bind, Option.bind_some, hmarked, Bool.and_false, Bool.false_eq_true,
    if_false, hneed, hdrop, hsees, hbreak, Option.pure_def]

theorem sees_solid (hc : Solid c) :
    (Cursor.loaded (c :: rest) index line column breaks).sees '#' = false := by
  have hsign := hc.sign
  simp [Cursor.sees, Cursor.loaded, hsign]

theorem seesBreak_solid (hc : Solid c) :
    (Cursor.loaded (c :: rest) index line column breaks).seesBreak = false := by
  simp [Cursor.seesBreak, Cursor.loaded, hc.unbroken]

theorem toToken_solid (hcursor : stream.cursor = .loaded (c :: rest) index line column breaks)
    (hc : Solid c) : stream.toToken (fuel + 2) = some stream := by
  have hstays : stream.toToken (fuel + 2) = some (stream.moved stream.cursor) := by
    rw [hcursor]
    refine toToken_loaded hcursor (Cursor.head?_ne_byteOrderMark rest hc.unmarked) (fun tabs => ?_)
      (sees_solid hc) (seesBreak_solid hc)
    exact Cursor.dropWhile_loaded _ _ _ _ (by simp [hc.space, hc.tab]) _
  exact hstays

/-- `toToken` skips lines of comments in front of a token. -/
theorem toToken_comments {comments : List Comment}
    (hcursor : stream.cursor = .loaded (commentLines comments ++ c :: rest) index line 0 breaks)
    (hc : Solid c) (hblank : isBlank c = false) (hkey : stream.keyAllowed = true)
    (hfuel : (commentLines comments).length + 3 ≤ fuel) :
    ∃ breaks', stream.toToken fuel = some (stream.moved
      (.loaded (c :: rest) (index + (commentLines comments).length) (line + comments.length) 0
        breaks')) := by
  cases comments with
  | nil =>
    obtain ⟨fuel, rfl⟩ : ∃ less, fuel = less + 2 := ⟨fuel - 2, by omega⟩
    refine ⟨breaks, (toToken_solid hcursor hc).trans (congrArg some ?_)⟩
    exact congrArg stream.moved hcursor
  | cons comment more =>
    obtain ⟨fuel, rfl⟩ : ∃ less, fuel = less + 3 := ⟨fuel - 3, by omega⟩
    obtain ⟨column, hskip⟩ := @Cursor.skipComments_loaded rest c hblank hc.unbroken hc.sign comment
      more index line breaks (fuel + 2) (by omega)
    have hneed := @Cursor.need_loaded (commentLines (comment :: more) ++ c :: rest) index line 0
      breaks 1 (Cursor.head?_ne_byteOrderMark _ (by decide))
    have hdrop (tabs : Bool) : (Cursor.loaded (commentLines (comment :: more) ++ c :: rest) index
        line 0 breaks).dropWhile (fun c => c = ' ' || (tabs && c = '\t')) (fuel + 2) =
        some (.loaded (commentLines (comment :: more) ++ c :: rest) index line 0 breaks) :=
      Cursor.dropWhile_loaded _ _ _ _ (by simp) _
    have hsees : (Cursor.loaded (commentLines (comment :: more) ++ c :: rest) index line 0
        breaks).sees '#' = true := rfl
    have hmarked : (Cursor.loaded (commentLines (comment :: more) ++ c :: rest) index line 0
        breaks).marked = false := rfl
    -- behind the comments a line break follows, and then the token
    have hbreak (index line : Nat) :
        (Cursor.loaded ('\n' :: c :: rest) index line column 0).seesBreak = true := rfl
    have hneed' (index line : Nat) := @Cursor.need_loaded ('\n' :: c :: rest) index line column 0 2
      (Cursor.head?_ne_byteOrderMark _ (by decide))
    refine ⟨1, ?_⟩
    rw [toToken, hcursor, hneed]
    simp only [Option.bind_eq_bind, Option.bind_some, hmarked, Bool.and_false, Bool.false_eq_true,
      if_false, hneed, hdrop, hsees, if_true, hskip, hbreak, hneed', Cursor.skipBreak_loaded, hkey,
      Bool.true_or]
    refine (toToken_solid rfl hc).trans (congrArg some ?_)
    have hindex : index + ((commentLines (comment :: more)).length - 1) + 1 =
        index + (commentLines (comment :: more)).length := by
      have hpositive : 0 < (commentLines (comment :: more)).length := Nat.succ_pos _
      omega
    rw [hindex, moved, List.length_cons, hkey, Nat.add_assoc]

theorem toToken_space
    (hcursor : stream.cursor = .loaded (' ' :: c :: rest) index line column breaks) (hc : Solid c) :
    stream.toToken (fuel + 3) =
      some (stream.moved (.loaded (c :: rest) (index + 1) line (column + 1) breaks)) := by
  refine toToken_loaded hcursor (Cursor.head?_ne_byteOrderMark _ (by decide)) (fun tabs => ?_)
    (sees_solid hc) (seesBreak_solid hc)
  rw [Cursor.dropWhile_blank _ _ _ _ rfl (by decide) (Cursor.head?_ne_byteOrderMark _ hc.unmarked)]
  exact Cursor.dropWhile_loaded _ _ _ _ (by simp [hc.space, hc.tab]) _

theorem toToken_end (hcursor : stream.cursor = .loaded [] index line column breaks) :
    stream.toToken (fuel + 2) = some stream := by
  have hstays : stream.toToken (fuel + 2) = some (stream.moved stream.cursor) := by
    rw [hcursor]
    exact toToken_loaded hcursor (by simp) (fun _ => rfl) rfl rfl
  exact hstays

/-- `fetch` of another token, once it is known where it starts and what `fetchSign` makes of it. -/
theorem fetch_of_fetchSign (hneed : stream.cursor.need 1 = some stream.cursor)
    (htoken : stream.toToken fuel = some there)
    (hthere : there.cursor = .loaded (c :: rest) index line column breaks)
    (hclose : there.closeBlocks column stream.cursor.line = there) (hmark : c ≠ byteOrderMark)
    (hpercent : c ≠ '%') (hdash : c ≠ '-') (hdot : c ≠ '.')
    (hsign : there.fetchSign fuel c = some next)
    (hcomment : next.cursor.lineComment fuel = some next.cursor) :
    stream.fetch fuel = some next := by
  have hneed' : there.cursor.need 4 = some there.cursor := by
    rw [hthere]
    exact Cursor.need_loaded index line column breaks 4 (Cursor.head?_ne_byteOrderMark rest hmark)
  have hcolumn : there.cursor.column = column := by rw [hthere]; rfl
  have hready : there.cursor.ready.head? = some c := by rw [hthere]; rfl
  have hmarker {d : Char} (hd : c ≠ d) : there.cursor.atMarkerOf d = false := by
    rw [hthere]
    exact Cursor.not_atMarkerOf_loaded index line column breaks hd
  have hindicator : there.cursor.atIndicator '-' = false := by
    simp [Cursor.atIndicator, Cursor.sees, hready, hdash]
  have hself (stream : Stream) : stream.moved stream.cursor = stream := rfl
  rw [fetch, hneed]
  simp only [Option.bind_eq_bind, Option.bind_some, hself, htoken, hcolumn, hclose, hneed', hready,
    hpercent, decide_false, Bool.and_false, Bool.false_eq_true, if_false, hmarker hdash,
    hmarker hdot, hsign, hindicator, hcomment, Option.pure_def]

/-- `fetch` at the end of the text. -/
theorem fetch_of_fetchFinish (hneed : stream.cursor.need 1 = some stream.cursor)
    (htoken : stream.toToken fuel = some there)
    (hthere : there.cursor = .loaded [] index line column breaks)
    (hclose : there.closeBlocks column stream.cursor.line = there) :
    stream.fetch fuel = there.fetchFinish := by
  have hneed' : there.cursor.need 4 = some there.cursor := by
    rw [hthere]
    exact Cursor.need_loaded index line column breaks 4 (by simp)
  have hcolumn : there.cursor.column = column := by rw [hthere]; rfl
  have hready : there.cursor.ready.head? = none := by rw [hthere]; rfl
  have hself (stream : Stream) : stream.moved stream.cursor = stream := rfl
  rw [fetch, hneed]
  simp only [Option.bind_eq_bind, Option.bind_some, hself, htoken, hcolumn, hclose, hneed', hready]

/-- A word is a plain scalar: none of the signs that `startsPlain` refuses is part of a word. -/
theorem startsPlain_word (hc : IsWordChar c) : startsPlain false (c :: rest) = true := by
  have hsigns : ∀ d ∈ ",[]\x7b\x7d#&*!|>'\"%@`".toList, ¬ IsWordChar d :=
    List.all_iff_forall_prop.1 (by decide)
  have hcontains : ",[]\x7b\x7d#&*!|>'\"%@`".toList.contains c = false := by
    rw [List.contains_eq_mem, decide_eq_false_iff_not]
    exact fun hmem => hsigns c hmem hc
  have hdash : c ≠ '-' := hc.ne (by decide)
  have hquestion : c ≠ '?' := hc.ne (by decide)
  have hcolon : c ≠ ':' := hc.ne (by decide)
  simp only [startsPlain, hc.isBlank_eq, hc.isBreak_eq, hdash, hquestion, hcolon, hcontains,
    decide_false, Bool.or_self, Bool.false_eq_true, if_false, Bool.not_false]

theorem fetchSign_word (hcursor : stream.cursor = .loaded (c :: rest) index line column breaks)
    (hc : IsWordChar c) (hflow : stream.flow = 0) :
    stream.fetchSign fuel c = stream.fetchPlain fuel := by
  have hindicator : stream.cursor.atIndicator '-' = false := by
    have hdash : c ≠ '-' := hc.ne (by decide)
    simp [Cursor.atIndicator, Cursor.sees, hcursor, Cursor.loaded, hdash]
  have hplain : startsPlain (0 < stream.flow) stream.cursor.ready = true := by
    rw [hflow, hcursor]
    exact startsPlain_word hc
  have hnone : ∀ d ∈ ['[', '\x7b', ']', '\x7d', ',', '?', ':', '*', '&', '!', '|', '>', '\'', '"'],
      ¬ IsWordChar d := List.all_iff_forall_prop.1 (by decide)
  have hsigns := fun d hd => hc.ne (hnone d hd)
  simp only [List.forall_mem_cons] at hsigns
  simp only [fetchSign, hsigns, hindicator, hplain, decide_false, Bool.false_and,
    Bool.false_eq_true, if_false, if_true]

theorem fetchSign_colon
    (hcursor : stream.cursor = .loaded (':' :: ' ' :: rest) index line column breaks) :
    stream.fetchSign fuel ':' = stream.fetchValue := by
  have hvalue : stream.cursor.atIndicator ':' = true := by
    rw [hcursor]
    rfl
  have hitem : stream.cursor.atIndicator '-' = false := by
    rw [hcursor]
    rfl
  simp [fetchSign, hvalue, hitem]

/-! ### The tokens of a line -/

/-- The column of the block that holds the entries, which is opened behind the first key. -/
def indentOf (first : Bool) : Int := if first then -1 else 0

/-- The columns around it. -/
def outerOf (first : Bool) : List Int := if first then [] else [-1]

/-- The sign of the block that is opened behind the first key. -/
def openingOf (first : Bool) (line : Nat) : List Token :=
  if first then [⟨.mappingBlock, line⟩] else []

/-- `insert` puts a token in front of those `behind` it. -/
theorem insert_of_append {stream : Stream} {front behind : List Token}
    (h : stream.tokens = front ++ behind) (sign : Sign) (line : Nat) :
    stream.insert (stream.taken + front.length) sign line =
      { stream with tokens := front ++ ⟨sign, line⟩ :: behind } := by
  have hplace : stream.taken + front.length - stream.taken = front.length := by omega
  rw [insert, if_neg (by omega)]
  simp only [hplace, h, List.take_left, List.drop_left]

/-- `closeBlocks` leaves blocks open that are not further right than `column`. -/
theorem closeBlocks_of_le {stream : Stream} {column : Int} (h : stream.indent ≤ column)
    (line : Nat) : stream.closeBlocks column line = stream := by
  have hends : endBlocks column line stream.indent stream.outer =
      ([], stream.indent, stream.outer) := by
    cases stream.outer with
    | nil => rfl
    | cons around outer => rw [endBlocks, if_neg (Int.not_lt.2 h)]
  rw [closeBlocks, hends]
  split
  · rfl
  · simp only [List.append_nil]

theorem indentOf_le (first : Bool) (column : Nat) : indentOf first ≤ column := by
  cases first
  · exact Int.natCast_nonneg column
  · exact Int.le_trans (by decide) (Int.natCast_nonneg column)

section

variable {fuel index line column breaks taken last : Nat} {tokens : List Token} {first : Bool}
  (word : Word) (rest : List Char)

/-- `fetch` of the key of an entry, behind the comments in front of it. -/
theorem fetch_key (comments : List Comment)
    (hfuel : (commentLines comments).length + word.chars.length + 3 ≤ fuel) :
    let start := index + (commentLines comments).length
    let line' := line + comments.length
    fetch fuel ⟨.loaded (commentLines comments ++ (word.chars ++ ':' :: ' ' :: rest)) index line 0
        breaks, tokens, taken, true, 0, indentOf first, outerOf first, ⟨none, last⟩, []⟩ =
      some ⟨.loaded (':' :: ' ' :: rest) (start + word.chars.length) line' word.chars.length 0,
        tokens ++ [⟨.scalar .plain (String.ofList word.chars), line'⟩], taken, false, 0,
        indentOf first, outerOf first,
        ⟨some ⟨taken + tokens.length, !first, start, line', 0, true⟩, taken + tokens.length⟩,
        []⟩ := by
  intro start line'
  obtain ⟨c, more, hword, hc⟩ := word.exists_head
  have hchars : word.chars ++ ':' :: ' ' :: rest = c :: (more ++ ':' :: ' ' :: rest) := by
    rw [hword]
    rfl
  have hmark : (commentLines comments ++ (word.chars ++ ':' :: ' ' :: rest)).head? ≠
      some byteOrderMark := by
    cases comments with
    | nil => exact (Cursor.startsLine_append word _).head?_ne
    | cons comment others => exact Cursor.head?_ne_byteOrderMark _ (by decide)
  let stream : Stream := ⟨.loaded (commentLines comments ++ (word.chars ++ ':' :: ' ' :: rest))
    index line 0 breaks, tokens, taken, true, 0, indentOf first, outerOf first, ⟨none, last⟩, []⟩
  obtain ⟨breaks', htoken⟩ := @toToken_comments stream c (more ++ ':' :: ' ' :: rest) index line
    breaks fuel comments (by rw [← hchars]) hc.solid hc.isBlank_eq rfl (by omega)
  rw [← hchars] at htoken
  refine fetch_of_fetchSign (Cursor.need_loaded _ _ _ _ 1 hmark) htoken
    (congrArg (Cursor.loaded · start line' 0 breaks') hchars)
    (closeBlocks_of_le (indentOf_le first 0) _) hc.ne_byteOrderMark (hc.ne (by decide))
    (hc.ne (by decide)) (hc.ne (by decide)) ?_ ?_
  -- the place of the key is remembered, since a colon may follow
  · have hsave : saveKey (stream.moved
        (.loaded (word.chars ++ ':' :: ' ' :: rest) start line' 0 breaks')) =
        some { stream.moved (.loaded (word.chars ++ ':' :: ' ' :: rest) start line' 0 breaks') with
          level := ⟨some ⟨taken + tokens.length, !first, start, line', 0, true⟩,
            taken + tokens.length⟩ } := by
      cases first <;> rfl
    rw [fetchSign_word (congrArg (Cursor.loaded · start line' 0 breaks') hchars) hc rfl, fetchPlain,
      hsave]
    simp only [moved, Option.bind_eq_bind, Option.bind_some, Nat.lt_irrefl, decide_false, stream,
      Cursor.plain?_key _ _ _ _ word.plain word.ne_nil _
        (show word.chars.length + 2 ≤ fuel by omega)]
    simp only [push, Nat.zero_add]
    rfl
  · exact Cursor.lineComment_loaded _ _ _ _ (by decide) (by decide) (by decide) _

/-- `fetchValue` at the colon behind a key puts the signs for the key in front of its token, which
was waiting for them. -/
theorem fetchValue_awaited {width : Nat} (hwidth : width ≤ 1024) (scalar : Token)
    (rest : List Char) :
    fetchValue ⟨.loaded (':' :: rest) (index + width) line width 0, tokens ++ [scalar], taken,
        false, 0, indentOf first, outerOf first,
        ⟨some ⟨taken + tokens.length, !first, index, line, 0, true⟩, last⟩, []⟩ =
      some ⟨.loaded rest (index + width + 1) line (width + 1) 0,
        tokens ++ openingOf first line ++ [⟨.key, line⟩, scalar, ⟨.value, line⟩], taken, false, 0,
        0, [-1], ⟨none, last⟩, []⟩ := by
  have hstale : PossibleKey.isStale ⟨taken + tokens.length, !first, index, line, 0, true⟩
      (.loaded (':' :: rest) (index + width) line width 0) = false := by
    rw [PossibleKey.isStale, Bool.or_eq_false_iff, decide_eq_false_iff_not,
      decide_eq_false_iff_not]
    refine ⟨Nat.lt_irrefl line, ?_⟩
    show ¬ index + 1024 < index + width
    omega
  have hinsert (cursor : Cursor) (level : Level) (sign : Sign) (behind : List Token) :
      insert ⟨cursor, tokens ++ behind, taken, false, 0, indentOf first, outerOf first, level, []⟩
          (taken + tokens.length) sign line =
        ⟨cursor, tokens ++ ⟨sign, line⟩ :: behind, taken, false, 0, indentOf first, outerOf first,
          level, []⟩ :=
    insert_of_append rfl sign line
  rw [fetchValue, currentKey?]
  simp only [hstale, Bool.false_eq_true, if_false, Option.bind_eq_bind, Option.bind_some, hinsert]
  -- only the first key opens a block
  cases first with
  | false =>
    show some (Stream.mk _ (tokens ++ [_, _] ++ [_]) _ _ _ _ _ _ _) =
      some (Stream.mk _ (tokens ++ [] ++ _) _ _ _ _ _ _ _)
    rw [List.append_assoc, List.append_nil]
    rfl
  | true =>
    rw [openBlock, hinsert]
    show some (Stream.mk _ (tokens ++ [_, _, _] ++ [_]) _ _ _ _ _ _ _) =
      some (Stream.mk _ (tokens ++ [_] ++ _) _ _ _ _ _ _ _)
    rw [List.append_assoc, List.append_assoc]
    rfl

/-- `fetch` of the colon behind a key. -/
theorem fetch_colon {width : Nat} (hwidth : width ≤ 1024) (scalar : Token) (hfuel : 2 ≤ fuel) :
    fetch fuel ⟨.loaded (':' :: ' ' :: (word.chars ++ rest)) (index + width) line width 0,
        tokens ++ [scalar], taken, false, 0, indentOf first, outerOf first,
        ⟨some ⟨taken + tokens.length, !first, index, line, 0, true⟩, last⟩, []⟩ =
      some ⟨.loaded (' ' :: (word.chars ++ rest)) (index + width + 1) line (width + 1) 0,
        tokens ++ openingOf first line ++ [⟨.key, line⟩, scalar, ⟨.value, line⟩], taken, false, 0,
        0, [-1], ⟨none, last⟩, []⟩ := by
  obtain ⟨c, more, hword, hc⟩ := word.exists_head
  obtain ⟨fuel, rfl⟩ : ∃ less, fuel = less + 2 := ⟨fuel - 2, by omega⟩
  refine fetch_of_fetchSign ?_ (toToken_solid rfl solid_colon) rfl
    (closeBlocks_of_le (indentOf_le first width) _) (by decide) (by decide) (by decide) (by decide)
    ?_ ?_
  · exact Cursor.need_loaded _ _ _ _ 1 (Cursor.head?_ne_byteOrderMark _ (by decide))
  · rw [fetchSign_colon rfl]
    exact fetchValue_awaited hwidth scalar _
  · rw [hword]
    exact Cursor.lineComment_space _ _ _ _ hc _

/-- `fetch` of the value of an entry, up to the end of its line. -/
theorem fetch_value (hrest : Cursor.StartsLine rest) (hfuel : word.chars.length + 3 ≤ fuel) :
    fetch fuel ⟨.loaded (' ' :: (word.chars ++ '\n' :: rest)) index line column 0, tokens, taken,
        false, 0, 0, [-1], ⟨none, last⟩, []⟩ =
      some ⟨.loaded rest (index + 1 + word.chars.length + 1) (line + 1) 0 1,
        tokens ++ [⟨.scalar .plain (String.ofList word.chars), line⟩], taken, true, 0, 0, [-1],
        ⟨none, last⟩, []⟩ := by
  obtain ⟨c, more, hword, hc⟩ := word.exists_head
  have hcursor : Cursor.loaded (' ' :: (word.chars ++ '\n' :: rest)) index line column 0 =
      .loaded (' ' :: c :: (more ++ '\n' :: rest)) index line column 0 := by rw [hword]; rfl
  have hthere : Cursor.loaded (c :: (more ++ '\n' :: rest)) (index + 1) line (column + 1) 0 =
      .loaded (word.chars ++ '\n' :: rest) (index + 1) line (column + 1) 0 := by rw [hword]; rfl
  obtain ⟨fuel, rfl⟩ : ∃ less, fuel = less + 3 := ⟨fuel - 3, by omega⟩
  refine fetch_of_fetchSign ?_ (toToken_space hcursor hc.solid) rfl
    (closeBlocks_of_le (Int.natCast_nonneg _) _) hc.ne_byteOrderMark (hc.ne (by decide))
    (hc.ne (by decide)) (hc.ne (by decide)) ?_ rfl
  · exact Cursor.need_loaded _ _ _ _ 1 (Cursor.head?_ne_byteOrderMark _ (by decide))
  · rw [fetchSign_word rfl hc rfl, fetchPlain, saveKey]
    simp only [moved, hthere, Bool.false_eq_true, if_false, Option.bind_eq_bind, Option.bind_some,
      Nat.lt_irrefl, decide_false,
      Cursor.plain?_value _ _ _ _ word.plain word.ne_nil hrest hfuel]
    rfl

/-- `fetch` at the end of the text closes the block that holds the entries. -/
theorem fetch_end (hfuel : 2 ≤ fuel) :
    fetch fuel ⟨.loaded [] index line 0 breaks, tokens, taken, true, 0, 0, [-1], ⟨none, last⟩, []⟩ =
      some ⟨.loaded [] index line 0 breaks, tokens ++ [⟨.blockEnd, line⟩, ⟨.finish, line⟩], taken,
        false, 0, -1, [], ⟨none, last⟩, []⟩ := by
  obtain ⟨fuel, rfl⟩ : ∃ less, fuel = less + 2 := ⟨fuel - 2, by omega⟩
  rw [fetch_of_fetchFinish (Cursor.need_loaded _ _ _ _ 1 (by simp)) (toToken_end rfl) rfl
    (closeBlocks_of_le (indentOf_le false 0) _)]
  show some (Stream.mk _ (tokens ++ [_] ++ [_]) _ _ _ _ _ _ _) = _
  rw [List.append_assoc]
  rfl

/-- `fetch` behind the end of the text gives another end. -/
theorem fetch_finished (hfuel : 2 ≤ fuel) :
    fetch fuel ⟨.loaded [] index line 0 breaks, tokens, taken, false, 0, -1, [], ⟨none, last⟩, []⟩ =
      some ⟨.loaded [] index line 0 breaks, tokens ++ [⟨.finish, line⟩], taken,
        false, 0, -1, [], ⟨none, last⟩, []⟩ := by
  obtain ⟨fuel, rfl⟩ : ∃ less, fuel = less + 2 := ⟨fuel - 2, by omega⟩
  rw [fetch_of_fetchFinish (Cursor.need_loaded _ _ _ _ 1 (by simp)) (toToken_end rfl) rfl
    (closeBlocks_of_le (indentOf_le true 0) _)]
  show some (Stream.mk _ (tokens ++ [] ++ [_]) _ _ _ _ _ _ _) = _
  rw [List.append_nil]
  rfl

end

end Stream

end TreeWalk.Yaml
