import Mathlib.Data.List.Nodup
import TreeWalk.Proofs.YamlSpelling
import TreeWalk.Yaml.Decode

/-!
# Records in YAML

`Yaml.library` writes records as lines and reads such lines back, which is all that
`Yaml.Library.Lawful` asks for.  Writing and reading meet in the entries of a mapping: a plain line
spells an entry (`Yaml.Line.entry`), the entry is read as a key and a value (`Yaml.Entry.nodes`),
and the value means what was written (`Yaml.Datum.meaning?_chars`).

## Main definitions

* `Yaml.charsOf` — the characters of ASCII bytes.
* `Yaml.Datum.chars`, `Yaml.Datum.meaning` — a plain value as a word, and what the word means.
* `Yaml.Line.entry` — the entry that a plain line spells.

## Main results

* `Yaml.writeText_word` — a word is written as it is.
* `Yaml.Line.readMapping_entries` — **lines for different fields set these fields.**
* `Yaml.library_lawful` — **the library is lawful.**
-/

namespace TreeWalk.Yaml

/-! ### Words as bytes -/

/-- `charsOf text` are the characters of ASCII bytes. -/
def charsOf (text : Bytes) : List Char := text.map fun b => Char.ofNat b.toNat

theorem toNat_ofNat {n : Nat} (h : n < 128) : (Char.ofNat n).toNat = n := by
  revert n
  decide

theorem bytesOf_charsOf {text : Bytes} (h : ∀ b ∈ text, b.toNat < 128) :
    bytesOf (charsOf text) = text := by
  rw [bytesOf, charsOf, List.map_map]
  refine (List.map_congr_left fun b hb => ?_).trans (List.map_id text)
  rw [Function.comp, ascii, toNat_ofNat (h b hb), Nat.toUInt8_eq, UInt8.ofNat_toNat, id]

theorem toNat_of_mem_charsOf {text : Bytes} (h : ∀ b ∈ text, b.toNat < 128) {c : Char}
    (hc : c ∈ charsOf text) : c.toNat < 128 := by
  obtain ⟨b, hb, rfl⟩ := List.mem_map.1 hc
  rw [toNat_ofNat (h b hb)]
  exact h b hb

theorem utf8_ofList {chars : List Char} (h : ∀ c ∈ chars, c.toNat < 128) :
    utf8 (String.ofList chars) = bytesOf chars := by
  rw [utf8, String.toList_ofList, flatMap_utf8EncodeChar h]

section

variable {text : Bytes}

/-- The bytes of a text with `isWord` are lower-case letters and underscores. -/
theorem isWord_range (h : isWord text) {b : UInt8} (hb : b ∈ text) :
    97 ≤ b.toNat ∧ b.toNat ≤ 122 ∨ b.toNat = 95 := by
  simp only [isWord, Bool.and_eq_true, List.all_eq_true, Bool.or_eq_true, decide_eq_true_eq] at h
  rcases h.1.1.2 b hb with hlower | rfl
  · simp only [isWord.isLower, Bool.and_eq_true, decide_eq_true_eq] at hlower
    exact .inl ⟨UInt8.le_iff_toNat_le.1 hlower.1, UInt8.le_iff_toNat_le.1 hlower.2⟩
  · exact .inr rfl

theorem isWord_lt (h : isWord text) : ∀ b ∈ text, b.toNat < 128 := by
  intro b hb
  have hrange := isWord_range h hb
  omega

/-- A text with `isWord` starts with a letter. -/
theorem exists_of_isWord (h : isWord text) :
    ∃ c more, charsOf text = c :: more ∧ c.isAlpha := by
  have hletters : ∀ n < 123, 97 ≤ n → (Char.ofNat n).isAlpha := by decide
  simp only [isWord, Bool.and_eq_true] at h
  obtain ⟨b, hhead, hlower⟩ := (Option.any_eq_true _ _).1 h.1.1.1
  obtain ⟨more, rfl⟩ := List.head?_eq_some_iff.1 hhead
  simp only [isWord.isLower, Bool.and_eq_true, decide_eq_true_eq] at hlower
  refine ⟨_, charsOf more, rfl, hletters _ ?_ (UInt8.le_iff_toNat_le.1 hlower.1)⟩
  exact Nat.lt_succ_of_le (UInt8.le_iff_toNat_le.1 hlower.2)

theorem isWordChar_of_isWord (h : isWord text) : ∀ c ∈ charsOf text, IsWordChar c := by
  have hchars : ∀ n < 123, 97 ≤ n ∨ n = 95 → IsWordChar (Char.ofNat n) := by decide
  intro c hc
  obtain ⟨b, hb, rfl⟩ := List.mem_map.1 hc
  have hrange := isWord_range h hb
  exact hchars _ (by omega) (by omega)

theorem utf8_charsOf (h : isWord text) : utf8 (String.ofList (charsOf text)) = text := by
  have hsmall : ∀ c ∈ charsOf text, c.toNat < 128 := fun c => toNat_of_mem_charsOf (isWord_lt h)
  rw [utf8_ofList hsmall, bytesOf_charsOf (isWord_lt h)]

/-- A text with `isWord` is none of several `words` without. -/
theorem contains_eq_false_of_isWord (h : isWord text) {words : List String}
    (hwords : words.all fun word => !isWord (utf8 word)) :
    words.contains (String.ofList (charsOf text)) = false := by
  rw [List.contains_eq_mem, decide_eq_false_iff_not]
  intro hmem
  have hnone := List.all_eq_true.1 hwords _ hmem
  rw [utf8_charsOf h, h] at hnone
  cases hnone

theorem word?_of_isWord (h : isWord text) : word? (String.ofList (charsOf text)) = none := by
  rw [word?, contains_eq_false_of_isWord h (by decide), contains_eq_false_of_isWord h (by decide),
    contains_eq_false_of_isWord h (by decide), contains_eq_false_of_isWord h (by decide),
    contains_eq_false_of_isWord h (by decide), contains_eq_false_of_isWord h (by decide)]
  rfl

/-- A text with `isWord` means a text. -/
theorem meaning?_of_isWord (h : isWord text) :
    meaning? none .plain (String.ofList (charsOf text)) = some .text := by
  obtain ⟨c, more, hchars, hc⟩ := exists_of_isWord h
  exact meaning?_text (String.toList_ofList.trans hchars) hc (word?_of_isWord h)

/-! ### Writing words -/

theorem hasSigns_of_isWordChar {chars : List Char} (h : ∀ c ∈ chars, IsWordChar c)
    (afterBlank : Bool) : hasSigns afterBlank chars = false := by
  induction chars generalizing afterBlank with
  | nil => rfl
  | cons c more ih =>
    rw [List.forall_mem_cons] at h
    have hcolon : c ≠ ':' := h.1.ne (by decide)
    have hsign : c ≠ '#' := h.1.ne (by decide)
    rw [hasSigns, ih h.2]
    simp only [hcolon, hsign, decide_false, Bool.false_and, Bool.or_self]

/-- Letters, digits and underscores can be written as they are: `plainFits` holds of them. -/
theorem plainFits_of_isWordChar {chars : List Char} (h : ∀ c ∈ chars, IsWordChar c)
    (hne : chars ≠ []) : plainFits chars := by
  obtain ⟨c, more, rfl⟩ := List.exists_cons_of_ne_nil hne
  have hc : IsWordChar c := h c List.mem_cons_self
  have hnot {d : Char} (hd : ¬ IsWordChar d) : d ∉ c :: more := fun hmem => hd (h d hmem)
  have hlast : (c :: more).getLast? ≠ some ' ' :=
    fun heq => hnot (by decide) (List.mem_of_getLast? heq)
  have hbreaks : (c :: more).any isBreak = false :=
    List.any_eq_false.2 fun d hd => by rw [(h d hd).isBreak_eq]; exact Bool.false_ne_true
  have htab : (c :: more).contains '\t' = false := by
    rw [List.contains_eq_mem, decide_eq_false_iff_not]
    exact hnot (by decide)
  have hwritable : (c :: more).all isWritable := by
    refine List.all_eq_true.2 fun d hd => ?_
    have hrange := (h d hd).toNat_range
    have hlow : 0x20 ≤ d.toNat := Nat.le_trans (by decide) hrange.1
    have hhigh : d.toNat ≤ 0x7E := Nat.le_trans hrange.2 (by decide)
    simp [isWritable, hlow, hhigh]
  -- no sign that could start something else is a character of a word
  have hstarts : startsWithSign (c :: more) = false := by
    have hsigns : ∀ d ∈ "#,[]\x7b\x7d&*!|>'\"%@`".toList, ¬ IsWordChar d :=
      List.all_iff_forall_prop.1 (by decide)
    have hcontains : "#,[]\x7b\x7d&*!|>'\"%@`".toList.contains c = false := by
      rw [List.contains_eq_mem, decide_eq_false_iff_not]
      exact fun hmem => hsigns c hmem hc
    have hdash : c ≠ '-' := hc.ne (by decide)
    have hquestion : c ≠ '?' := hc.ne (by decide)
    have hdot : c ≠ '.' := hc.ne (by decide)
    have hdashes : "---".toList.isPrefixOf (c :: more) = false := by
      rw [show "---".toList = ['-', '-', '-'] from rfl, List.isPrefixOf, beq_false_of_ne hdash.symm,
        Bool.false_and]
    have hdots : "...".toList.isPrefixOf (c :: more) = false := by
      rw [show "...".toList = ['.', '.', '.'] from rfl, List.isPrefixOf, beq_false_of_ne hdot.symm,
        Bool.false_and]
    simp only [startsWithSign, hcontains, hdash, hquestion, hdashes, hdots, decide_false,
      Bool.false_and, Bool.or_self]
  have hspace : c ≠ ' ' := hc.ne (by decide)
  simp only [plainFits, hasSigns_of_isWordChar h, hlast, hbreaks, htab, hwritable, hstarts,
    List.head?_cons, ne_eq, Option.some.injEq, hspace, not_false_eq_true, decide_true,
    Bool.not_false, Bool.and_self]

/-- No reader takes a text with `isWord` for anything but a text. -/
theorem readsAsText_of_isWord (h : isWord text) :
    readsAsText (String.ofList (charsOf text)) := by
  obtain ⟨c, more, hchars, hc⟩ := exists_of_isWord h
  have hmeaning : plainMeaning (String.ofList (charsOf text)) = .text :=
    spelled_text (String.toList_ofList.trans hchars) hc (word?_of_isWord h) true
  have hdigit : c.isDigit = false := by
    have hletters : ∀ n < 128, (Char.ofNat n).isAlpha → (Char.ofNat n).isDigit = false := by decide
    have hsmall : c.toNat < 128 :=
      toNat_of_mem_charsOf (isWord_lt h) (hchars ▸ List.mem_cons_self)
    have hdigit := hletters c.toNat hsmall
    rw [Char.ofNat_toNat] at hdigit
    exact hdigit hc
  have hsixty : isSexagesimal (charsOf text) = false := by
    have hplus : c ≠ '+' := (isWordChar_of_isWord h c (hchars ▸ List.mem_cons_self)).ne (by decide)
    have hminus : c ≠ '-' := (isWordChar_of_isWord h c (hchars ▸ List.mem_cons_self)).ne (by decide)
    simp [isSexagesimal, hchars, hplus, hminus, hdigit]
  have htruth : isTruthWord (String.ofList (charsOf text)) = false :=
    contains_eq_false_of_isWord h (by decide)
  simp only [readsAsText, hmeaning, Meaning.tag, String.toList_ofList, hsixty, htruth, decide_true,
    Bool.not_false, Bool.and_self]

/-- **A word is written as it is**, by `writeText`. -/
theorem writeText_word (h : isWord text) : writeText text = text ++ utf8 "\n" := by
  have hchars := isWordChar_of_isWord h
  have hne : charsOf text ≠ [] := by
    obtain ⟨c, more, hcons, -⟩ := exists_of_isWord h
    rw [hcons]
    exact List.cons_ne_nil _ _
  have hwrite := writeText_bytesOf (fun c => toNat_of_mem_charsOf (isWord_lt h))
    (fun hmem => absurd (hchars _ hmem) (by decide)) (readsAsText_of_isWord h)
    (plainFits_of_isWordChar hchars hne)
  rw [bytesOf_charsOf (isWord_lt h)] at hwrite
  rw [hwrite, bytesOf, List.map_append]
  exact congrArg (· ++ _) (bytesOf_charsOf (isWord_lt h))

end

/-! ### Values -/

namespace Datum

/-- `datum.chars` are the characters of a plain value. -/
def chars : Datum → List Char
  | integer value => Nat.toDigits 10 value.toNat
  | text value => charsOf value
  | boolean value => if value then "true".toList else "false".toList

/-- `datum.meaning` is what the characters of a plain value mean. -/
def meaning : Datum → Meaning
  | integer value => .integer value
  | text _ => .text
  | boolean value => .boolean value

variable {datum : Datum}

theorem isPlain_integer {value : Int} (h : (integer value).isPlain) :
    ∃ n : Nat, value = n ∧ n < signedBound := by
  have hbound : signedBound = 9223372036854775808 := by decide
  simp only [isPlain, Bool.and_eq_true, decide_eq_true_eq] at h
  exact ⟨value.toNat, by omega, by omega⟩

theorem chars_ne_nil (h : datum.isPlain) : datum.chars ≠ [] := by
  cases datum with
  | integer value => exact Nat.toDigits_ne_nil
  | text value =>
    obtain ⟨c, more, hchars, -⟩ := exists_of_isWord h
    exact fun hnil => List.cons_ne_nil c more (hchars.symm.trans hnil)
  | boolean value => cases value <;> decide

theorem isWordChar_of_mem_chars (h : datum.isPlain) : ∀ c ∈ datum.chars, IsWordChar c := by
  cases datum with
  | integer value =>
    intro c hc
    refine .inl ?_
    rw [Char.isAlphanum, Nat.isDigit_of_mem_toDigits (by decide) (by decide) hc, Bool.or_true]
  | text value => exact isWordChar_of_isWord h
  | boolean value => cases value <;> exact List.all_iff_forall_prop.1 (by decide)

/-- `Datum.chars` of a plain value spell it. -/
theorem bytesOf_chars (h : datum.isPlain) : bytesOf datum.chars = datum.spelling := by
  cases datum with
  | integer value =>
    obtain ⟨n, rfl, -⟩ := isPlain_integer h
    rfl
  | text value => exact bytesOf_charsOf (isWord_lt h)
  | boolean value => cases value <;> rfl

/-- A plain value means itself: `meaning?` of its characters is `Datum.meaning`. -/
theorem meaning?_chars (h : datum.isPlain) :
    meaning? none .plain (String.ofList datum.chars) = some datum.meaning := by
  cases datum with
  | integer value =>
    obtain ⟨n, rfl, hn⟩ := isPlain_integer h
    exact meaning?_digits (Nat.lt_trans hn (by decide))
  | text value => exact meaning?_of_isWord h
  | boolean value => cases value <;> rfl

theorem meaning_ne_null (datum : Datum) : datum.meaning ≠ .null := by
  cases datum <;> exact nofun

/-- `datum?` reads a plain value as itself where a value of its `kind` is due. -/
theorem datum?_meaning (h : datum.isPlain) :
    datum? (datum.meaning.asText (String.ofList datum.chars)) datum.meaning datum.kind =
      some datum := by
  cases datum with
  | integer value =>
    obtain ⟨n, rfl, hn⟩ := isPlain_integer h
    have hnumber : (Meaning.integer n).toInt? = some (n : Int) := by
      rw [Meaning.toInt?, if_pos (Int.ofNat_lt.2 hn)]
    simp [datum?, kind, meaning, hnumber]
  | text value =>
    exact congrArg (some ∘ Datum.text) (utf8_charsOf h)
  | boolean value => rfl

/-- A plain value is written as its `spelling`. -/
theorem written_eq (h : datum.isPlain) : datum.written = datum.spelling ++ utf8 "\n" := by
  cases datum with
  | text value => exact writeText_word h
  | integer value => rfl
  | boolean value => rfl

end Datum

/-! ### Lines -/

theorem toNat_of_isCommentText {text : Bytes} (h : isCommentText text) {b : UInt8} (hb : b ∈ text) :
    32 ≤ b.toNat ∧ b.toNat < 127 := by
  have hrange := List.all_eq_true.1 h b hb
  simp only [Bool.and_eq_true, decide_eq_true_eq] at hrange
  exact ⟨UInt8.le_iff_toNat_le.1 hrange.1, UInt8.lt_iff_toNat_lt.1 hrange.2⟩

/-- `Comment.ofBytes text h` is the comment with the given text. -/
def Comment.ofBytes (text : Bytes) (h : isCommentText text) : Comment where
  chars := charsOf text
  printable c hc := by
    obtain ⟨b, hb, rfl⟩ := List.mem_map.1 hc
    have hrange := toNat_of_isCommentText h hb
    rw [toNat_ofNat (Nat.lt_succ_of_lt hrange.2)]
    exact hrange

theorem bytesOf_commentLines (comments : List Bytes) (h : ∀ text ∈ comments, isCommentText text) :
    bytesOf (commentLines (comments.pmap Comment.ofBytes h)) =
      comments.flatMap fun text => utf8 "#" ++ text ++ utf8 "\n" := by
  induction comments with
  | nil => rfl
  | cons text more ih =>
    have htext : bytesOf (charsOf text) = text := bytesOf_charsOf fun b hb =>
      Nat.lt_succ_of_lt (toNat_of_isCommentText (h text List.mem_cons_self) hb).2
    rw [List.forall_mem_cons] at h
    rw [List.flatMap_cons, ← ih h.2, List.pmap_cons, commentLines, Comment.ofBytes, bytesOf,
      List.map_cons, List.map_append, List.map_cons, List.append_assoc, List.append_assoc]
    exact congrArg (ascii '#' :: · ++ _) htext

/-- The field that `field?` finds has the `key` that was asked for. -/
theorem Shape.key_of_field? {shape : Shape} {key : Bytes} {field : Field}
    (h : shape.field? key = some field) : field.key = key := by
  have hfound := List.find?_some h
  exact of_decide_eq_true hfound

namespace Line

theorem isPlain_iff {line : Line} : line.isPlain ↔
    isWord line.key ∧ line.datum.isPlain ∧ ∀ text ∈ line.comments, isCommentText text := by
  simp only [isPlain, Bool.and_eq_true, List.all_eq_true, and_assoc]

/-- `line.entry h` is the entry that a plain line spells. -/
def entry (line : Line) (h : line.isPlain) : Entry where
  comments := line.comments.pmap Comment.ofBytes (isPlain_iff.1 h).2.2
  key :=
    { chars := charsOf line.key
      ne_nil := by
        obtain ⟨c, more, hchars, -⟩ := exists_of_isWord (isPlain_iff.1 h).1
        exact fun hnil => List.cons_ne_nil c more (hchars.symm.trans hnil)
      plain := isWordChar_of_isWord (isPlain_iff.1 h).1 }
  value :=
    { chars := line.datum.chars
      ne_nil := Datum.chars_ne_nil (isPlain_iff.1 h).2.1
      plain := Datum.isWordChar_of_mem_chars (isPlain_iff.1 h).2.1 }

/-- Plain lines spell their `entry`s: the bytes of `Entry.lines` are the texts of the lines. -/
theorem bytesOf_lines (lines : List Line) (h : ∀ line ∈ lines, line.isPlain) :
    bytesOf (Entry.lines (lines.pmap entry h)) = lines.flatMap text := by
  induction lines with
  | nil => rfl
  | cons line more ih =>
    obtain ⟨hkey, hdatum, hcomments⟩ := isPlain_iff.1 (h line List.mem_cons_self)
    have hmore := ih fun line hline => h line (List.mem_cons_of_mem _ hline)
    have hspelled : bytesOf (charsOf line.key) = line.key := bytesOf_charsOf (isWord_lt hkey)
    have hvalue : bytesOf line.datum.chars = line.datum.spelling := Datum.bytesOf_chars hdatum
    have hfront := bytesOf_commentLines line.comments hcomments
    have hentry : line.entryText = bytesOf (charsOf line.key) ++ [ascii ':', ascii ' '] ++
        bytesOf line.datum.chars ++ [ascii '\n'] := by
      rw [hspelled, hvalue]
      rfl
    rw [List.flatMap_cons, ← hmore, text, ← hfront, hentry]
    simp only [List.pmap_cons, Entry.lines, entry, bytesOf, List.map_append, List.map_cons,
      List.append_assoc, List.cons_append, List.nil_append]

/-! ### Nodes -/

variable {shape : Shape} (document : Document) (visits n : Nat)

/-- A node that is not read through a reference is only counted by `visit`. -/
theorem visit_false (assigned : List (Bytes × Datum)) :
    Progress.visit false ⟨assigned, [], visits, 0⟩ = some ⟨assigned, [], visits + 1, 0⟩ := rfl

theorem readField_datum {datum : Datum} (hdatum : datum.isPlain) {field : Field}
    (hkind : field.kind = datum.kind) (assigned : List (Bytes × Datum)) :
    readField document false ⟨assigned, [], visits, 0⟩ field
        (.scalar n none .plain (String.ofList datum.chars)) =
      some ⟨assigned ++ [(field.key, datum)], [], visits + 1, 0⟩ := by
  -- `simp only` takes this from the context, to pass the case of an empty value
  have hnull := datum.meaning_ne_null
  simp only [readField, visitNode, visit_false, Datum.meaning?_chars hdatum, hkind,
    Datum.datum?_meaning hdatum, Option.bind_eq_bind, Option.bind_some, Option.pure_def]

theorem readKey_word {key : Bytes} (hkey : isWord key) (assigned : List (Bytes × Datum)) :
    readKey document false ⟨assigned, [], visits, 0⟩
        (.scalar n none .plain (String.ofList (charsOf key))) =
      some (some key, ⟨assigned, [], visits + 1, 0⟩) := by
  simp only [readKey, visitNode, visit_false, meaning?_of_isWord hkey, Option.bind_eq_bind,
    Option.bind_some, Option.pure_def, Meaning.asText, utf8_charsOf hkey]

/-- `readEntry` of a line for a field that was not set yet sets it. -/
theorem readEntry_line {line : Line} (hplain : line.isPlain) {field : Field}
    (hfield : shape.field? line.key = some field) (hkind : field.kind = line.datum.kind)
    {done : List Field} (hdone : field ∉ done) (assigned : List (Bytes × Datum)) :
    readEntry shape document false ⟨⟨assigned, [], visits, 0⟩, done, none⟩
        (.scalar n none .plain (String.ofList (charsOf line.key)),
          .scalar n none .plain (String.ofList line.datum.chars)) =
      some ⟨⟨assigned ++ [(line.key, line.datum)], [], visits + 2, 0⟩, field :: done, none⟩ := by
  obtain ⟨hkey, hdatum, -⟩ := isPlain_iff.1 hplain
  have hname : field.key = line.key := Shape.key_of_field? hfield
  have hcontains : done.contains field = false := by
    rw [List.contains_eq_mem, decide_eq_false_iff_not]
    exact hdone
  simp only [readEntry, readKey_word _ _ _ hkey, hfield, hcontains,
    readField_datum _ _ _ hdatum hkind, hname, Option.bind_eq_bind, Option.bind_some,
    Option.pure_def, Option.getD_none, List.contains_nil, Bool.false_eq_true, if_false,
    Option.map_none]

/-- By induction on `lines`: lines for different fields set them one after the other. -/
theorem foldlM_readEntry (lines : List Line) (hplain : ∀ line ∈ lines, line.isPlain)
    (hfits : ∀ line ∈ lines, line.fits shape) (hkeys : (lines.map key).Nodup) {done : List Field}
    (hdone : ∀ line ∈ lines, ∀ field ∈ done, field.key ≠ line.key)
    (assigned : List (Bytes × Datum)) :
    ∃ visits' done', (Entry.nodes (lines.pmap entry hplain) n).foldlM
        (readEntry shape document false) ⟨⟨assigned, [], visits, 0⟩, done, none⟩ =
      some ⟨⟨assigned ++ lines.map fun line => (line.key, line.datum), [], visits', 0⟩, done',
        none⟩ := by
  induction lines generalizing visits n done assigned with
  | nil => exact ⟨visits, done, by rw [List.map_nil, List.append_nil]; rfl⟩
  | cons line more ih =>
    rw [List.map_cons, List.nodup_cons] at hkeys
    rw [List.forall_mem_cons] at hfits hdone
    obtain ⟨field, hfield, hkind⟩ := (Option.any_eq_true _ _).1 hfits.1
    have hname : field.key = line.key := Shape.key_of_field? hfield
    have hnew : field ∉ done := fun hmem => hdone.1 field hmem hname
    -- the field that is set now is none of those that are still to come
    have hothers : ∀ other ∈ more, ∀ field' ∈ field :: done, field'.key ≠ other.key := by
      intro other hother
      refine List.forall_mem_cons.2 ⟨fun hsame => hkeys.1 ?_, hdone.2 other hother⟩
      rw [← hname, hsame]
      exact List.mem_map_of_mem hother
    obtain ⟨visits', done', hmore⟩ := ih (visits + 2) (n + line.comments.length + 1)
      (fun line hline => hplain line (List.mem_cons_of_mem _ hline)) hfits.2 hkeys.2 hothers
      (assigned ++ [(line.key, line.datum)])
    have hcount : (line.entry (hplain line List.mem_cons_self)).comments.length =
        line.comments.length := List.length_pmap
    refine ⟨visits', done', ?_⟩
    rw [List.pmap_cons, Entry.nodes, List.foldlM_cons, hcount]
    have hentry := readEntry_line document visits (n + line.comments.length)
      (hplain line List.mem_cons_self) hfield (of_decide_eq_true hkind) hnew assigned
    simp only [entry] at hentry ⊢
    rw [hentry, Option.bind_eq_bind, Option.bind_some, hmore, List.map_cons, List.append_assoc,
      List.singleton_append]

/-- The keys in `Entry.nodes` are the keys of `lines`. -/
theorem exists_key_of_mem_nodes {lines : List Line} {hplain : ∀ line ∈ lines, line.isPlain}
    {node : Node × Node} (hnode : node ∈ Entry.nodes (lines.pmap entry hplain) n) :
    ∃ line ∈ lines, ∃ n, node.1 = .scalar n none .plain (String.ofList (charsOf line.key)) := by
  induction lines generalizing n with
  | nil => cases hnode
  | cons line more ih =>
    rw [List.pmap_cons, Entry.nodes, List.mem_cons] at hnode
    rcases hnode with rfl | hnode
    · exact ⟨line, List.mem_cons_self, _, rfl⟩
    · obtain ⟨other, hother, hkey⟩ := ih _ hnode
      exact ⟨other, List.mem_cons_of_mem _ hother, hkey⟩

/-- `duplicates` finds none in lines with different keys. -/
theorem duplicates_nodes {lines : List Line} (hplain : ∀ line ∈ lines, line.isPlain)
    (hkeys : (lines.map key).Nodup) :
    duplicates (Entry.nodes (lines.pmap entry hplain) n) = [] := by
  induction lines generalizing n with
  | nil => rfl
  | cons line more ih =>
    rw [List.map_cons, List.nodup_cons] at hkeys
    rw [List.pmap_cons, Entry.nodes, duplicates, ih _ _ hkeys.2, List.append_nil,
      List.map_eq_nil_iff, List.filter_eq_nil_iff]
    intro node hnode hsame
    obtain ⟨other, hother, _, hkey⟩ := exists_key_of_mem_nodes _ hnode
    rw [hkey] at hsame
    have htext : String.ofList (charsOf line.key) = String.ofList (charsOf other.key) :=
      of_decide_eq_true hsame
    have hequal : line.key = other.key := by
      rw [← utf8_charsOf (isPlain_iff.1 (hplain line List.mem_cons_self)).1, htext,
        utf8_charsOf (isPlain_iff.1 (hplain other (List.mem_cons_of_mem _ hother))).1]
    exact hkeys.1 (hequal ▸ List.mem_map_of_mem hother)

/-- No key of a plain line is one with `isMerge`. -/
theorem isMerge_of_mem_nodes {lines : List Line} {hplain : ∀ line ∈ lines, line.isPlain}
    {node : Node × Node} (hnode : node ∈ Entry.nodes (lines.pmap entry hplain) n) :
    isMerge node.1 = false := by
  obtain ⟨line, hline, _, hkey⟩ := exists_key_of_mem_nodes _ hnode
  have htext : String.ofList (charsOf line.key) ≠ "<<" := by
    intro hmerge
    have hword := (isPlain_iff.1 (hplain line hline)).1
    rw [← utf8_charsOf hword, hmerge] at hword
    exact absurd hword (by decide)
  rw [hkey, isMerge, decide_eq_false htext, Bool.false_and]

/-- **Lines for different fields set these fields**, and no others: `readMapping` comes to an end on
their nodes without a complaint. -/
theorem readMapping_entries {lines : List Line} (hplain : ∀ line ∈ lines, line.isPlain)
    (hfits : ∀ line ∈ lines, line.fits shape) (hkeys : (lines.map key).Nodup) (fuel : Nat) :
    ∃ visits', readMapping shape document (fuel + 1) [] false none
        (Entry.nodes (lines.pmap entry hplain) n) ⟨[], [], visits, 0⟩ =
      some (none, ⟨lines.map fun line => (line.key, line.datum), [], visits', 0⟩) := by
  have hmerge : ∀ node ∈ Entry.nodes (lines.pmap entry hplain) n, isMerge node.1 = false :=
    fun _ => isMerge_of_mem_nodes n
  have hentries : (Entry.nodes (lines.pmap entry hplain) n).filter (fun node => !isMerge node.1) =
      Entry.nodes (lines.pmap entry hplain) n :=
    List.filter_eq_self.2 fun node hnode => by rw [hmerge node hnode, Bool.not_false]
  have hmerged : (Entry.nodes (lines.pmap entry hplain) n).filter (fun node => isMerge node.1) =
      [] :=
    List.filter_eq_nil_iff.2 fun node hnode => by
      simp only [hmerge node hnode, Bool.false_eq_true, not_false_eq_true]
  obtain ⟨visits', done', hfold⟩ := foldlM_readEntry document visits n lines hplain hfits hkeys
    (fun _ _ _ hfield => absurd hfield List.not_mem_nil) []
  refine ⟨visits', ?_⟩
  rw [readMapping, duplicates_nodes _ hplain hkeys]
  simp only [hentries, hmerged, List.getLast?_nil, hfold, Option.bind_eq_bind, Option.bind_some,
    List.nil_append, Option.pure_def]

/-- `readRecord` of a short text of plain lines is the record of these lines. -/
theorem readRecord_lines {lines : List Line} (hne : lines ≠ [])
    (hplain : ∀ line ∈ lines, line.isPlain) (hfits : ∀ line ∈ lines, line.fits shape)
    (hkeys : (lines.map key).Nodup) (hlength : (lines.flatMap text).length ≤ pieceSize) :
    readRecord shape (.ok (lines.flatMap text)) =
      (none, lines.map fun line => (line.key, line.datum)) := by
  have hentries : lines.pmap entry hplain ≠ [] := fun h => hne (List.pmap_eq_nil_iff.1 h)
  have hshort : (Entry.lines (lines.pmap entry hplain)).length ≤ pieceSize := by
    rwa [← bytesOf_lines lines hplain, bytesOf, List.length_map] at hlength
  have hread := read?_lines _ hentries hshort
  rw [bytesOf_lines] at hread
  generalize lines.flatMap text = content at hread ⊢
  obtain ⟨fuel, hfuel⟩ : ∃ fuel, 16 * (content.length + 1) * (content.length + 1) = fuel + 1 :=
    Nat.exists_eq_succ_of_ne_zero (by simp)
  obtain ⟨visits', hmapping⟩ := readMapping_entries
    ⟨.mapping (Entry.firstLine (lines.pmap entry hplain) 1) none
      (Entry.nodes (lines.pmap entry hplain) 1), []⟩ 2 1 hplain hfits hkeys fuel
  have hdocument : readText shape content =
      .ok ⟨lines.map fun line => (line.key, line.datum), [], visits', 0⟩ := by
    simp only [readText, hread, hfuel, readDocument, Progress.start, visit_false,
      Option.bind_eq_bind, Option.bind_some, hmapping, Option.pure_def]
  simp only [readRecord, hdocument]

end Line

/-! ### The library -/

theorem writeRecord_of_ne_nil {entries : List (Bytes × Datum)} (h : entries ≠ []) :
    writeRecord entries = entries.flatMap fun entry => entry.1 ++ utf8 ": " ++ entry.2.written := by
  cases entries with
  | nil => exact absurd rfl h
  | cons entry more => rfl

/-- **The library is lawful**: `library` has all that `Library.Lawful` asks for. -/
theorem library_lawful : library.Lawful where
  write_lines entries hne hplain := by
    show Except.ok (writeRecord entries) = _
    rw [writeRecord_of_ne_nil hne]
    refine congrArg Except.ok (List.flatMap_congr fun entry hentry => ?_)
    rw [Datum.written_eq (hplain entry hentry).2, Line.entryText, ← List.append_assoc]
  write_last front key datum text _ hdatum hwrite := by
    have htext : writeRecord (front ++ [(key, datum)]) = text := Except.ok.inj hwrite
    rw [writeRecord_of_ne_nil (by simp), List.flatMap_append, List.flatMap_singleton,
      Datum.written_eq hdatum] at htext
    rw [← htext, Line.entryText, List.append_assoc (key ++ utf8 ": ")]
    exact List.suffix_append _ _
  read_lines shape lines hne hlines hkeys hlength :=
    Line.readRecord_lines hne (fun line hline => (hlines line hline).1)
      (fun line hline => (hlines line hline).2) hkeys hlength
  read_empty shape := rfl
  read_failed shape message := ⟨_, _, rfl⟩

end TreeWalk.Yaml
