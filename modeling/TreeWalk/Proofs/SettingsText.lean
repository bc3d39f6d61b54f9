import Mathlib.Data.List.Nodup
import Mathlib.Data.List.Perm.Subperm
import TreeWalk.Proofs.YamlRecords
import TreeWalk.Settings.Document

/-!
# Writing settings and reading them

Settings are written as three lines `key: value` and read as a YAML mapping, both by a
`Yaml.Library`.  Reading undoes writing if the library is lawful: any of the three lines, in any
order, give the settings that were written in the fields they are for, and the defaults in the
others.

The library tells which keys and values it found, in the order of the lines.  So what is left to see
is that the lines are such that the law applies to them, and that `Settings.assign` puts every value
where it belongs.

## Main definitions

* `Settings.Field`, `Settings.fieldLine` — the fields, and the line for a field.
* `Settings.adopted` — the default settings with some fields as in others.
* `Settings.lineOf` — the line for a field as a `Yaml.Line`.

## Main results

* `Settings.text_eq` — settings that can be used are written as one line for each field.
* `Settings.foldl_assign_entryOf` — **the values found set the fields they are for.**
* `Settings.decode_undoes_text` — **reading settings undoes writing them.**
-/

namespace TreeWalk

/-- `linesAfter` cuts a line off behind its line feed. -/
theorem Bytes.linesAfter_append {front : Bytes} (hfront : ascii '\n' ∉ front) (rest : Bytes) :
    (front ++ ascii '\n' :: rest).linesAfter = (front ++ [ascii '\n']) :: rest.linesAfter := by
  induction front with
  | nil => rw [List.nil_append, linesAfter, if_pos rfl, List.nil_append]
  | cons b front ih =>
    rw [List.mem_cons, not_or] at hfront
    rw [List.cons_append, linesAfter, if_neg (Ne.symm hfront.1), ih hfront.2]
    rfl

theorem ColorMode.ofWord?_eq_some_iff {text : Bytes} {mode : ColorMode} :
    ofWord? text = some mode ↔ mode.word = text := by
  constructor
  · intro hmode
    unfold ofWord? at hmode
    split at hmode
    · cases hmode
      exact Eq.symm ‹_›
    split at hmode
    · cases hmode
      exact Eq.symm ‹_›
    split at hmode
    · cases hmode
      exact Eq.symm ‹_›
    · cases hmode
  · rintro rfl
    exact ofWord?_word mode

namespace Settings

/-- The fields that are written. -/
inductive Field
  /-- The most calls that may be open at once. -/
  | maxCallDepth
  /-- When output is coloured. -/
  | color
  /-- Whether bindings are listed. -/
  | showEnv
  deriving DecidableEq

/-- The fields in the order in which they are written. -/
def Field.all : List Field := [.maxCallDepth, .color, .showEnv]

/-- `settings.fieldLine field` is the line for a field. -/
def fieldLine (settings : Settings) : Field → Bytes
  | .maxCallDepth => utf8 "max_call_depth: " ++ Bytes.ofInt settings.maxCallDepth ++ utf8 "\n"
  | .color => utf8 "color: " ++ settings.color ++ utf8 "\n"
  | .showEnv =>
    utf8 "show_env: " ++ utf8 (if settings.showEnv then "true" else "false") ++ utf8 "\n"

/-- `settings.adopted fields` are the default settings, but with the given fields as in
`settings`. -/
def adopted (settings : Settings) (fields : List Field) : Settings where
  maxCallDepth := if .maxCallDepth ∈ fields then settings.maxCallDepth else default.maxCallDepth
  color := if .color ∈ fields then settings.color else default.color
  showEnv := if .showEnv ∈ fields then settings.showEnv else default.showEnv
  path := default.path

/-- The order of the `fields` does not matter for `adopted`. -/
theorem adopted_reverse (settings : Settings) (fields : List Field) :
    settings.adopted fields.reverse = settings.adopted fields := by
  simp only [adopted, List.mem_reverse]

/-! ### Settings that can be used -/

/-- Settings pass `Settings.check` exactly if the colour is the word for a mode and the number is a
natural one. -/
theorem check_eq_ok_iff (settings : Settings) :
    settings.check = .ok () ↔
      (∃ mode : ColorMode, mode.word = settings.color) ∧ 0 ≤ settings.maxCallDepth := by
  simp only [← ColorMode.ofWord?_eq_some_iff, ← Option.isSome_iff_exists]
  rw [check, ← Option.not_isSome]
  by_cases hsome : (ColorMode.ofWord? settings.color).isSome
  · by_cases hdepth : settings.maxCallDepth < 0
    · simp [hsome, hdepth]
    · simp [hsome, hdepth, Int.not_lt.1 hdepth]
  · simp [hsome]

variable {settings : Settings}

/-- Whatever `fields` are adopted from settings that pass `Settings.check`, the result passes it. -/
theorem check_adopted (hcheck : settings.check = .ok ()) (fields : List Field) :
    (settings.adopted fields).check = .ok () := by
  obtain ⟨hmode, hdepth⟩ := settings.check_eq_ok_iff.1 hcheck
  rw [check_eq_ok_iff, adopted]
  constructor
  · dsimp only
    split
    · exact hmode
    · exact ⟨.auto, rfl⟩
  · dsimp only
    split
    · exact hdepth
    · decide

/-! ### Lines -/

/-- `field.key` is the key of a field. -/
def Field.key : Field → Bytes
  | maxCallDepth => utf8 "max_call_depth"
  | color => utf8 "color"
  | showEnv => utf8 "show_env"

/-- Fields are told apart by `Field.key`. -/
theorem Field.key_injective : Function.Injective key := by
  intro field other
  cases field <;> cases other <;> decide

/-- `settings.valueOf field` is the value of a field. -/
def valueOf (settings : Settings) : Field → Yaml.Datum
  | .maxCallDepth => .integer settings.maxCallDepth
  | .color => .text settings.color
  | .showEnv => .boolean settings.showEnv

/-- `settings.entryOf field` is the key of a field with its value. -/
def entryOf (settings : Settings) (field : Field) : Bytes × Yaml.Datum :=
  (field.key, settings.valueOf field)

/-- `settings.lineOf field` is the line for a field as a library takes it. -/
def lineOf (settings : Settings) (field : Field) : Yaml.Line :=
  ⟨[], field.key, settings.valueOf field⟩

theorem entries_eq (settings : Settings) : settings.entries = Field.all.map settings.entryOf := rfl

theorem text_lineOf (settings : Settings) (field : Field) :
    (settings.lineOf field).text = settings.fieldLine field := by
  cases field with
  | maxCallDepth => rfl
  | color => rfl
  | showEnv =>
    rw [fieldLine, lineOf, valueOf]
    cases settings.showEnv <;> rfl

theorem flatMap_text_lineOf (settings : Settings) (fields : List Field) :
    (fields.map settings.lineOf).flatMap Yaml.Line.text =
      (fields.map settings.fieldLine).flatten := by
  rw [List.flatMap_map, ← List.flatMap_def]
  exact List.flatMap_congr fun field _ => settings.text_lineOf field

/-- The lines `lineOf` of settings that pass `Settings.check` are plain. -/
theorem isPlain_lineOf (hcheck : settings.check = .ok ())
    (hdepth : settings.maxCallDepth < 9223372036854775808) (field : Field) :
    (settings.lineOf field).isPlain := by
  obtain ⟨⟨mode, hmode⟩, hnonneg⟩ := settings.check_eq_ok_iff.1 hcheck
  refine Yaml.Line.isPlain_iff.2 ⟨?_, ?_, fun text htext => absurd htext List.not_mem_nil⟩
  · exact (show ∀ field : Field, Yaml.isWord field.key by rintro ⟨⟩ <;> decide) field
  · cases field with
    | maxCallDepth =>
      show (decide (0 ≤ settings.maxCallDepth) &&
        decide (settings.maxCallDepth < 9223372036854775808)) = true
      rw [decide_eq_true hnonneg, decide_eq_true hdepth, Bool.and_self]
    | color =>
      show Yaml.isWord settings.color
      rw [← hmode]
      cases mode <;> decide
    | showEnv => rfl

theorem fits_lineOf (settings : Settings) (field : Field) : (settings.lineOf field).fits shape := by
  cases field <;> rfl

theorem nodup_keys (settings : Settings) {fields : List Field} (hfields : fields.Nodup) :
    ((fields.map settings.lineOf).map Yaml.Line.key).Nodup := by
  rw [List.map_map]
  exact hfields.map Field.key_injective

/-- The digits of a number of 64 bits, as `Bytes.ofInt` writes it, are at most 19. -/
theorem length_ofInt_le (hnonneg : 0 ≤ settings.maxCallDepth)
    (hdepth : settings.maxCallDepth < 9223372036854775808) :
    (Bytes.ofInt settings.maxCallDepth).length ≤ 19 := by
  obtain ⟨depth, hnat⟩ := Int.eq_ofNat_of_zero_le hnonneg
  rw [hnat] at hdepth ⊢
  have hlt : depth < 10 ^ 19 := Nat.lt_trans (Int.ofNat_lt.1 hdepth) (by decide)
  have hdigits : (Nat.toDigits 10 depth).length ≤ 19 :=
    (Nat.length_toDigits_le_iff (by decide) (by decide)).2 hlt
  rw [← List.length_map ascii] at hdigits
  exact hdigits

/-- A `fieldLine` takes at most 36 bytes. -/
theorem length_fieldLine_le (hcheck : settings.check = .ok ())
    (hdepth : settings.maxCallDepth < 9223372036854775808) (field : Field) :
    (settings.fieldLine field).length ≤ 36 := by
  obtain ⟨⟨mode, hmode⟩, hnonneg⟩ := settings.check_eq_ok_iff.1 hcheck
  cases field with
  | maxCallDepth =>
    have hdigits := length_ofInt_le hnonneg hdepth
    have hkey : (utf8 "max_call_depth: ").length = 16 := by decide
    have hfeed : (utf8 "\n").length = 1 := by decide
    rw [fieldLine, List.length_append, List.length_append, hkey, hfeed]
    omega
  | color =>
    rw [fieldLine, ← hmode]
    cases mode <;> decide
  | showEnv =>
    rw [fieldLine]
    cases settings.showEnv <;> decide

/-- Lines for different `fields` take at most 512 bytes together, which is what
`Yaml.Library.Lawful` asks of a document. -/
theorem length_flatten_le (hcheck : settings.check = .ok ())
    (hdepth : settings.maxCallDepth < 9223372036854775808) {fields : List Field}
    (hfields : fields.Nodup) : (fields.map settings.fieldLine).flatten.length ≤ 512 := by
  have hsubset : fields ⊆ Field.all := by
    intro field _
    cases field <;> decide
  have hcount : fields.length ≤ 3 := (List.subperm_of_subset hfields hsubset).length_le
  have hlines (fields : List Field) :
      (fields.map settings.fieldLine).flatten.length ≤ 36 * fields.length := by
    induction fields with
    | nil => exact Nat.le_refl 0
    | cons field more ih =>
      have hline := length_fieldLine_le hcheck hdepth field
      rw [List.map_cons, List.flatten_cons, List.length_append, List.length_cons]
      omega
  have hthree := hlines fields
  omega

/-- There is no line feed in a `fieldLine` before the one that ends it. -/
theorem exists_fieldLine_eq (hcheck : settings.check = .ok ()) (field : Field) :
    ∃ front, settings.fieldLine field = front ++ [ascii '\n'] ∧ ascii '\n' ∉ front := by
  obtain ⟨⟨mode, hmode⟩, hnonneg⟩ := settings.check_eq_ok_iff.1 hcheck
  cases field with
  | maxCallDepth =>
    obtain ⟨depth, hnat⟩ := Int.eq_ofNat_of_zero_le hnonneg
    have hdigits : ascii '\n' ∉ Bytes.ofInt settings.maxCallDepth := by
      rw [hnat]
      intro hmem
      obtain ⟨c, hc, hfeed⟩ := List.mem_map.1 hmem
      -- a digit has another code than the line feed
      have hdigit := Nat.isDigit_of_mem_toDigits (by decide) (by decide) hc
      have hcode := (Yaml.IsWordChar.toNat_range (.inl (by
        rw [Char.isAlphanum, hdigit, Bool.or_true]))).2
      have hten : (ascii c).toNat = 10 := by rw [hfeed]; rfl
      rw [Yaml.toNat_ascii (by omega)] at hten
      rw [show c = '\n' from Char.toNat_inj.1 hten] at hdigit
      exact absurd hdigit (by decide)
    exact ⟨_, rfl, List.not_mem_append (by decide) hdigits⟩
  | color =>
    refine ⟨_, rfl, List.not_mem_append (by decide) ?_⟩
    rw [← hmode]
    cases mode <;> decide
  | showEnv =>
    refine ⟨_, rfl, List.not_mem_append (by decide) ?_⟩
    cases settings.showEnv <;> decide

/-- Lines put together are cut into the same lines by `linesAfter`. -/
theorem linesAfter_flatten (hcheck : settings.check = .ok ()) (fields : List Field) :
    Bytes.linesAfter (fields.map settings.fieldLine).flatten = fields.map settings.fieldLine := by
  induction fields with
  | nil => rfl
  | cons field more ih =>
    obtain ⟨front, hline, hfront⟩ := exists_fieldLine_eq hcheck field
    rw [List.map_cons, List.flatten_cons, hline, List.append_assoc, List.singleton_append,
      Bytes.linesAfter_append hfront, ih]

/-! ### Writing and reading -/

variable {yaml : Yaml.Library}

/-- **Settings that can be used are written as one line for each field**: `Settings.text` is the
`fieldLine`s of `Field.all`. -/
theorem text_eq (hyaml : yaml.Lawful) (hcheck : settings.check = .ok ())
    (hdepth : settings.maxCallDepth < 9223372036854775808) :
    settings.text yaml = .ok (Field.all.map settings.fieldLine).flatten := by
  have hplain : ∀ entry ∈ settings.entries, Yaml.isWord entry.1 ∧ entry.2.isPlain := by
    rw [entries_eq]
    intro entry hentry
    obtain ⟨field, -, rfl⟩ := List.mem_map.1 hentry
    obtain ⟨hkey, hdatum, -⟩ := Yaml.Line.isPlain_iff.1 (isPlain_lineOf hcheck hdepth field)
    exact ⟨hkey, hdatum⟩
  rw [text, hyaml.write_lines settings.entries (List.cons_ne_nil _ _) hplain]
  refine congrArg Except.ok ?_
  rw [entries_eq, List.flatMap_map, ← List.flatMap_def]
  exact List.flatMap_congr fun field _ => settings.text_lineOf field

theorem assign_entryOf (settings : Settings) (field : Field) (done : List Field) :
    (settings.adopted done).assign (settings.entryOf field) = settings.adopted (field :: done) := by
  cases field <;> simp [assign, entryOf, valueOf, Field.key, adopted]

/-- **The values found set the fields they are for**, and no others: by induction on `fields`,
`assign` adds one field to those that are `adopted`. -/
theorem foldl_assign_entryOf (settings : Settings) (fields done : List Field) :
    (fields.map settings.entryOf).foldl assign (settings.adopted done) =
      settings.adopted (fields.reverse ++ done) := by
  induction fields generalizing done with
  | nil => rfl
  | cons field more ih =>
    rw [List.map_cons, List.foldl_cons, assign_entryOf, ih, List.reverse_cons, List.append_assoc,
      List.singleton_append]

theorem validated_of_check (h : settings.check = .ok ()) : settings.validated = .ok settings := by
  rw [validated, h]

/-- Some of the lines, in any order, are decoded as the settings `adopted` in the fields they are
for. -/
theorem decode_flatten (hyaml : yaml.Lawful) (hcheck : settings.check = .ok ())
    (hdepth : settings.maxCallDepth < 9223372036854775808) {fields : List Field}
    (hfields : fields.Nodup) :
    decode yaml (.ok (fields.map settings.fieldLine).flatten) = .ok (settings.adopted fields) := by
  by_cases hnone : fields = []
  · subst hnone
    rw [decode, List.map_nil, List.flatten_nil, hyaml.read_empty]
    rfl
  · -- the library finds the fields in the order of their lines, and they are set in this order
    have hread := hyaml.read_lines shape (fields.map settings.lineOf)
      (mt List.map_eq_nil_iff.1 hnone)
      (fun line hline => by
        obtain ⟨field, -, rfl⟩ := List.mem_map.1 hline
        exact ⟨isPlain_lineOf hcheck hdepth field, settings.fits_lineOf field⟩)
      (settings.nodup_keys hfields)
      (by rw [flatMap_text_lineOf]; exact length_flatten_le hcheck hdepth hfields)
    rw [flatMap_text_lineOf, List.map_map] at hread
    have hfold := settings.foldl_assign_entryOf fields []
    rw [List.append_nil, adopted_reverse] at hfold
    rw [decode, hread]
    refine Eq.trans ?_ (validated_of_check (check_adopted hcheck fields))
    exact congrArg validated hfold

/-- **Reading settings undoes writing them**, whatever lawful library is used.  Settings that can be
used are written as one line for each field.  Any of these lines, in any order, are read as the
settings that were written in the fields they are for and as the defaults in the others; all of them
together are read as the settings themselves, which then come from no file. -/
theorem decode_undoes_text (hyaml : yaml.Lawful) (settings : Settings)
    (hcheck : settings.check = .ok ()) (hdepth : settings.maxCallDepth < 9223372036854775808) :
    (∀ fields : List Field, fields.Nodup →
      decode yaml (.ok (fields.map settings.fieldLine).flatten) = .ok (settings.adopted fields)) ∧
    ∃ document, settings.text yaml = .ok document ∧
      document.linesAfter = Field.all.map settings.fieldLine ∧
      decode yaml (.ok document) = .ok { settings with path := [] } := by
  have hlines := fun fields => @decode_flatten settings yaml hyaml hcheck hdepth fields
  exact ⟨hlines, _, text_eq hyaml hcheck hdepth, linesAfter_flatten hcheck Field.all,
    hlines Field.all (by decide)⟩

/-- The largest number of calls is read back, from two lines that change places. -/
theorem decode_undoes_text_largest :
    let settings : Settings := ⟨9223372036854775807, utf8 "never", true, utf8 "monkey.yaml"⟩
    settings.check = .ok () ∧ settings.maxCallDepth < 9223372036854775808 ∧
      [Field.showEnv, Field.maxCallDepth].Nodup ∧
      decode Yaml.library (.ok (utf8 "show_env: true\nmax_call_depth: 9223372036854775807\n"))
        = .ok ⟨9223372036854775807, utf8 "auto", true, []⟩ ∧
      ∃ document, settings.text Yaml.library = .ok document ∧
        decode Yaml.library (.ok document) = .ok { settings with path := [] } := by
  intro settings
  have hcheck : settings.check = .ok () := by decide +kernel
  have hdepth : settings.maxCallDepth < 9223372036854775808 := by decide +kernel
  have hfields : [Field.showEnv, Field.maxCallDepth].Nodup := by decide
  have hlines : ([Field.showEnv, Field.maxCallDepth].map settings.fieldLine).flatten =
      utf8 "show_env: true\nmax_call_depth: 9223372036854775807\n" := by
    decide +kernel
  have hadopted : settings.adopted [Field.showEnv, Field.maxCallDepth] =
      ⟨9223372036854775807, utf8 "auto", true, []⟩ := by
    decide +kernel
  obtain ⟨hdecodes, document, htext, -, hdecode⟩ :=
    decode_undoes_text Yaml.library_lawful settings hcheck hdepth
  refine ⟨hcheck, hdepth, hfields, ?_, document, htext, hdecode⟩
  rw [← hlines, ← hadopted]
  exact hdecodes _ hfields

end Settings

end TreeWalk
