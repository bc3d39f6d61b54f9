import TreeWalk.Token.Scan

/-!
# How tokens are spelled

Which bytes spell which token, said without the scanner.  Reserved words and signs have one spelling
each, names and numerals spell themselves, and a quoted text may be spelled in several ways, since a
line feed or a tab may stand for itself or be escaped.  A token ends where no byte follows that
would continue it.

Reading a token is then characterised in both directions: a text that starts with the spelling of a
token, and does not continue it, is read as that token; and whatever is read is spelled by the bytes
it takes, or else is illegal for one of four stated reasons.

## Main definitions

* `Spelling.blanks`, `Spelling.letters`, `Spelling.digits`, `Spelling.escapes` — kinds of bytes.
* `Spelling.reserved`, `Spelling.signTexts` — the texts of the reserved words and of the signs.
* `Quoting` — a content, and how it may stand between quotes.
* `Written` — a token, and how it may be spelled.
* `Kind.continuation`, `Ends` — what may not follow a token.
* `Spelled` — what a token takes from a text, illegal ones included.

## Main results

* `Reading.read_of_written` — **what is spelled as a token is read as that token.**
* `Reading.read_spelled` — **whatever is read is spelled by the bytes it takes.**
-/

namespace TreeWalk

/-! ### Bytes -/

namespace Spelling

/-- The bytes that separate tokens. -/
def blanks : Bytes := utf8 " \t\r\n"

/-- The bytes that start names. -/
def letters : Bytes := utf8 "abcdefghijklmnopqrstuvwxyzABCDEFGHIJKLMNOPQRSTUVWXYZ_"

/-- The decimal digits. -/
def digits : Bytes := utf8 "0123456789"

/-- The bytes that start signs. -/
def signs : Bytes := utf8 "()\x7b\x7d,;+-*/<>!="

/-- The byte around quoted texts. -/
def quoteMark : UInt8 := ascii '"'

/-- The byte that starts an escape. -/
def backslash : UInt8 := ascii '\\'

/-- The letters of escapes and the bytes they stand for. -/
def escapes : List (UInt8 × UInt8) :=
  [(ascii 'n', ascii '\n'), (ascii 't', ascii '\t'), (backslash, backslash), (quoteMark, quoteMark)]

/-- What `List.all` checks for each element of a list holds of all of them. -/
theorem forall_mem_of_all {α : Type} {p : α → Prop} [DecidablePred p] {list : List α}
    (h : list.all fun a => p a) : ∀ a ∈ list, p a := by
  simpa using h

/-- What holds of `UInt8.ofNat n` for the numbers below 256 holds of all bytes. -/
theorem forall_byte {p : UInt8 → Prop} (h : ∀ n < 256, p (UInt8.ofNat n)) (b : UInt8) : p b := by
  have hb := h b.toNat b.toNat_lt
  rwa [UInt8.ofNat_toNat] at hb

theorem isBlank_iff (b : UInt8) : isBlank b ↔ b ∈ blanks := by
  revert b
  apply forall_byte
  decide +kernel

theorem isDigit_iff (b : UInt8) : isDigit b ↔ b ∈ digits := by
  revert b
  apply forall_byte
  decide +kernel

theorem isLetter_iff (b : UInt8) : isLetter b ↔ b ∈ letters := by
  revert b
  apply forall_byte
  decide +kernel

theorem isNameByte_iff (b : UInt8) : isNameByte b ↔ b ∈ letters ++ digits := by
  rw [isNameByte, Bool.or_eq_true, isLetter_iff, isDigit_iff, List.mem_append]

/-- A letter starts nothing but a name: no sign and no quoted text. -/
theorem of_isLetter (b : UInt8) : isLetter b →
    Kind.sign? b = none ∧ b ≠ ascii '"' ∧ b ≠ ascii '!' ∧ b ≠ ascii '=' := by
  revert b
  apply forall_byte
  decide +kernel

/-- A digit starts nothing but a numeral: no sign, no quoted text and no name. -/
theorem of_isDigit (b : UInt8) : isDigit b →
    Kind.sign? b = none ∧ b ≠ ascii '"' ∧ b ≠ ascii '!' ∧ b ≠ ascii '=' ∧ ¬ isLetter b := by
  revert b
  apply forall_byte
  decide +kernel

/-- A byte that `Kind.sign?` does not know, and that is neither `!` nor `=`, is none of `signs`. -/
theorem not_mem_signs (b : UInt8) : Kind.sign? b = none ∧ b ≠ ascii '!' ∧ b ≠ ascii '=' →
    b ∉ signs := by
  revert b
  apply forall_byte
  decide +kernel

/-- `escape?` knows exactly the `escapes`. -/
theorem escape?_eq_some_iff {letter b : UInt8} :
    escape? letter = some b ↔ (letter, b) ∈ escapes := by
  constructor
  · intro h
    have hall : ∀ letter, (escape? letter).all fun b => (letter, b) ∈ escapes := by
      apply forall_byte
      decide +kernel
    have hletter := hall letter
    rw [h] at hletter
    simpa using hletter
  · intro h
    have hall : ∀ entry ∈ escapes, escape? entry.1 = some entry.2 := forall_mem_of_all (by decide)
    exact hall _ h

end Spelling

open Spelling

/-- A run of blanks. -/
def IsGap (text : Bytes) : Prop := ∀ b ∈ text, b ∈ blanks

instance : DecidablePred IsGap := fun text => List.decidableBAll (· ∈ blanks) text

theorem isGap_nil : IsGap [] := fun _ h => absurd h List.not_mem_nil

/-- A name: a letter, and letters and digits behind it. -/
def IsName : Bytes → Prop
  | [] => False
  | b :: more => b ∈ letters ∧ ∀ c ∈ more, c ∈ letters ++ digits

instance : DecidablePred IsName
  | [] => instDecidableFalse
  | _ :: more =>
    have := List.decidableBAll (· ∈ letters ++ digits) more
    instDecidableAnd

/-- A numeral: digits, at least one. -/
def IsNumeral (text : Bytes) : Prop := text ≠ [] ∧ ∀ b ∈ text, b ∈ digits

instance : DecidablePred IsNumeral := fun text =>
  have := List.decidableBAll (· ∈ digits) text
  instDecidableAnd

/-! ### The texts of tokens -/

namespace Spelling

/-- The reserved words. -/
def reserved : List (Kind × Bytes) :=
  [(.fnWord, utf8 "fn"), (.letWord, utf8 "let"), (.trueWord, utf8 "true"),
    (.falseWord, utf8 "false"), (.ifWord, utf8 "if"), (.elseWord, utf8 "else"),
    (.returnWord, utf8 "return")]

/-- The signs. -/
def signTexts : List (Kind × Bytes) :=
  [(.openParen, utf8 "("), (.closeParen, utf8 ")"), (.openBrace, utf8 "\x7b"),
    (.closeBrace, utf8 "\x7d"), (.comma, utf8 ","), (.semicolon, utf8 ";"), (.equal, utf8 "="),
    (.bang, utf8 "!"), (.bangEqual, utf8 "!="), (.equalEqual, utf8 "=="), (.greater, utf8 ">"),
    (.less, utf8 "<"), (.plus, utf8 "+"), (.minus, utf8 "-"), (.star, utf8 "*"),
    (.slash, utf8 "/")]

/-- `Kind.keyword?` knows exactly the words in `reserved`. -/
theorem keyword?_eq_some_iff {text : Bytes} {kind : Kind} :
    Kind.keyword? text = some kind ↔ (kind, text) ∈ reserved := by
  constructor
  · intro h
    obtain ⟨before, after, hkeywords, -⟩ := List.lookup_eq_some_iff.mp h
    have hmem : (text, kind) ∈ Kind.keywords := by simp [hkeywords]
    have hall : ∀ entry ∈ Kind.keywords, (entry.2, entry.1) ∈ reserved := by decide
    exact hall _ hmem
  · intro h
    have hall : ∀ entry ∈ reserved, Kind.keyword? entry.2 = some entry.1 := by decide
    exact hall _ h

end Spelling

namespace Kind

/-- Whether tokens of this kind are names or reserved words. -/
def isWordlike (kind : Kind) : Bool := kind = ident || kind ∈ reserved.map (·.1)

/-- The bytes that would continue a token of the given `kind`. -/
def continuation (kind : Kind) : Bytes :=
  if kind.isWordlike then letters ++ digits
  else if kind = int then digits
  else if kind = equal || kind = bang then [ascii '=']
  else []

theorem isWordlike_of_mem_reserved {kind : Kind} {text : Bytes} (h : (kind, text) ∈ reserved) :
    kind.isWordlike := by
  have hkind : kind ∈ reserved.map (·.1) := List.mem_map_of_mem h
  simp [isWordlike, hkind]

theorem continuation_of_mem_reserved {kind : Kind} {text : Bytes} (h : (kind, text) ∈ reserved) :
    kind.continuation = letters ++ digits := if_pos (isWordlike_of_mem_reserved h)

end Kind

/-- A content, and a text that stands for it between quotes: every byte stands for itself, NUL, the
quote and the backslash apart, or is escaped. -/
inductive Quoting : Bytes → Bytes → Prop
  /-- Nothing. -/
  | nil : Quoting [] []
  /-- A byte that stands for itself. -/
  | plain {b : UInt8} {content text : Bytes} (h : b ∉ [0, quoteMark, backslash])
      (more : Quoting content text) : Quoting (b :: content) (b :: text)
  /-- An escape. -/
  | escaped {letter b : UInt8} {content text : Bytes} (h : (letter, b) ∈ escapes)
      (more : Quoting content text) : Quoting (b :: content) (backslash :: letter :: text)

/-- `Written kind lexeme raw`: the bytes `raw` spell a token with the given kind and text. -/
inductive Written : Kind → Bytes → Bytes → Prop
  /-- A reserved word. -/
  | word {kind : Kind} {text : Bytes} (h : (kind, text) ∈ reserved) : Written kind text text
  /-- A sign. -/
  | sign {kind : Kind} {text : Bytes} (h : (kind, text) ∈ signTexts) : Written kind text text
  /-- A name that is not reserved. -/
  | name {text : Bytes} (h : IsName text) (free : text ∉ reserved.map (·.2)) :
      Written .ident text text
  /-- A numeral. -/
  | numeral {text : Bytes} (h : IsNumeral text) : Written .int text text
  /-- A quoted text. -/
  | quoted {content text : Bytes} (h : Quoting content text) :
      Written .string content (quoteMark :: (text ++ [quoteMark]))

/-- What stands behind a token, `after`, does not start with a byte of its `continuation`. -/
def Ends (kind : Kind) (after : Bytes) : Prop := ∀ b ∈ after.head?, b ∉ kind.continuation

/-- A text ends here: there is no byte, or a NUL byte. -/
def AtEnd (text : Bytes) : Prop := text = [] ∨ ∃ more, text = 0 :: more

/-- `Spelled finish after kind lexeme raw`: in a text of which `finish` is never read, the bytes
`raw`, with `after` behind them, make a token with the given kind and text. -/
inductive Spelled (finish after : Bytes) : Kind → Bytes → Bytes → Prop
  /-- A token in its longest possible spelling. -/
  | token {kind : Kind} {lexeme raw : Bytes} (h : Written kind lexeme raw)
      (ends : Ends kind after) : Spelled finish after kind lexeme raw
  /-- A byte that starts no token. -/
  | stray {b : UInt8} (h : b ∉ blanks ++ letters ++ digits ++ signs ++ [0, quoteMark]) :
      Spelled finish after .illegal [b] [b]
  /-- A quoted text that does not end before the input does. -/
  | unclosed {content text : Bytes} (h : Quoting content text) (ends : after = finish) :
      Spelled finish after .illegal (quoteMark :: content) (quoteMark :: text)
  /-- A quoted text up to a backslash with a byte behind it that is the letter of no escape. -/
  | badEscape {content text : Bytes} {letter : UInt8} (h : Quoting content text)
      (bad : ∀ b, (letter, b) ∉ escapes) :
      Spelled finish after .illegal
        (backslash :: String.utf8EncodeChar (Char.ofNat letter.toNat))
        (quoteMark :: (text ++ [backslash, letter]))
  /-- A quoted text up to a backslash that is the last byte of all. -/
  | cutEscape {content text : Bytes} (h : Quoting content text) (last : after = []) :
      Spelled finish after .illegal [backslash, 0] (quoteMark :: (text ++ [backslash]))

/-! ### What is spelled is read -/

/-- A `run` of bytes of which `p` holds, up to a byte of which it does not, is what `takeWhile`
takes and `dropWhile` drops. -/
theorem takeWhile_dropWhile_run {p : UInt8 → Bool} {run after : Bytes} (hrun : ∀ b ∈ run, p b)
    (hafter : ∀ b ∈ after.head?, ¬ p b) :
    (run ++ after).takeWhile p = run ∧ (run ++ after).dropWhile p = after := by
  rw [List.takeWhile_append_of_pos hrun, List.dropWhile_append_of_pos hrun]
  cases after with
  | nil => simp
  | cons b more =>
    have hb : ¬ p b := hafter b rfl
    simp [hb]

/-- A `content` that is quoted is read by `Quoted.read` up to its closing quote. -/
theorem Quoting.read {content text : Bytes} (h : Quoting content text) (after : Bytes) :
    Quoted.read (text ++ quoteMark :: after) = ⟨content, .closed, text ++ [quoteMark], after⟩ := by
  induction h with
  | nil =>
    rw [List.nil_append, Quoted.read.eq_def]
    rfl
  | @plain b content text hb _ ih =>
    simp only [List.mem_cons, List.not_mem_nil, or_false, not_or, quoteMark, backslash] at hb
    rw [List.cons_append, Quoted.read.eq_def]
    simp only [if_neg hb.1, if_neg hb.2.1, if_neg hb.2.2]
    rw [ih]
    rfl
  | @escaped letter b content text hletter _ ih =>
    have hescape := escape?_eq_some_iff.mpr hletter
    rw [List.cons_append, List.cons_append, Quoted.read, if_neg (by decide), if_neg (by decide),
      if_pos (by decide), hescape]
    simp only
    rw [ih]
    rfl

namespace Reading

theorem read_name {b : UInt8} {more after : Bytes} (h : IsName (b :: more))
    (hafter : ∀ c ∈ after.head?, c ∉ letters ++ digits) :
    read b (more ++ after) =
      plain ((Kind.keyword? (b :: more)).getD .ident) (b :: more) after := by
  obtain ⟨hb, hmore⟩ := h
  have hletter := (isLetter_iff b).mpr hb
  obtain ⟨hsign, hquote, hbang, hequal⟩ := of_isLetter b hletter
  obtain ⟨htake, hdrop⟩ := takeWhile_dropWhile_run (p := isNameByte)
    (fun c hc => (isNameByte_iff c).mpr (hmore c hc))
    (fun c hc => mt (isNameByte_iff c).mp (hafter c hc))
  rw [read, hsign]
  simp only [if_neg hquote, if_neg hbang, if_neg hequal, if_pos hletter, htake, hdrop]

theorem read_numeral {b : UInt8} {more after : Bytes} (h : IsNumeral (b :: more))
    (hafter : ∀ c ∈ after.head?, c ∉ digits) :
    read b (more ++ after) = plain .int (b :: more) after := by
  have hdigits := List.forall_mem_cons.mp h.2
  have hdigit := (isDigit_iff b).mpr hdigits.1
  obtain ⟨hsign, hquote, hbang, hequal, hletter⟩ := of_isDigit b hdigit
  obtain ⟨htake, hdrop⟩ := takeWhile_dropWhile_run (p := isDigit)
    (fun c hc => (isDigit_iff c).mpr (hdigits.2 c hc))
    (fun c hc => mt (isDigit_iff c).mp (hafter c hc))
  rw [read, hsign]
  simp only [if_neg hquote, if_neg hbang, if_neg hequal, if_neg hletter, if_pos hdigit, htake,
    hdrop]

/-- A sign `short` that no `=` follows does not grow into `long`. -/
theorem beforeEqual_of_ne (short long : Kind) (b : UInt8) {after : Bytes}
    (h : ∀ c ∈ after.head?, c ≠ ascii '=') :
    beforeEqual short long b after = plain short [b] after := by
  cases after with
  | nil => rfl
  | cons c more => exact if_neg (h c rfl)

theorem read_sign {kind : Kind} {b : UInt8} {more after : Bytes}
    (h : (kind, b :: more) ∈ signTexts) (hends : Ends kind after) :
    read b (more ++ after) = plain kind (b :: more) after := by
  -- Four signs are told apart by what follows them; any other is one byte that says its kind.
  have hall : ∀ entry ∈ signTexts,
      entry.2.length = 1 ∧ entry.2.head?.bind Kind.sign? = some entry.1 ∨
      entry ∈ [(.equal, [ascii '=']), (.equalEqual, [ascii '=', ascii '=']),
        (.bang, [ascii '!']), (.bangEqual, [ascii '!', ascii '='])] := by decide
  have hne (hgrows : ascii '=' ∈ kind.continuation) : ∀ c ∈ after.head?, c ≠ ascii '=' := by
    rintro c hc rfl
    exact hends _ hc hgrows
  rcases hall _ h with ⟨hone, hsign⟩ | hfour
  · have hmore : more = [] := List.eq_nil_of_length_eq_zero (Nat.succ.inj hone)
    subst hmore
    rw [read, show Kind.sign? b = some kind from hsign]
    rfl
  · simp only [List.mem_cons, Prod.mk.injEq, List.cons.injEq, List.not_mem_nil, or_false] at hfour
    rcases hfour with ⟨rfl, rfl, rfl⟩ | ⟨rfl, rfl, rfl⟩ | ⟨rfl, rfl, rfl⟩ | ⟨rfl, rfl, rfl⟩
    · exact beforeEqual_of_ne _ _ _ (hne (by decide))
    · rfl
    · exact beforeEqual_of_ne _ _ _ (hne (by decide))
    · rfl

/-- **What is spelled as a token is read as that token**, if nothing follows that continues it:
`read` is complete for `Written`. -/
theorem read_of_written {kind : Kind} {lexeme after more : Bytes} {b : UInt8}
    (h : Written kind lexeme (b :: more)) (hends : Ends kind after) :
    read b (more ++ after) = ⟨kind, lexeme, b :: more, after⟩ := by
  obtain ⟨raw, hraw⟩ : ∃ raw, raw = b :: more := ⟨_, rfl⟩
  rw [← hraw] at h
  cases h with
  | word hword =>
    -- a reserved word is a name that `Kind.keyword?` knows
    subst hraw
    have hnames : ∀ entry ∈ reserved, IsName entry.2 := by decide
    rw [Ends, Kind.continuation_of_mem_reserved hword] at hends
    rw [read_name (hnames _ hword) hends, keyword?_eq_some_iff.mpr hword]
    rfl
  | sign hsign =>
    subst hraw
    exact read_sign hsign hends
  | name hname hfree =>
    subst hraw
    -- any other name is not known, and stays one
    have hkeyword : Kind.keyword? (b :: more) = none := by
      rw [Option.eq_none_iff_forall_ne_some]
      intro kind hkind
      exact hfree (List.mem_map_of_mem (keyword?_eq_some_iff.mp hkind))
    rw [read_name hname hends, hkeyword]
    rfl
  | numeral hnumeral =>
    subst hraw
    exact read_numeral hnumeral hends
  | @quoted content text hquoting =>
    obtain ⟨rfl, rfl⟩ := List.cons.inj hraw.symm
    have hread := hquoting.read after
    rw [List.append_assoc, List.cons_append, List.nil_append]
    show ofQuoted quoteMark (Quoted.read (text ++ quoteMark :: after)) = _
    rw [hread]
    rfl

end Reading

/-! ### What is read is spelled -/

/-- How a quoted text was read, by its end: the bytes that were taken are a `Quoting` of the
content, and whatever the end takes. -/
def Quoted.Sound (quoted : Quoted) : Prop :=
  match quoted.ending with
  | .closed => ∃ text, quoted.raw = text ++ [quoteMark] ∧ Quoting quoted.content text
  | .unclosed => Quoting quoted.content quoted.raw ∧ AtEnd quoted.rest
  | .badEscape letter => ∃ text, Quoting quoted.content text ∧
    (quoted.raw = text ++ [backslash, letter] ∧ (∀ b, (letter, b) ∉ escapes) ∨
      letter = 0 ∧ quoted.raw = text ++ [backslash] ∧ quoted.rest = [])

/-- The same with one more byte of content in front of a quoted text. -/
theorem Quoted.Sound.push {quoted : Quoted} (h : quoted.Sound) {b : UInt8} {raw : Bytes}
    (hpush : ∀ content text, Quoting content text → Quoting (b :: content) (raw ++ text)) :
    (quoted.push b raw).Sound := by
  obtain ⟨content, ending, taken, rest⟩ := quoted
  cases ending with
  | closed =>
    obtain ⟨text, rfl, hquoting⟩ := h
    exact ⟨raw ++ text, by simp [Quoted.push], hpush _ _ hquoting⟩
  | unclosed => exact ⟨hpush _ _ h.1, h.2⟩
  | badEscape letter =>
    obtain ⟨text, hquoting, ⟨rfl, hbad⟩ | ⟨hletter, rfl, hrest⟩⟩ := h
    · exact ⟨raw ++ text, hpush _ _ hquoting, .inl ⟨by simp [Quoted.push], hbad⟩⟩
    · exact ⟨raw ++ text, hpush _ _ hquoting, .inr ⟨hletter, by simp [Quoted.push], hrest⟩⟩

/-- A quoted text is read as it is spelled, by the recursion of `Quoted.read`. -/
theorem Quoted.read_sound (text : Bytes) : (Quoted.read text).Sound := by
  fun_induction Quoted.read text with
  | case1 => exact ⟨.nil, .inl rfl⟩
  | case2 rest => exact ⟨.nil, .inr ⟨rest, rfl⟩⟩
  | case3 rest hzero => exact ⟨[], rfl, .nil⟩
  | case4 hzero hquote => exact ⟨[], .nil, .inr ⟨rfl, rfl, rfl⟩⟩
  | case5 letter rest b hescape hzero hquote ih =>
    exact ih.push fun content text hquoting => .escaped (escape?_eq_some_iff.mp hescape) hquoting
  | case6 letter rest hescape hzero hquote =>
    refine ⟨[], .nil, .inl ⟨rfl, fun b hb => ?_⟩⟩
    rw [escape?_eq_some_iff.mpr hb] at hescape
    exact absurd hescape (by simp)
  | case7 b rest hzero hquote hbackslash ih =>
    have hb : b ∉ [0, quoteMark, backslash] := by
      simp only [List.mem_cons, List.not_mem_nil, or_false, not_or]
      exact ⟨hzero, hquote, hbackslash⟩
    exact ih.push fun content text hquoting => .plain hb hquoting

/-- The byte where `dropWhile` stops is one of which `p` does not hold. -/
theorem not_of_mem_head?_dropWhile {p : UInt8 → Bool} {text : Bytes} :
    ∀ b ∈ (text.dropWhile p).head?, ¬ p b := by
  intro b hb
  rw [Option.mem_def] at hb
  have hnot := List.head?_dropWhile_not p text
  rw [hb] at hnot
  simpa using hnot

namespace Reading

theorem ofQuoted_spelled {finish : Bytes} {quoted : Quoted} (h : quoted.Sound)
    (hfinish : AtEnd quoted.rest → quoted.rest = finish) :
    let reading := ofQuoted quoteMark quoted
    Spelled finish reading.rest reading.kind reading.lexeme reading.raw := by
  obtain ⟨content, ending, raw, rest⟩ := quoted
  cases ending with
  | closed =>
    obtain ⟨text, rfl, hquoting⟩ := h
    exact .token (.quoted hquoting) fun b _ => List.not_mem_nil
  | unclosed => exact .unclosed h.1 (hfinish h.2)
  | badEscape letter =>
    obtain ⟨text, hquoting, ⟨rfl, hbad⟩ | ⟨rfl, rfl, hrest⟩⟩ := h
    · exact .badEscape hquoting hbad
    · exact .cutEscape hquoting hrest

theorem beforeEqual_spelled {finish : Bytes} {short long : Kind} {b : UInt8} (rest : Bytes)
    (hshort : (short, [b]) ∈ signTexts) (hlong : (long, [b, ascii '=']) ∈ signTexts)
    (hcontinued : short.continuation = [ascii '=']) (hlast : long.continuation = []) :
    let reading := beforeEqual short long b rest
    Spelled finish reading.rest reading.kind reading.lexeme reading.raw := by
  cases rest with
  | nil => exact .token (.sign hshort) fun c hc => absurd hc (by simp [beforeEqual, plain])
  | cons e more =>
    by_cases he : e = ascii '='
    · rw [beforeEqual, if_pos he, he]
      refine .token (.sign hlong) fun c _ => ?_
      show c ∉ long.continuation
      rw [hlast]
      exact List.not_mem_nil
    · rw [beforeEqual, if_neg he]
      refine .token (.sign hshort) fun c hc => ?_
      obtain rfl : e = c := Option.some.inj hc
      show e ∉ short.continuation
      rw [hcontinued]
      simpa using he

/-- A sign of one byte is the text of its kind in `signTexts`, and nothing continues it. -/
theorem mem_signTexts_of_sign? {b : UInt8} {kind : Kind} (h : Kind.sign? b = some kind) :
    (kind, [b]) ∈ signTexts ∧ kind.continuation = [] := by
  have hall : ∀ b, (Kind.sign? b).all fun kind =>
      (kind, [b]) ∈ signTexts ∧ kind.continuation = [] := by
    apply forall_byte
    decide +kernel
  have hb := hall b
  rw [h] at hb
  simpa using hb

theorem name_spelled {finish : Bytes} {b : UInt8} (hb : b ∈ letters) (rest : Bytes) :
    let word := b :: rest.takeWhile isNameByte
    Spelled finish (rest.dropWhile isNameByte) ((Kind.keyword? word).getD .ident) word word := by
  intro word
  have hname : IsName word := ⟨hb, fun c hc =>
    (isNameByte_iff c).mp (List.all_eq_true.mp List.all_takeWhile c hc)⟩
  have hafter : ∀ c ∈ (rest.dropWhile isNameByte).head?, c ∉ letters ++ digits := fun c hc =>
    mt (isNameByte_iff c).mpr (not_of_mem_head?_dropWhile c hc)
  cases hkeyword : Kind.keyword? word with
  | none =>
    refine .token (.name hname fun hmem => ?_) hafter
    obtain ⟨⟨kind, text⟩, hreserved, rfl⟩ := List.mem_map.mp hmem
    rw [keyword?_eq_some_iff.mpr hreserved] at hkeyword
    exact absurd hkeyword (by simp)
  | some kind =>
    have hword := keyword?_eq_some_iff.mp hkeyword
    refine .token (.word hword) ?_
    rw [Option.getD_some, Ends, Kind.continuation_of_mem_reserved hword]
    exact hafter

theorem numeral_spelled {finish : Bytes} {b : UInt8} (hb : b ∈ digits) (rest : Bytes) :
    let text := b :: rest.takeWhile isDigit
    Spelled finish (rest.dropWhile isDigit) .int text text := by
  intro text
  have hnumeral : IsNumeral text := by
    refine ⟨List.cons_ne_nil _ _, List.forall_mem_cons.mpr ⟨hb, fun c hc => ?_⟩⟩
    exact (isDigit_iff c).mp (List.all_eq_true.mp List.all_takeWhile c hc)
  exact .token (.numeral hnumeral) fun c hc =>
    mt (isDigit_iff c).mpr (not_of_mem_head?_dropWhile c hc)

/-- **Whatever is read is spelled by the bytes it takes**: `read` is sound for `Spelled`, in all of
its branches. -/
theorem read_spelled {finish : Bytes} {b : UInt8} {rest : Bytes} (hblank : b ∉ blanks)
    (hzero : b ≠ 0) (hfinish : AtEnd (read b rest).rest → (read b rest).rest = finish) :
    let reading := read b rest
    Spelled finish reading.rest reading.kind reading.lexeme reading.raw := by
  unfold read at hfinish ⊢
  split
  · next kind hsign =>
    obtain ⟨htext, hlast⟩ := mem_signTexts_of_sign? hsign
    refine .token (.sign htext) fun c _ => ?_
    show c ∉ kind.continuation
    rw [hlast]
    exact List.not_mem_nil
  · next hsign =>
    rw [hsign] at hfinish
    simp only at hfinish
    by_cases hquote : b = ascii '"'
    · -- only a quoted text can run into the end of the input, so only here its end matters
      subst hquote
      rw [if_pos rfl] at hfinish ⊢
      have hrest : (ofQuoted (ascii '"') (Quoted.read rest)).rest = (Quoted.read rest).rest := by
        rw [ofQuoted]
        split <;> rfl
      rw [hrest] at hfinish
      exact ofQuoted_spelled (Quoted.read_sound rest) hfinish
    rw [if_neg hquote]
    by_cases hbang : b = ascii '!'
    · subst hbang
      exact beforeEqual_spelled rest (by decide) (by decide) (by decide) (by decide)
    rw [if_neg hbang]
    by_cases hequal : b = ascii '='
    · subst hequal
      exact beforeEqual_spelled rest (by decide) (by decide) (by decide) (by decide)
    rw [if_neg hequal]
    by_cases hletter : isLetter b
    · rw [if_pos hletter]
      exact name_spelled ((isLetter_iff b).mp hletter) rest
    rw [if_neg hletter]
    by_cases hdigit : isDigit b
    · rw [if_pos hdigit]
      exact numeral_spelled ((isDigit_iff b).mp hdigit) rest
    rw [if_neg hdigit]
    -- what is left starts nothing
    refine .stray ?_
    simp only [List.mem_append, List.mem_cons, List.not_mem_nil, or_false, not_or]
    exact ⟨⟨⟨⟨hblank, mt (isLetter_iff b).mpr hletter⟩, mt (isDigit_iff b).mpr hdigit⟩,
      not_mem_signs b ⟨hsign, hbang, hequal⟩⟩, hzero, hquote⟩

end Reading

end TreeWalk
