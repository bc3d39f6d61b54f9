import TreeWalk.Proofs.YamlWords
import TreeWalk.Yaml.Read

/-!
# Lines of words in YAML

A text of lines `key: value`, in which keys and values are words, is a document with one mapping;
lines of comments in front of the keys make no difference but to the numbers of the lines.
Its tokens come in the order of the lines, but they are read ahead of being taken, and the sign of a
key is put in front of a token that was read before.  So what is known of a stream is not what it
holds but what is still to be taken from it: reading ahead leaves that as it is, and taking a token
takes its head away (`Yaml.Stream.Stands`).

## Main definitions

* `Yaml.Entry`, `Yaml.Entry.lines`, `Yaml.Entry.tokens`, `Yaml.Entry.nodes` — entries, and how they
  look as a text, as tokens and as nodes.
* `Yaml.Stream.Stands` — the tokens that are still to be taken from a stream.
* `Yaml.Reader.Awaits` — the tokens that a reader has before it.

## Main results

* `Yaml.Stream.Stands.fetch`, `Yaml.Stream.Stands.fill`, `Yaml.Stream.Stands.take` — reading ahead
  and taking tokens.
* `Yaml.Reader.Awaits.blockEntries` — the entries of a mapping.
* `Yaml.read?_lines` — **lines of words are read as a mapping.**
-/

namespace TreeWalk.Yaml

/-! ### Lines -/

/-- A key and its value, both of them words, with comments in front. -/
structure Entry where
  /-- The comments. -/
  comments : List Comment
  /-- The key. -/
  key : Word
  /-- The value. -/
  value : Word

namespace Entry

/-- Entries as a text: each `entry` on a line of its own, behind its comments. -/
def lines : List Entry → List Char
  | [] => []
  | entry :: more =>
    commentLines entry.comments ++
      (entry.key.chars ++ ':' :: ' ' :: (entry.value.chars ++ '\n' :: lines more))

/-- The line of the first of several entries, the comments in front of which start in `line`. -/
def firstLine : List Entry → Nat → Nat
  | [], line => line
  | entry :: _, line => line + entry.comments.length

/-- The tokens of entries from `line` on, and of what follows them. -/
def tokens : List Entry → Nat → List Token
  | [], line => [⟨.blockEnd, line⟩, ⟨.finish, line⟩]
  | entry :: more, line =>
    let line := line + entry.comments.length
    ⟨.key, line⟩ :: ⟨.scalar .plain (String.ofList entry.key.chars), line⟩ ::
      ⟨.value, line⟩ :: ⟨.scalar .plain (String.ofList entry.value.chars), line⟩ ::
      tokens more (line + 1)

/-- The nodes of entries from `line` on: pairs of a key and a value. -/
def nodes : List Entry → Nat → List (Node × Node)
  | [], _ => []
  | entry :: more, line =>
    let line := line + entry.comments.length
    (.scalar line none .plain (String.ofList entry.key.chars),
      .scalar line none .plain (String.ofList entry.value.chars)) :: nodes more (line + 1)

theorem startsLine_lines (entries : List Entry) : Cursor.StartsLine (lines entries) := by
  cases entries with
  | nil => exact fun c hc => absurd hc (by simp [lines])
  | cons entry more =>
    rw [lines]
    cases entry.comments with
    | nil => exact Cursor.startsLine_append entry.key _
    | cons comment others =>
      intro c hc
      obtain rfl : '#' = c := Option.some.inj hc
      decide

end Entry

namespace Stream

/-- A stream stands among entries: `all` are the tokens that were not taken yet, whether they were
read or not.  Behind them the end of the text is read again and again. -/
inductive Stands (fuel : Nat) : Stream → List Token → Prop
  /-- At the start of a line. -/
  | line {first : Bool} {entries : List Entry} {index line breaks taken last : Nat}
      {tokens : List Token} (hlength : (Entry.lines entries).length ≤ 1024)
      (hfuel : (Entry.lines entries).length + 4 ≤ fuel) (hfirst : first → entries ≠ []) :
      Stands fuel ⟨.loaded (Entry.lines entries) index line 0 breaks, tokens, taken, true, 0,
          indentOf first, outerOf first, ⟨none, last⟩, []⟩
        (tokens ++ openingOf first (Entry.firstLine entries line) ++ Entry.tokens entries line)
  /-- At the colon behind a key. -/
  | colon {first : Bool} {key value : Word} {more : List Entry} {index line taken last : Nat}
      {tokens : List Token}
      (hlength : (key.chars ++ value.chars ++ '\n' :: Entry.lines more).length ≤ 1024)
      (hfuel : (key.chars ++ value.chars ++ '\n' :: Entry.lines more).length + 4 ≤ fuel) :
      Stands fuel ⟨.loaded (':' :: ' ' :: (value.chars ++ '\n' :: Entry.lines more))
          (index + key.chars.length) line key.chars.length 0,
          tokens ++ [⟨.scalar .plain (String.ofList key.chars), line⟩], taken, false, 0,
          indentOf first, outerOf first,
          ⟨some ⟨taken + tokens.length, !first, index, line, 0, true⟩, last⟩, []⟩
        (tokens ++ openingOf first line ++ [⟨.key, line⟩,
          ⟨.scalar .plain (String.ofList key.chars), line⟩, ⟨.value, line⟩] ++
          ⟨.scalar .plain (String.ofList value.chars), line⟩ :: Entry.tokens more (line + 1))
  /-- In front of a value. -/
  | value {value : Word} {more : List Entry} {index line column taken last : Nat}
      {tokens : List Token} (hlength : (value.chars ++ '\n' :: Entry.lines more).length ≤ 1024)
      (hfuel : (value.chars ++ '\n' :: Entry.lines more).length + 4 ≤ fuel) :
      Stands fuel ⟨.loaded (' ' :: (value.chars ++ '\n' :: Entry.lines more)) index line column 0,
          tokens, taken, false, 0, 0, [-1], ⟨none, last⟩, []⟩
        (tokens ++ ⟨.scalar .plain (String.ofList value.chars), line⟩ ::
          Entry.tokens more (line + 1))
  /-- At the end. -/
  | finished {index line breaks taken last : Nat} {tokens all : List Token} (count : Nat)
      (htokens : tokens = all ++ List.replicate count ⟨.finish, line⟩) (hfuel : 4 ≤ fuel) :
      Stands fuel ⟨.loaded [] index line 0 breaks, tokens, taken, false, 0, -1, [], ⟨none, last⟩,
        []⟩ all

variable {fuel : Nat} {stream : Stream} {all : List Token}

/-- **Reading another token stays among the entries**: `fetch` succeeds, and the stream `Stands`
before the same tokens. -/
theorem Stands.fetch (h : Stands fuel stream all) :
    ∃ next, stream.fetch fuel = some next ∧ Stands fuel next all ∧
      stream.tokens.length < next.tokens.length := by
  cases h with
  | @line first entries index line breaks taken last tokens hlength hfuel hfirst =>
    cases entries with
    | nil =>
      obtain rfl : first = false := Bool.eq_false_iff.2 fun h => hfirst h rfl
      have hfour : 4 ≤ fuel := Nat.le_of_add_left_le hfuel
      refine ⟨_, fetch_end (by omega), .finished 0 ?_ hfour, by simp⟩
      simp [openingOf, Entry.tokens]
    | cons entry more =>
      simp only [Entry.lines, List.length_append, List.length_cons] at hlength hfuel
      refine ⟨_, fetch_key entry.key _ entry.comments (by omega), ?_, by simp⟩
      -- the key stands in front of its colon now; the signs for it come when the colon is read
      have hall : tokens ++ openingOf first (Entry.firstLine (entry :: more) line) ++
            Entry.tokens (entry :: more) line =
          tokens ++ openingOf first (line + entry.comments.length) ++
            [⟨.key, line + entry.comments.length⟩,
              ⟨.scalar .plain (String.ofList entry.key.chars), line + entry.comments.length⟩,
              ⟨.value, line + entry.comments.length⟩] ++
            ⟨.scalar .plain (String.ofList entry.value.chars), line + entry.comments.length⟩ ::
              Entry.tokens more (line + entry.comments.length + 1) := by
        simp [Entry.tokens, Entry.firstLine]
      rw [hall]
      refine .colon ?_ ?_
      · simp only [List.length_append, List.length_cons]
        omega
      · simp only [List.length_append, List.length_cons]
        omega
  | @colon first key value more index line taken last tokens hlength hfuel =>
    simp only [List.length_append, List.length_cons] at hlength hfuel
    refine ⟨_, fetch_colon value _ (by omega) _ (by omega), .value ?_ ?_, by simp⟩
    · simp only [List.length_append, List.length_cons]
      omega
    · simp only [List.length_append, List.length_cons]
      omega
  | @value value more index line column taken last tokens hlength hfuel =>
    simp only [List.length_append, List.length_cons] at hlength hfuel
    refine ⟨_, fetch_value value _ (Entry.startsLine_lines more) (by omega), ?_, by simp⟩
    have hall : tokens ++ ⟨.scalar .plain (String.ofList value.chars), line⟩ ::
          Entry.tokens more (line + 1) =
        tokens ++ [⟨.scalar .plain (String.ofList value.chars), line⟩] ++
          openingOf false (Entry.firstLine more (line + 1)) ++ Entry.tokens more (line + 1) := by
      simp [openingOf]
    rw [hall]
    exact @Stands.line fuel false more _ _ _ _ _ _ (by omega) (by omega)
      fun h => Bool.noConfusion h
  | @finished index line breaks taken last tokens _ count htokens hfuel =>
    refine ⟨_, fetch_finished (by omega), .finished (count + 1) ?_ hfuel, by simp⟩
    rw [htokens, List.append_assoc, List.replicate_succ']

/-- Where there are three tokens, the first of them is no key that is still waited for, so
`headKey?` finds none. -/
theorem Stands.headKey?_eq (h : Stands fuel stream all) (hthree : 3 ≤ stream.tokens.length) :
    stream.headKey? = none := by
  cases h with
  | line => rfl
  | @colon first key value more index line taken last tokens hlength hfuel =>
    rw [List.length_append, List.length_singleton] at hthree
    have hnumber : ¬ taken + tokens.length = taken := by omega
    simp only [headKey?, List.findSome?_cons, Option.filter_some, hnumber, decide_false,
      Bool.and_false, Bool.false_eq_true, if_false, List.findSome?_nil]
  | value => rfl
  | finished => rfl

/-- **Looking ahead stays among the entries**: `fill` fetches until there are three tokens. -/
theorem Stands.fill (h : Stands fuel stream all) {count : Nat} (hpos : 0 < count)
    (hcount : 4 ≤ stream.tokens.length + count) :
    ∃ next, stream.fill fuel count = some next ∧ Stands fuel next all ∧
      3 ≤ next.tokens.length := by
  induction count generalizing stream with
  | zero => exact absurd hpos (Nat.lt_irrefl 0)
  | succ count ih =>
    by_cases hthree : 3 ≤ stream.tokens.length
    · refine ⟨stream, ?_, h, hthree⟩
      have hmany : fill.hasThree stream.tokens = true := by
        match stream.tokens, hthree with
        | _ :: _ :: _ :: _, _ => rfl
      rw [Stream.fill, if_pos hmany, h.headKey?_eq hthree]
    · obtain ⟨next, hnext, hstands, hlength⟩ := h.fetch
      have hfew : ¬ fill.hasThree stream.tokens = true := by
        match stream.tokens, hthree with
        | [], _ | [_], _ | [_, _], _ => exact Bool.false_ne_true
        | _ :: _ :: _ :: _, hthree => exact absurd (by simp) hthree
      obtain ⟨last, hlast⟩ := ih hstands (by omega) (by omega)
      refine ⟨last, ?_, hlast.2⟩
      rw [Stream.fill, if_neg hfew, hnext]
      exact hlast.1

/-- Taking the first token leaves the others: the stream `Stands` before `all`. -/
theorem Stands.take {token : Token} (h : Stands fuel stream (token :: all))
    (hthree : 3 ≤ stream.tokens.length) :
    stream.tokens.head? = some token ∧
      Stands fuel { stream with tokens := stream.tokens.tail, taken := stream.taken + 1 } all := by
  generalize hwhole : token :: all = whole at h
  cases h with
  | @line first entries index line breaks taken last tokens hlength hfuel hfirst =>
    obtain ⟨head, tokens, rfl⟩ := List.exists_cons_of_length_pos (Nat.zero_lt_of_lt hthree)
    obtain ⟨rfl, rfl⟩ := List.cons.inj hwhole
    exact ⟨rfl, .line hlength hfuel hfirst⟩
  | @colon first key value more index line taken last tokens hlength hfuel =>
    rw [List.length_append, List.length_singleton] at hthree
    obtain ⟨head, tokens, rfl⟩ := List.exists_cons_of_length_pos (show 0 < tokens.length by omega)
    obtain ⟨rfl, rfl⟩ := List.cons.inj hwhole
    -- the key that is waited for is known by its number, which counts the tokens taken, too
    have hnumber : taken + (token :: tokens).length = taken + 1 + tokens.length := by
      rw [List.length_cons]
      omega
    rw [hnumber]
    exact ⟨rfl, .colon hlength hfuel⟩
  | @value value more index line column taken last tokens hlength hfuel =>
    obtain ⟨head, tokens, rfl⟩ := List.exists_cons_of_length_pos (Nat.zero_lt_of_lt hthree)
    obtain ⟨rfl, rfl⟩ := List.cons.inj hwhole
    exact ⟨rfl, .value hlength hfuel⟩
  | @finished index line breaks taken last tokens _ count htokens hfuel =>
    subst hwhole htokens
    exact ⟨rfl, .finished count rfl hfuel⟩

end Stream

/-! ### Nodes -/

namespace Reader

/-- The `reader` has the tokens `all` to come, and knows no names. -/
structure Awaits (fuel : Nat) (reader : Reader) (all : List Token) : Prop where
  /-- The tokens. -/
  stands : Stream.Stands fuel reader.stream all
  /-- No names were given. -/
  names : reader.names = []
  /-- No nodes have names. -/
  named : reader.named = []
  /-- There is fuel to look ahead. -/
  fuel : 4 ≤ fuel

variable {fuel : Nat} {reader : Reader} {token : Token} {all : List Token}

/-- `peek` brings the first token into view: taking it leaves the others. -/
theorem Awaits.peek (h : Awaits fuel reader (token :: all)) :
    ∃ next, reader.peek fuel = some (token, next) ∧ Awaits fuel next (token :: all) ∧
      Awaits fuel next.take all := by
  obtain ⟨stream, hfill, hstands, hthree⟩ :=
    h.stands.fill (Nat.lt_of_lt_of_le (by decide) h.fuel) (Nat.le_add_left_of_le h.fuel)
  obtain ⟨hhead, htake⟩ := hstands.take hthree
  obtain ⟨rest, htokens⟩ : ∃ rest, stream.tokens = token :: rest := List.head?_eq_some_iff.1 hhead
  refine ⟨{ reader with stream := stream }, ?_, ⟨hstands, h.names, h.named, h.fuel⟩,
    ⟨htake, h.names, h.named, h.fuel⟩⟩
  rw [Reader.peek, hfill]
  simp only [Option.bind_eq_bind, Option.bind_some, htokens, Option.pure_def]

/-- `node` reads the token of a scalar as a scalar. -/
theorem Awaits.node_scalar {style : Style} {text : String} {line : Nat}
    (h : Awaits fuel reader (⟨.scalar style text, line⟩ :: all)) (count : Nat)
    (block indentless : Bool) :
    ∃ next, reader.node fuel (count + 1) block indentless =
      some (.scalar line none style text, next) ∧ Awaits fuel next all := by
  obtain ⟨first, hfirst, hview, -⟩ := h.peek
  obtain ⟨second, hsecond, hview', htaken⟩ := hview.peek
  refine ⟨second.take, ?_, htaken⟩
  rw [node, hfirst]
  simp only [Option.bind_eq_bind, Option.bind_some, properties, hsecond, Option.pure_def,
    Option.bind_none, giveName, keep, Option.isSome_none, Bool.false_eq_true, if_false]

/-- `blockPart` reads the key or the value of an entry. -/
theorem Awaits.blockPart {style : Style} {text : String} {line : Nat}
    (h : Awaits fuel reader.take (⟨.scalar style text, line⟩ :: all)) (count : Nat) (lines : Nat) :
    ∃ next, reader.blockPart fuel (count + 2) lines =
      some (.scalar line none style text, next) ∧ Awaits fuel next all := by
  obtain ⟨first, hfirst, hview, -⟩ := h.peek
  obtain ⟨next, hnext, hawaits⟩ := hview.node_scalar count true true
  refine ⟨next, ?_, hawaits⟩
  rw [Reader.blockPart, advance, hfirst]
  exact hnext

/-- **The entries of a mapping**: by induction on `entries`, `blockEntries` reads their tokens as
`Entry.nodes`. -/
theorem Awaits.blockEntries {entries : List Entry} {line : Nat}
    (h : Awaits fuel reader (Entry.tokens entries line)) {count : Nat}
    (hcount : entries.length + 3 ≤ count) :
    ∃ next last, reader.blockEntries fuel count = some (Entry.nodes entries line, next) ∧
      Awaits fuel next [⟨.finish, last⟩] := by
  induction entries generalizing reader line count with
  | nil =>
    obtain ⟨count, rfl⟩ : ∃ less, count = less + 1 := ⟨count - 1, by omega⟩
    obtain ⟨first, hfirst, -, htaken⟩ := h.peek
    refine ⟨first.take, line, ?_, htaken⟩
    rw [Reader.blockEntries, hfirst]
    rfl
  | cons entry more ih =>
    rw [List.length_cons] at hcount
    obtain ⟨count, rfl⟩ : ∃ less, count = less + 3 := ⟨count - 3, by omega⟩
    obtain ⟨first, hfirst, -, htaken⟩ := h.peek
    obtain ⟨second, hsecond, hcolon⟩ := htaken.blockPart count (line + entry.comments.length)
    obtain ⟨third, hthird, -, hvalue⟩ := hcolon.peek
    obtain ⟨fourth, hfourth, hmore⟩ := hvalue.blockPart count
      (line + entry.comments.length)
    obtain ⟨next, last, hnext, hawaits⟩ := ih hmore (show more.length + 3 ≤ count + 2 by omega)
    refine ⟨next, last, ?_, hawaits⟩
    rw [Reader.blockEntries, hfirst]
    simp only [Option.bind_eq_bind, Option.bind_some, hsecond, hthird, hfourth, hnext,
      Option.pure_def, Entry.nodes]

/-- `node` reads a block with the tokens of `entries` as a mapping. -/
theorem Awaits.node_mapping {entries : List Entry} {start line : Nat}
    (h : Awaits fuel reader (⟨.mappingBlock, start⟩ :: Entry.tokens entries line)) {count : Nat}
    (hcount : entries.length + 3 ≤ count) (indentless : Bool) :
    ∃ next last, reader.node fuel (count + 1) true indentless =
      some (.mapping start none (Entry.nodes entries line), next) ∧
        Awaits fuel next [⟨.finish, last⟩] := by
  obtain ⟨first, hfirst, hview, -⟩ := h.peek
  obtain ⟨second, hsecond, -, htaken⟩ := hview.peek
  obtain ⟨next, last, hnext, hawaits⟩ := htaken.blockEntries hcount
  refine ⟨next, last, ?_, hawaits⟩
  rw [node, hfirst]
  simp only [Option.bind_eq_bind, Option.bind_some, properties, hsecond, Option.pure_def,
    Option.bind_none, giveName, keep, Option.isSome_none, Bool.false_eq_true, if_false, if_true,
    hnext]

/-- **A document that is one mapping** is read by `document` as its `Entry.nodes`. -/
theorem Awaits.document {entries : List Entry} {start line : Nat}
    (h : Awaits fuel reader (⟨.mappingBlock, start⟩ :: Entry.tokens entries line)) {count : Nat}
    (hcount : entries.length + 4 ≤ count) :
    reader.document fuel count =
      some (some ⟨.mapping start none (Entry.nodes entries line), []⟩) := by
  obtain ⟨count, rfl⟩ : ∃ less, count = less + 1 := ⟨count - 1, by omega⟩
  obtain ⟨first, hfirst, hview, -⟩ := h.peek
  obtain ⟨second, hsecond, hview', -⟩ := hview.peek
  have hhandles : Awaits fuel { second with handles := second.handles ++ commonHandles }
      (⟨.mappingBlock, start⟩ :: Entry.tokens entries line) :=
    ⟨hview'.stands, hview'.names, hview'.named, hview'.fuel⟩
  obtain ⟨third, last, hthird, hfinish⟩ :=
    hhandles.node_mapping (show entries.length + 3 ≤ count by omega) false
  obtain ⟨next, hnext, hend, -⟩ := hfinish.peek
  rw [Reader.document, hfirst]
  simp only [Option.bind_eq_bind, Option.bind_some, reduceCtorEq, if_false, directives, hsecond,
    Option.pure_def, if_true, hthird, hnext, hend.named]

end Reader

/-! ### Texts -/

/-- ASCII characters as bytes. -/
def bytesOf (chars : List Char) : Bytes := chars.map ascii

theorem toNat_ascii {c : Char} (hc : c.toNat < 128) : (ascii c).toNat = c.toNat := by
  rw [ascii, Nat.toUInt8_eq, UInt8.toNat_ofNat']
  omega

/-- `Utf8.read` gives back characters that take one byte each. -/
theorem read_bytesOf {chars : List Char} (h : ∀ c ∈ chars, c.toNat < 128) :
    Utf8.read chars.length (bytesOf chars) = some (chars, []) := by
  induction chars with
  | nil => rfl
  | cons c chars ih =>
    rw [List.forall_mem_cons] at h
    have hsmall : ascii c < 0x80 := by
      rw [UInt8.lt_iff_toNat_lt, toNat_ascii h.1]
      exact h.1
    have hchar : Char.ofNat (ascii c).toNat = c := by rw [toNat_ascii h.1, Char.ofNat_toNat]
    have hfirst : Utf8.first (ascii c :: bytesOf chars) = .char c (bytesOf chars) := by
      calc Utf8.first (ascii c :: bytesOf chars)
          = .char (Char.ofNat (ascii c).toNat) (bytesOf chars) := if_pos hsmall
        _ = .char c (bytesOf chars) := by rw [hchar]
    have hcons : bytesOf (c :: chars) = ascii c :: bytesOf chars := rfl
    rw [List.length_cons, hcons, Utf8.read, hfirst]
    simp only [ih h.2, Option.map_some]

/-- No mark stands in front of a character that takes one byte, so `Encoding.ofText` finds UTF-8. -/
theorem ofText_bytesOf {chars : List Char} (h : ∀ c ∈ chars, c.toNat < 128) :
    Encoding.ofText (bytesOf chars) = (.utf8, 0) := by
  have hhead : ∀ b ∈ (bytesOf chars).head?, b.toNat < 128 := by
    intro b hb
    obtain ⟨c, hc, rfl⟩ := List.mem_map.1 (List.mem_of_mem_head? hb)
    rw [toNat_ascii (h c hc)]
    exact h c hc
  rw [Encoding.ofText.eq_def]
  split
  · next heq => exact absurd (hhead 0xFF (by rw [heq]; rfl)) (by decide)
  · next heq => exact absurd (hhead 0xFE (by rw [heq]; rfl)) (by decide)
  · next heq => exact absurd (hhead 0xEF (by rw [heq]; rfl)) (by decide)
  · rfl

/-- A short text is read at once, as one of its `Pieces`. -/
theorem ofBytes_bytesOf {chars : List Char} (h : ∀ c ∈ chars, c.toNat < 128 ∧ isAllowed c)
    (hlength : chars.length ≤ pieceSize) : Pieces.ofBytes (bytesOf chars) = ⟨[chars], true⟩ := by
  have hsmall : ∀ c ∈ chars, c.toNat < 128 := fun c hc => (h c hc).1
  have hall : chars.all isAllowed := List.all_eq_true.2 fun c hc => (h c hc).2
  have hbytes : (bytesOf chars).length ≤ pieceSize := by rwa [bytesOf, List.length_map]
  have hread : Encoding.utf8.read (bytesOf chars) = some (chars, []) := by
    have hcount : (bytesOf chars).length = chars.length := List.length_map _
    rw [Encoding.read, hcount]
    simp only [read_bytesOf hsmall, Option.bind_eq_bind, Option.bind_some, hall, if_true]
  rw [Pieces.ofBytes, ofText_bytesOf hsmall]
  simp only [List.take_of_length_le hbytes, List.drop_of_length_le hbytes, List.drop_zero, hread,
    List.isEmpty_nil, if_true]

namespace Entry

/-- The `lines` of entries hold nothing but characters that are allowed and take one byte each. -/
theorem forall_mem_lines (entries : List Entry) :
    ∀ c ∈ lines entries, c.toNat < 128 ∧ isAllowed c := by
  have hword {c : Char} (hc : IsWordChar c) : c.toNat < 128 ∧ isAllowed c := by
    obtain ⟨hlow, hhigh⟩ := hc.toNat_range
    have hlow' : 0x20 ≤ c.toNat := Nat.le_trans (by decide) hlow
    have hhigh' : c.toNat ≤ 0x7E := Nat.le_trans hhigh (by decide)
    refine ⟨Nat.lt_of_le_of_lt hhigh (by decide), ?_⟩
    simp [isAllowed, hlow', hhigh']
  have hcomment {c : Char} (hc : 32 ≤ c.toNat ∧ c.toNat < 127) : c.toNat < 128 ∧ isAllowed c := by
    have hhigh : c.toNat ≤ 0x7E := Nat.le_of_lt_succ hc.2
    refine ⟨Nat.lt_succ_of_lt hc.2, ?_⟩
    simp [isAllowed, hc.1, hhigh]
  have hcomments (comments : List Comment) :
      ∀ c ∈ commentLines comments, c.toNat < 128 ∧ isAllowed c := by
    induction comments with
    | nil => exact List.forall_mem_nil _
    | cons comment more ih =>
      refine List.forall_mem_cons.2 ⟨by decide, List.forall_mem_append.2
        ⟨fun c hc => hcomment (comment.printable c hc), List.forall_mem_cons.2 ⟨by decide, ih⟩⟩⟩
  induction entries with
  | nil => exact List.forall_mem_nil _
  | cons entry more ih =>
    refine List.forall_mem_append.2 ⟨hcomments entry.comments, ?_⟩
    refine List.forall_mem_append.2 ⟨fun c hc => hword (entry.key.plain c hc), ?_⟩
    refine List.forall_mem_cons.2 ⟨by decide, List.forall_mem_cons.2 ⟨by decide, ?_⟩⟩
    refine List.forall_mem_append.2 ⟨fun c hc => hword (entry.value.plain c hc), ?_⟩
    exact List.forall_mem_cons.2 ⟨by decide, ih⟩

/-- Every one of the `lines` has characters, so there are at least as many of these as entries. -/
theorem length_le_lines (entries : List Entry) : entries.length ≤ (lines entries).length := by
  induction entries with
  | nil => exact Nat.le_refl 0
  | cons entry more ih =>
    simp only [lines, List.length_append, List.length_cons]
    omega

end Entry

/-- At the start of a text, `document` looks for the first token, which reads all of the text. -/
theorem document_start {chars : List Char} (hmark : chars.head? ≠ some byteOrderMark)
    (fuel count : Nat) :
    Reader.document (fuel + 1) count ⟨.start ⟨[chars], true⟩, [], [], []⟩ =
      Reader.document (fuel + 1) count
        ⟨⟨.loaded chars 0 1 0 0, [], 0, true, 0, -1, [], ⟨none, 0⟩, []⟩, [], [], []⟩ := by
  have hneed : (Cursor.start ⟨[chars], true⟩).need 1 = some (.loaded chars 0 1 0 0) := by
    cases chars with
    | nil => rfl
    | cons c chars =>
      have hhead : c ≠ byteOrderMark := fun h => hmark (congrArg some h)
      simp [Cursor.need, Cursor.start, Cursor.gather, hasAtLeast, Cursor.loaded, hhead]
  have hfetch : Stream.fetch (fuel + 1) (.start ⟨[chars], true⟩) = Stream.fetch (fuel + 1)
      ⟨.loaded chars 0 1 0 0, [], 0, true, 0, -1, [], ⟨none, 0⟩, []⟩ := by
    rw [Stream.fetch, Stream.fetch, Stream.start, hneed, Cursor.need_loaded _ _ _ _ 1 hmark]
    rfl
  have hpeek : Reader.peek (fuel + 1) ⟨.start ⟨[chars], true⟩, [], [], []⟩ = Reader.peek (fuel + 1)
      ⟨⟨.loaded chars 0 1 0 0, [], 0, true, 0, -1, [], ⟨none, 0⟩, []⟩, [], [], []⟩ := by
    have hfill : Stream.fill (fuel + 1) (fuel + 1) (.start ⟨[chars], true⟩) =
        Stream.fill (fuel + 1) (fuel + 1)
          ⟨.loaded chars 0 1 0 0, [], 0, true, 0, -1, [], ⟨none, 0⟩, []⟩ := by
      rw [Stream.fill, Stream.fill, hfetch]
      rfl
    rw [Reader.peek, Reader.peek, hfill]
  rw [Reader.document, Reader.document, hpeek]

/-- **Lines of words are read as a mapping**: `read?` of the `lines` of entries gives their
`Entry.nodes`. -/
theorem read?_lines (entries : List Entry) (hne : entries ≠ [])
    (hlength : (Entry.lines entries).length ≤ pieceSize) :
    read? (bytesOf (Entry.lines entries)) =
      some (some ⟨.mapping (Entry.firstLine entries 1) none (Entry.nodes entries 1), []⟩) := by
  have hstands : Stream.Stands (2 * (Entry.lines entries).length + 16)
      ⟨.loaded (Entry.lines entries) 0 1 0 0, [], 0, true, 0, -1, [], ⟨none, 0⟩, []⟩
      (⟨.mappingBlock, Entry.firstLine entries 1⟩ :: Entry.tokens entries 1) :=
    @Stream.Stands.line _ true entries _ _ _ _ _ [] (Nat.le_trans hlength (by decide)) (by omega)
      fun _ => hne
  have hsize : Pieces.size ⟨[Entry.lines entries], true⟩ = (Entry.lines entries).length := by
    simp [Pieces.size]
  have hawaits : Reader.Awaits (2 * (Entry.lines entries).length + 16)
      ⟨⟨.loaded (Entry.lines entries) 0 1 0 0, [], 0, true, 0, -1, [], ⟨none, 0⟩, []⟩, [], [], []⟩
      (⟨.mappingBlock, Entry.firstLine entries 1⟩ :: Entry.tokens entries 1) :=
    ⟨hstands, rfl, rfl, by omega⟩
  have hcount := Entry.length_le_lines entries
  rw [read?, ofBytes_bytesOf (Entry.forall_mem_lines entries) hlength]
  simp only [hsize]
  rw [document_start (Entry.startsLine_lines entries).head?_ne]
  exact hawaits.document (by omega)

end TreeWalk.Yaml
