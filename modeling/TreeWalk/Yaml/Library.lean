import TreeWalk.Text.Bytes

/-!
# What is asked of a YAML library

A record is kept as a YAML document: a mapping with one key for each of its fields.  A `Library`
writes records and reads them back.  The program takes it as a parameter, and what a result about
the program asks of the library is stated as `Library.Lawful`.

Documents that both sides agree on are made of `Line`s, one `key: value` for each field, in any
order and with comments between them.

## Main definitions

* `Datum`, `Field`, `Shape` — the value of a field, a field and a record type.
* `Library` — writes and reads records.
* `Line`, `Line.text` — a field as a line of a document.
* `Library.Lawful` — the library writes and reads such lines.
-/

namespace TreeWalk.Yaml

/-- The value of a field. -/
inductive Datum
  /-- An integer of 64 bits. -/
  | integer (value : Int)
  /-- A text. -/
  | text (value : Bytes)
  /-- A truth value. -/
  | boolean (value : Bool)
  deriving DecidableEq, Repr

/-- The types that a field can have. -/
inductive DatumKind
  /-- Integers. -/
  | integer
  /-- Texts. -/
  | text
  /-- Truth values. -/
  | boolean
  deriving DecidableEq, Repr

/-- The type of a value, as a `DatumKind`. -/
def Datum.kind : Datum → DatumKind
  | integer _ => .integer
  | text _ => .text
  | boolean _ => .boolean

/-- A field of a record type. -/
structure Field where
  /-- Its key in a document. -/
  key : Bytes
  /-- Its type. -/
  kind : DatumKind
  /-- The name of its type. -/
  typeLabel : String
  deriving DecidableEq, Repr

/-- A record type. -/
structure Shape where
  /-- The fields. -/
  fields : List Field
  /-- The name of the type. -/
  typeLabel : String
  deriving DecidableEq, Repr

/-- The field of `shape` with the given `key`. -/
def Shape.field? (shape : Shape) (key : Bytes) : Option Field :=
  shape.fields.find? (·.key = key)

/-- Why a text gives no record. -/
inductive ReadError
  /-- It ends before a document starts. -/
  | ended
  /-- The document does not have the shape of the record; each complaint tells of one place. -/
  | mistyped (complaints : List Bytes)
  /-- It is no document. -/
  | syntactic (message : Bytes)
  deriving DecidableEq, Repr

/-- The wording of a `ReadError`. -/
def ReadError.message : ReadError → Bytes
  | ended => utf8 "EOF"
  | mistyped complaints =>
    utf8 "yaml: unmarshal errors:" ++ complaints.flatMap fun complaint => utf8 "\n  " ++ complaint
  | syntactic message => message

/-- Writes and reads records. -/
structure Library where
  /-- The document for a record with the given keys and values, or the message of an error. -/
  write : List (Bytes × Datum) → Except Bytes Bytes
  /-- Reads a document into a record, whose other keys are refused: why that failed, if it did, and
  the fields that were set, in order.  The document is what was read from a file, or the message of
  an error on the way. -/
  read : Shape → Except Bytes Bytes → Option ReadError × List (Bytes × Datum)

/-! ### Lines -/

/-- The words that mean something else than themselves. -/
def reservedWords : List Bytes :=
  ["y", "n", "yes", "no", "on", "off", "true", "false", "null"].map utf8

/-- Whether a text is a word: lower-case letters and underscores, the first a letter, and not more
than 128 of them. -/
def isWord (text : Bytes) : Bool :=
  text.head?.any isLower && text.all (fun b => isLower b || b = ascii '_') && text.length ≤ 128
    && !reservedWords.contains text
where
  /-- Whether a byte is a lower-case letter. -/
  isLower (b : UInt8) : Bool := ascii 'a' ≤ b && b ≤ ascii 'z'

namespace Datum

/-- Whether a value can be written as its `spelling`: a natural number, a word, or a truth value. -/
def isPlain : Datum → Bool
  | integer value => 0 ≤ value && value < 9223372036854775808
  | text value => isWord value
  | boolean _ => true

/-- A value as it is, without quotes or anything else around it. -/
def spelling : Datum → Bytes
  | integer value => Bytes.ofInt value
  | text value => value
  | boolean value => if value then utf8 "true" else utf8 "false"

end Datum

/-- A field as a line of a document. -/
structure Line where
  /-- Comments, each on a line of its own in front of the field. -/
  comments : List Bytes := []
  /-- The key. -/
  key : Bytes
  /-- The value. -/
  datum : Datum
  deriving DecidableEq, Repr

/-- Whether a text can stand in a comment: printable characters of ASCII. -/
def isCommentText (text : Bytes) : Bool := text.all fun b => 32 ≤ b && b < 127

namespace Line

/-- Whether key and value can be written as they are, and the comments too; `Library.Lawful` is
about documents of such lines. -/
def isPlain (line : Line) : Bool :=
  isWord line.key && line.datum.isPlain && line.comments.all isCommentText

/-- The key and the `Datum.spelling` of the value, with the line feed behind them. -/
def entryText (line : Line) : Bytes :=
  line.key ++ utf8 ": " ++ line.datum.spelling ++ utf8 "\n"

/-- The line as `entryText` gives it, with the comments in front of it. -/
def text (line : Line) : Bytes :=
  line.comments.flatMap (fun comment => utf8 "#" ++ comment ++ utf8 "\n") ++ line.entryText

/-- The line sets a field of `shape`: one with its key, of the type of its value. -/
def fits (shape : Shape) (line : Line) : Bool :=
  (shape.field? line.key).any (·.kind = line.datum.kind)

end Line

/-- What the program relies on: records are written and read line by line. -/
structure Library.Lawful (yaml : Library) : Prop where
  /-- A record of plain values is written as one line for each field, in order. -/
  write_lines : ∀ entries : List (Bytes × Datum), entries ≠ [] →
    (∀ entry ∈ entries, isWord entry.1 ∧ entry.2.isPlain) →
    yaml.write entries = .ok (entries.flatMap fun entry => Line.entryText ⟨[], entry.1, entry.2⟩)
  /-- A plain value of the last field is on the last line. -/
  write_last : ∀ (front : List (Bytes × Datum)) (key : Bytes) (datum : Datum) (text : Bytes),
    isWord key → datum.isPlain → yaml.write (front ++ [(key, datum)]) = .ok text →
    Line.entryText ⟨[], key, datum⟩ <:+ text
  /-- A short document of plain lines sets the fields of these lines, if they are fields of the
  record and no two of them are the same. -/
  read_lines : ∀ (shape : Shape) (lines : List Line), lines ≠ [] →
    (∀ line ∈ lines, line.isPlain ∧ line.fits shape) → (lines.map Line.key).Nodup →
    (lines.flatMap Line.text).length ≤ 512 →
    yaml.read shape (.ok (lines.flatMap Line.text)) =
      (none, lines.map fun line => (line.key, line.datum))
  /-- There is no document in an empty text. -/
  read_empty : ∀ shape : Shape, yaml.read shape (.ok []) = (some .ended, [])
  /-- An error on the way is an error. -/
  read_failed : ∀ (shape : Shape) (message : Bytes), ∃ text assigned,
    yaml.read shape (.error message) = (some (.syntactic text), assigned)

end TreeWalk.Yaml
