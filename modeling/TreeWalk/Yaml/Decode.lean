import TreeWalk.Yaml.Library
import TreeWalk.Yaml.Read
import TreeWalk.Yaml.Write

/-!
# Reading and writing records

A record is a YAML mapping with at most one key for each field.  A key that is missing, or has
nothing as its value, sets nothing.  Everything that does not fit is collected, and named with its
line.

The key `<<` merges other mappings in: their entries count as far as the mapping has no such key
itself.  Since references can make a small text stand for a huge one, the nodes that are read
through them are counted, and a text that consists of little else is refused.

## Main definitions

* `Complaint`, `Complaint.message` — what does not fit.
* `Progress` — what is known while a document is read.
* `readMapping`, `mergeValue` — read a mapping, and merge mappings in.
* `readRecord`, `writeRecord` — the record in a text, and the text for a record.
* `library` — both together.
-/

namespace TreeWalk.Yaml

/-- What does not fit. -/
inductive Complaint
  /-- A node of another type. -/
  | mistyped (line : Nat) (tag : Tag) (value : Bytes) (wanted : String)
  /-- A key that was there before. -/
  | duplicate (line : Nat) (key : String) (first : Nat)
  /-- A key that means the same as one before. -/
  | repeated (line : Nat) (key : Bytes) (record : String)
  /-- A key that means nothing. -/
  | unknown (line : Nat) (key : Bytes) (record : String)
  deriving DecidableEq, Repr

/-- A `value` as complaints show it: long ones are cut. -/
def shown (value : Bytes) : Bytes :=
  if 10 < value.length then value.take 7 ++ utf8 "..." else value

/-- A `value` behind its `tag`.  The tags of sequences and mappings leave no room for one. -/
def shownBehind (tag : Tag) (value : Bytes) : Bytes :=
  if tag = .sequence || tag = .mapping then value else utf8 " `" ++ shown value ++ utf8 "`"

/-- The wording of a `Complaint`. -/
def Complaint.message : Complaint → Bytes
  | mistyped line tag value wanted =>
    utf8 "line " ++ Bytes.ofNat line ++ utf8 ": cannot unmarshal " ++ tag.name
      ++ shownBehind tag value ++ utf8 " into " ++ utf8 wanted
  | duplicate line key first =>
    utf8 "line " ++ Bytes.ofNat line ++ utf8 ": mapping key " ++ utf8 (quote key)
      ++ utf8 " already defined at line " ++ Bytes.ofNat first
  | repeated line key record =>
    utf8 "line " ++ Bytes.ofNat line ++ utf8 ": field " ++ key ++ utf8 " already set in type "
      ++ utf8 record
  | unknown line key record =>
    utf8 "line " ++ Bytes.ofNat line ++ utf8 ": field " ++ key ++ utf8 " not found in type "
      ++ utf8 record

/-! ### Scalars -/

/-- The truth value that `text` stands for. -/
def truth? (text : Bytes) : Option Bool :=
  if ["y", "Y", "yes", "Yes", "YES", "on", "On", "ON"].any (utf8 · = text) then some true
  else if ["n", "N", "no", "No", "NO", "off", "Off", "OFF"].any (utf8 · = text) then some false
  else none

/-- The value of a given `DatumKind` that a scalar with this `meaning` stands for, if any; it stands
for `text` where a text is due. -/
def datum? (text : Bytes) (meaning : Meaning) : DatumKind → Option Datum
  | .integer => meaning.toInt?.map .integer
  | .text => some (.text text)
  | .boolean =>
    match meaning with
    | .boolean value => some (.boolean value)
    | .text | .binary _ => (truth? text).map .boolean
    | _ => none

/-! ### Nodes -/

/-- What is known while a document is read. -/
structure Progress where
  /-- The fields that were set, in order. -/
  assigned : List (Bytes × Datum)
  /-- The complaints, in order. -/
  complaints : List Complaint
  /-- The number of nodes that were read. -/
  visits : Nat
  /-- The number of those that were read through a reference. -/
  echoes : Nat

namespace Progress

/-- Nothing is read yet. -/
def start : Progress := ⟨[], [], 0, 0⟩

/-- Adds `complaints` behind those that `progress` has. -/
def complain (progress : Progress) (complaints : List Complaint) : Progress :=
  { progress with complaints := progress.complaints ++ complaints }

/-- Whether too many of the nodes were read through references: more than 99 in a hundred, and
ever fewer from 400,000 nodes on, down to 10 in a hundred for 4,000,000. -/
def isExcessive (progress : Progress) : Bool :=
  let percent (n : Nat) : Bool := n * progress.visits < 100 * progress.echoes
  let scaled (n : Nat) : Bool :=
    (99 * 3600000 - 89 * (n - 400000)) * n < 100 * 3600000 * progress.echoes
  100 < progress.echoes && 1000 < progress.visits &&
    if progress.visits ≤ 400000 then percent 99
    else if 4000000 ≤ progress.visits then percent 10
    else scaled progress.visits

/-- Counts a node that is read, through a reference if `echo` holds.  There is no result when
`isExcessive` holds then. -/
def visit (echo : Bool) (progress : Progress) : Option Progress :=
  let progress := { progress with
    visits := progress.visits + 1
    echoes := progress.echoes + if echo then 1 else 0 }
  if progress.isExcessive then none else some progress

end Progress

/-- Counts `node` with `visit`, and the node it stands for if it is a reference.  The result is that
node, and whether it was reached through a reference. -/
def visitNode (document : Document) (echo : Bool) (node : Node) (progress : Progress) :
    Option (Node × Bool × Progress) := do
  let progress ← progress.visit echo
  match node with
  | .reference .. => return (← document.follow? node, true, ← progress.visit true)
  | node => return (node, echo, progress)

/-- Whether two keys are written the same: of one kind, and the same text or name. -/
def sameKey : Node → Node → Bool
  | .scalar _ _ _ a, .scalar _ _ _ b => a = b
  | .reference _ a _, .reference _ b _ => a = b
  | .sequence .., .sequence .. => true
  | .mapping .., .mapping .. => true
  | _, _ => false

/-- The text or the name of a key, which is empty if it has neither. -/
def keyText : Node → String
  | .scalar _ _ _ text => text
  | .reference _ name _ => name
  | .sequence .. | .mapping .. => ""

/-- A complaint for every pair of keys with `sameKey`. -/
def duplicates : List (Node × Node) → List Complaint
  | [] => []
  | (key, _) :: more =>
    (more.filter fun entry => sameKey key entry.1).map (fun entry =>
      .duplicate entry.1.line (keyText entry.1) key.line)
      ++ duplicates more

/-- The complaints about a sequence or a mapping where the type `wanted` is due. -/
def refuse (wanted : String) : Node → List Complaint
  | .sequence line tag _ => [.mistyped line (tag.getD .sequence) [] wanted]
  | .mapping line tag entries =>
    match duplicates entries with
    | [] => [.mistyped line (tag.getD .mapping) [] wanted]
    | complaints => complaints
  | _ => []

/-- Reads `value` as the value of `field`.  `Meaning.null` leaves the field as it is, and a value of
another type is complained about. -/
def readField (document : Document) (echo : Bool) (progress : Progress) (field : Field)
    (value : Node) : Option Progress := do
  let (value, _, progress) ← visitNode document echo value progress
  match value with
  | .scalar line tag style text =>
    match ← meaning? tag style text with
    | .null => return progress
    | meaning =>
      match datum? (meaning.asText text) meaning field.kind with
      | some datum => return { progress with assigned := progress.assigned ++ [(field.key, datum)] }
      | none =>
        let tag := scalarTag tag style text
        return progress.complain [.mistyped line tag (utf8 text) field.typeLabel]
  | node => return progress.complain (refuse field.typeLabel node)

/-- Reads `key`: its text, unless it is nothing or no scalar. -/
def readKey (document : Document) (echo : Bool) (progress : Progress) (key : Node) :
    Option (Option Bytes × Progress) := do
  let (key, _, progress) ← visitNode document echo key progress
  match key with
  | .scalar _ tag style text =>
    match ← meaning? tag style text with
    | .null => return (none, progress)
    | meaning => return (some (meaning.asText text), progress)
  | node => return (none, progress.complain (refuse "string" node))

/-- Whether a key merges another mapping in. -/
def isMerge : Node → Bool
  | .scalar _ tag style text => text = "<<" && scalarTag tag style text = .merge
  | _ => false

/-- What is known while the entries of a mapping are read. -/
structure Entries where
  /-- What is known of the document. -/
  progress : Progress
  /-- The fields whose keys were read. -/
  done : List Field
  /-- The keys that count no more, if the mapping is merged into another. -/
  merged : Option (List Bytes)

/-- Reads an `entry` that merges nothing in.  A key that is nothing is skipped with its value, and
so is one that counts no more. -/
def readEntry (shape : Shape) (document : Document) (echo : Bool) (entries : Entries)
    (entry : Node × Node) : Option Entries := do
  let (name, progress) ← readKey document echo entries.progress entry.1
  let entries := { entries with progress := progress }
  match name with
  | none => return entries
  | some name =>
    if (entries.merged.getD []).contains name then return entries
    else
      let entries := { entries with merged := entries.merged.map (name :: ·) }
      match shape.field? name with
      | none =>
        let complaint := .unknown entry.1.line name shape.typeLabel
        return { entries with progress := progress.complain [complaint] }
      | some field =>
        if entries.done.contains field then
          let complaint := .repeated entry.1.line name shape.typeLabel
          return { entries with progress := progress.complain [complaint] }
        else
          let progress ← readField document echo progress field entry.2
          return { entries with progress := progress, done := field :: entries.done }

/-! ### Merging -/

/-- Reads the keys of a mapping again, to find those that are texts. -/
def textKeys (document : Document) (echo : Bool) :
    List (Node × Node) → Progress → Option (List Bytes × Progress)
  | [], progress => some ([], progress)
  | (key, _) :: more, progress => do
    let (node, _, progress) ← visitNode document echo key progress
    let (names, progress) ← textKeys document echo more progress
    match node with
    | .scalar _ tag style text =>
      match ← meaning? tag style text with
      | .text => return (utf8 text :: names, progress)
      | .binary data => return (data :: names, progress)
      | _ => return (names, progress)
    | _ => return (names, progress)

/-- The nodes that references led to once `node` is entered too.  A reference must not lead to a
node that it is in. -/
def enter? (followed : List Nat) : Node → Option (List Nat)
  | .reference _ _ number => if followed.contains number then none else some (number :: followed)
  | _ => some followed

mutual

/-- Reads a mapping into the record.  `merged` holds the keys that count no more if the mapping
is merged into another, `echo` tells whether it was reached through a reference, and `followed`
holds the nodes that references led to on the way. -/
def readMapping (shape : Shape) (document : Document) : Nat → List Nat → Bool →
    Option (List Bytes) → List (Node × Node) → Progress → Option (Option (List Bytes) × Progress)
  | 0, _, _, _, _, _ => none
  | fuel + 1, followed, echo, merged, entries, progress =>
    match duplicates entries with
    | [] => do
      let state ← (entries.filter fun entry => !isMerge entry.1).foldlM
        (readEntry shape document echo) ⟨progress, [], merged⟩
      match (entries.filter fun entry => isMerge entry.1).getLast? with
      | none => return (state.merged, state.progress)
      | some (_, value) =>
        let (names, progress) ← match state.merged with
          | some names => some (names, state.progress)
          | none => textKeys document echo entries state.progress
        let (names, progress) ← mergeValue shape document fuel followed echo names value progress
        return (state.merged.map fun _ => names, progress)
    | complaints => some (merged, progress.complain complaints)

/-- Merges the value of a key with `isMerge` into the record: a mapping, or a sequence of mappings,
the first of which count most. -/
def mergeValue (shape : Shape) (document : Document) : Nat → List Nat → Bool → List Bytes →
    Node → Progress → Option (List Bytes × Progress)
  | 0, _, _, _, _, _ => none
  | fuel + 1, followed, echo, names, value, progress =>
    match value with
    | .sequence _ _ items => mergeItems shape document fuel followed echo names items progress
    | node => mergeNode shape document fuel followed echo names node progress

/-- Merges mappings into the record one after the other with `mergeNode`. -/
def mergeItems (shape : Shape) (document : Document) : Nat → List Nat → Bool → List Bytes →
    List Node → Progress → Option (List Bytes × Progress)
  | 0, _, _, _, _, _ => none
  | _ + 1, _, _, names, [], progress => some (names, progress)
  | fuel + 1, followed, echo, names, item :: more, progress => do
    let (names, progress) ← mergeNode shape document fuel followed echo names item progress
    mergeItems shape document fuel followed echo names more progress

/-- Merges a mapping, which may be a reference to one, into the record. -/
def mergeNode (shape : Shape) (document : Document) : Nat → List Nat → Bool → List Bytes →
    Node → Progress → Option (List Bytes × Progress)
  | 0, _, _, _, _, _ => none
  | fuel + 1, followed, echo, names, node, progress => do
    let (target, echo, progress) ← visitNode document echo node progress
    let followed ← enter? followed node
    match target with
    | .mapping _ _ entries =>
      let (merged, progress) ←
        readMapping shape document fuel followed echo (some names) entries progress
      return (merged.getD names, progress)
    | _ => none

end

/-! ### Documents -/

/-- Reads a document into what `shape` describes, with an amount of `fuel` that its size is enough
for. -/
def readDocument (shape : Shape) (fuel : Nat) (document : Document) : Option Progress := do
  let progress ← Progress.start.visit false
  let progress ← progress.visit false
  match document.root with
  | .mapping _ _ entries =>
    return (← readMapping shape document fuel [] false none entries progress).2
  | .scalar line tag style text =>
    match ← meaning? tag style text with
    | .null => return progress
    | _ =>
      return progress.complain
        [.mistyped line (scalarTag tag style text) (utf8 text) shape.typeLabel]
  | node => return progress.complain (refuse shape.typeLabel node)

/-- Reads `text` with `read?`: what is known of its document, or why there is none. -/
def readText (shape : Shape) (text : Bytes) : Except ReadError Progress :=
  match read? text with
  | none => .error (.syntactic (utf8 "yaml: could not parse the document"))
  | some none => .error .ended
  | some (some document) =>
    match readDocument shape (16 * (text.length + 1) * (text.length + 1)) document with
    | none => .error (.syntactic (utf8 "yaml: could not read the document"))
    | some progress => .ok progress

/-- Reads a text into a record of the given `shape`.  Where `readText` has complaints they are the
error, and the fields that could be read are there even so. -/
def readRecord (shape : Shape) : Except Bytes Bytes → Option ReadError × List (Bytes × Datum)
  | .error message => (some (.syntactic (utf8 "yaml: input error: " ++ message)), [])
  | .ok text =>
    match readText shape text with
    | .error error => (some error, [])
    | .ok progress =>
      match progress.complaints with
      | [] => (none, progress.assigned)
      | complaints => (some (.mistyped (complaints.map Complaint.message)), progress.assigned)

/-! ### Writing -/

/-- A value as it stands behind its key, with what ends the line: `writeText` decides on quotes for
texts. -/
def Datum.written : Datum → Bytes
  | .text value => writeText value
  | datum => datum.spelling ++ utf8 "\n"

/-- The document for a record, one entry a field in the given order. -/
def writeRecord : List (Bytes × Datum) → Bytes
  | [] => utf8 "\x7b\x7d\n"
  | entries => entries.flatMap fun (key, datum) => key ++ utf8 ": " ++ datum.written

/-- The `Library` that writes with `writeRecord` and reads with `readRecord`. -/
def library : Library where
  write entries := .ok (writeRecord entries)
  read := readRecord

end TreeWalk.Yaml
