import TreeWalk.Yaml.Token

/-!
# YAML nodes

A YAML document is a tree of scalars, sequences and mappings.  Every node knows the line it starts
on, because complaints name lines, and the tag that was written in front of it, if any.  A node may
be given a name and stand in for itself elsewhere in the document under that name, even inside
itself.

## Main definitions

* `Yaml.Tag` — what a tag says about a node.
* `Yaml.Node` — a node.
* `Yaml.Document`, `Yaml.Document.follow?` — a document, and the nodes that references stand for.
-/

namespace TreeWalk.Yaml

/-- What a tag says about a node. -/
inductive Tag
  /-- It is nothing. -/
  | null
  /-- It is a truth value. -/
  | boolean
  /-- It is a text. -/
  | text
  /-- It is a whole number. -/
  | integer
  /-- It is a decimal. -/
  | decimal
  /-- It is a date. -/
  | timestamp
  /-- It is a sequence. -/
  | sequence
  /-- It is a mapping. -/
  | mapping
  /-- It is bytes in base 64. -/
  | binary
  /-- It is the key under which another mapping is merged in. -/
  | merge
  /-- It is something else. -/
  | other (name : Bytes)
  deriving DecidableEq, Repr

namespace Tag

/-- The tags of the format, each behind its `name`. -/
def standard : List (Bytes × Tag) :=
  [(utf8 "!!null", null), (utf8 "!!bool", boolean), (utf8 "!!str", text), (utf8 "!!int", integer),
    (utf8 "!!float", decimal), (utf8 "!!timestamp", timestamp), (utf8 "!!seq", sequence),
    (utf8 "!!map", mapping), (utf8 "!!binary", binary), (utf8 "!!merge", merge)]

/-- The name of a `Tag` as messages show it. -/
def name : Tag → Bytes
  | null => utf8 "!!null"
  | boolean => utf8 "!!bool"
  | text => utf8 "!!str"
  | integer => utf8 "!!int"
  | decimal => utf8 "!!float"
  | timestamp => utf8 "!!timestamp"
  | sequence => utf8 "!!seq"
  | mapping => utf8 "!!map"
  | binary => utf8 "!!binary"
  | merge => utf8 "!!merge"
  | other name => name

/-- How the tags of the format start when they are written in full. -/
def fullStart : Bytes := utf8 "tag:yaml.org,2002:"

/-- The tag with the given `name`, which may be written in full with `fullStart`.  A mark alone says
nothing. -/
def ofName? (name : Bytes) : Option Tag :=
  if name = utf8 "!" then none
  else
    let name := if fullStart.isPrefixOf name then utf8 "!!" ++ name.drop fullStart.length else name
    some ((standard.lookup name).getD (other name))

@[simp] theorem ofName?_name_standard (entry : Bytes × Tag) (h : entry ∈ standard) :
    ofName? entry.2.name = some entry.2 := by
  revert entry
  decide

end Tag

/-- A node of a YAML document. -/
inductive Node
  /-- A scalar. -/
  | scalar (line : Nat) (tag : Option Tag) (style : Style) (text : String)
  /-- A sequence. -/
  | sequence (line : Nat) (tag : Option Tag) (items : List Node)
  /-- A mapping, its entries in the order in which they were written. -/
  | mapping (line : Nat) (tag : Option Tag) (entries : List (Node × Node))
  /-- The name of a node that starts before, and the number of that node among those with names. -/
  | reference (line : Nat) (name : String) (target : Nat)
  deriving Inhabited

namespace Node

/-- A node that was left out. -/
def missing (line : Nat) : Node := scalar line none .plain ""

/-- The line a node starts on. -/
def line : Node → Nat
  | scalar line .. | sequence line .. | mapping line .. | reference line .. => line

end Node

/-- A document. -/
structure Document where
  /-- Its node. -/
  root : Node
  /-- The nodes that were given names, with their numbers. -/
  named : List (Nat × Node)

/-- The node that a `Node.reference` stands for, and any other node itself. -/
def Document.follow? (document : Document) : Node → Option Node
  | .reference _ _ target => document.named.lookup target
  | node => some node

end TreeWalk.Yaml
