import TreeWalk.Yaml.Property

/-!
# YAML tokens

The signs, names and scalars of a YAML text.  Indentation and the colon behind a key stand for
signs that are not written: where a block starts and ends, and where a key starts.

## Main definitions

* `Yaml.Style` — how a scalar is written.
* `Yaml.Sign` — what a token is.
* `Yaml.Token` — a token and its line.
-/

namespace TreeWalk.Yaml

/-- How a scalar is written. -/
inductive Style
  /-- Without quotes: what it means depends on its text. -/
  | plain
  /-- In quotes or as an indented block: it means its text. -/
  | quoted
  deriving DecidableEq, Repr, Inhabited

/-- What a token is. -/
inductive Sign
  /-- The end of the text. -/
  | finish
  /-- A line in front of a document. -/
  | directive (directive : Directive)
  /-- The marker that starts a document. -/
  | documentStart
  /-- The marker that ends a document. -/
  | documentEnd
  /-- A place where an indented sequence starts. -/
  | sequenceBlock
  /-- A place where an indented mapping starts. -/
  | mappingBlock
  /-- A place where an indented sequence or mapping ends. -/
  | blockEnd
  /-- The bracket that opens a sequence. -/
  | openSequence
  /-- The bracket that closes a sequence. -/
  | closeSequence
  /-- The brace that opens a mapping. -/
  | openMapping
  /-- The brace that closes a mapping. -/
  | closeMapping
  /-- The comma between items in brackets. -/
  | comma
  /-- The dash in front of an item. -/
  | item
  /-- A place where a key starts, or the question mark in front of one. -/
  | key
  /-- The colon in front of a value. -/
  | value
  /-- The name of a node that stands elsewhere. -/
  | reference (name : String)
  /-- The name that a node is given. -/
  | anchor (name : String)
  /-- A tag. -/
  | tag (tag : WrittenTag)
  /-- A scalar. -/
  | scalar (style : Style) (text : String)
  deriving DecidableEq, Repr

/-- A token. -/
structure Token where
  /-- What it is. -/
  sign : Sign
  /-- The line it starts on. -/
  line : Nat
  deriving DecidableEq, Repr

end TreeWalk.Yaml
