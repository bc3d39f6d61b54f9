import TreeWalk.Token.Basic

/-!
# Diagnostics

What is wrong with a program text, and where.  The causes that reading a program can have are a
type of their own, `Complaint`, and its wording stands in one place.  A `Collector` keeps
diagnostics in the order in which they are reported, and can echo each one as it comes in.

## Main definitions

* `Complaint`, `Complaint.message` — the causes and their wording.
* `Diagnostic`, `Diagnostic.text` — a message with its place.
* `Collector`, `Collector.report`, `Collector.reportAll` — the diagnostics so far.
-/

namespace TreeWalk

/-- Why a statement cannot be read. -/
inductive Complaint
  /-- The next token should have been another one. -/
  | expected (wanted found : Kind)
  /-- No expression starts with a token of this kind. -/
  | noExpression (kind : Kind)
  /-- The number is too large for a double. -/
  | tooLarge (digits : Bytes)
  deriving DecidableEq, Repr

/-- The wording of a `Complaint`. -/
def Complaint.message : Complaint → Bytes
  | expected wanted found =>
    utf8 "expected next token to be " ++ wanted.label ++ utf8 ", got " ++ found.label
      ++ utf8 " instead"
  | noExpression kind => utf8 "no prefix parse rule for token kind " ++ kind.label
  | tooLarge digits => utf8 "could not parse \"" ++ digits ++ utf8 "\" as integer"

/-- A message and the place it is about. -/
structure Diagnostic where
  /-- The message. -/
  message : Bytes
  /-- The place. -/
  pos : Position
  deriving DecidableEq, Repr

namespace Diagnostic

/-- The diagnostic for a `complaint` at `pos`. -/
def of (complaint : Complaint) (pos : Position) : Diagnostic := ⟨complaint.message, pos⟩

/-- The line for a diagnostic: the place and the message, or the message alone when the file has
no name. -/
def text (diagnostic : Diagnostic) : Bytes :=
  if diagnostic.pos.file = [] then diagnostic.message
  else diagnostic.pos.text ++ utf8 ": " ++ diagnostic.message

end Diagnostic

/-- The diagnostics reported so far, which is a value that `Collector.report` makes a new one of. -/
structure Collector where
  /-- Whether each diagnostic is echoed as it is reported. -/
  echoes : Bool
  /-- The diagnostics in the order of their reports. -/
  diagnostics : List Diagnostic
  /-- What has been echoed so far, one write for each diagnostic. -/
  echoed : List Bytes

namespace Collector

/-- A collector without diagnostics; `echoes` tells whether it echoes them. -/
def empty (echoes : Bool) : Collector := ⟨echoes, [], []⟩

/-- Adds `diagnostic`, echoing its `Diagnostic.text` as a line if the collector does so. -/
def report (collector : Collector) (diagnostic : Diagnostic) : Collector :=
  { collector with
    diagnostics := collector.diagnostics ++ [diagnostic]
    echoed := collector.echoed
      ++ if collector.echoes then [diagnostic.text ++ utf8 "\n"] else [] }

/-- Adds `diagnostics` one after the other with `report`. -/
def reportAll (collector : Collector) (diagnostics : List Diagnostic) : Collector :=
  diagnostics.foldl report collector

/-- Whether anything has been reported. -/
def hasErrors (collector : Collector) : Bool := !collector.diagnostics.isEmpty

/-- The messages in the order of their reports. -/
def messages (collector : Collector) : List Bytes := collector.diagnostics.map (·.message)

end Collector

end TreeWalk
