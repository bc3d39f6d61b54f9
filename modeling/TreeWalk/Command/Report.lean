import TreeWalk.Diagnostic

/-!
# Reports

What a command prints, piece by piece, and the code with which it ends.  Pieces that tell of an
error are kept apart from the others, because they are red where output is coloured.

## Main definitions

* `Piece`, `Report` — the output of a command.
* `red` — a text with every line of it in red.
* `Report.render` — the output, coloured or not.
-/

namespace TreeWalk

/-- The codes with which a program can end. -/
inductive ExitCode
  /-- All is well. -/
  | success
  /-- Something is wrong with a program or with how a command was given. -/
  | failure
  /-- A program was given up, or could not be read. -/
  | fatal
  deriving DecidableEq, Repr

/-- The number of an `ExitCode`. -/
def ExitCode.toNat : ExitCode → Nat
  | success => 0
  | failure => 1
  | fatal => 2

/-- A piece of output. -/
inductive Piece
  /-- A result. -/
  | plain (text : Bytes)
  /-- An error. -/
  | error (text : Bytes)
  deriving DecidableEq, Repr

/-- What a command prints, and the code with which it ends. -/
structure Report where
  /-- The code. -/
  code : ExitCode
  /-- The output. -/
  pieces : List Piece
  deriving DecidableEq, Repr

/-- The bytes that turn the following output red. -/
def redOn : Bytes := 27 :: utf8 "[31m"

/-- The bytes that end coloured output. -/
def redOff : Bytes := 27 :: utf8 "[0m"

/-- A line without the line feed at its end. -/
def chomp (line : Bytes) : Bytes :=
  if line.getLast? = some (ascii '\n') then line.dropLast else line

/-- A line in red.  It ends with a line feed even if `line` had none. -/
def redLine (line : Bytes) : Bytes := redOn ++ chomp line ++ redOff ++ utf8 "\n"

/-- A text with every line of it in red; the lines are those of `Bytes.linesAfter`. -/
def red (text : Bytes) : Bytes := text.linesAfter.flatMap redLine

/-- A text as a line. -/
def asLine (text : Bytes) : Bytes := text ++ utf8 "\n"

namespace Piece

/-- A line that tells of an error. -/
def errorLine (text : Bytes) : Piece := .error (asLine text)

/-- A line with a result. -/
def plainLine (text : Bytes) : Piece := .plain (asLine text)

/-- A piece as it is printed: errors are in `red` if `color` holds. -/
def render (color : Bool) : Piece → Bytes
  | plain text => text
  | error text => if color then red text else text

end Piece

/-- The output of a command as it is printed, piece by piece with `Piece.render`. -/
def Report.render (color : Bool) (report : Report) : Bytes :=
  report.pieces.flatMap (Piece.render color)

end TreeWalk
