import TreeWalk.Session

/-!
# Trying out a program

A program text is tried out by reading it and, if nothing is wrong with it, running it in a session
of its own.  What is left of that are the messages of what is wrong with the text, or the value, the
session that keeps what was bound, and the output.

## Main definitions

* `Trial` — what is left of a program that was tried out.
* `TrialError` — why it gave no value.
* `tryOut` — tries out a program text.
-/

namespace TreeWalk

/-- What is left of a program that was tried out. -/
structure Trial where
  /-- The messages of what is wrong with the text. -/
  messages : List Bytes
  /-- The value, if there is one. -/
  value : Value
  /-- The session that keeps what was bound, if the program was run. -/
  session : Option Session
  /-- The messages, or how the value is shown. -/
  output : Bytes

/-- Why a program that was tried out gave no value. -/
inductive TrialError
  /-- Something is wrong with its text. -/
  | unreadable
  /-- It was given up. -/
  | aborted (abort : Abort)
  deriving DecidableEq, Repr

/-- The wording of a `TrialError`. -/
def TrialError.message : TrialError → Bytes
  | unreadable => utf8 "parse error found"
  | aborted abort => abort.message

/-- The start of a program text that is tried out; without a name it is called `test.mk`. -/
def Cursor.ofTrial (name text : Bytes) : Cursor := .startOr (utf8 "test.mk") name text

/-- Tries out a program `text`: it is read, and run in a new session if nothing is wrong with it.  A
`limit` of zero or less is no limit. -/
def tryOut (text name : Bytes) (limit : Int) : Option Trial × Option TrialError :=
  let (program, messages, _) := (Cursor.ofTrial name text).parseMessages
  if messages ≠ [] then
    (some ⟨messages, .nothing, none, Bytes.join (utf8 "\n") messages⟩, some .unreadable)
  else
    match (Session.start limit.toNat).run program with
    | (.error abort, _) => (none, some (.aborted abort))
    | (.ok value, session) => (some ⟨[], value, some session, value.inspect⟩, none)

end TreeWalk
