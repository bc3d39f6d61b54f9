import TreeWalk.Text.Bytes
import TreeWalk.Text.Quote

/-!
# Settings

What a user can choose: how many calls may be open at once, when output is coloured, and whether
the bindings of a program are listed after it ran.

## Main definitions

* `ColorMode` — when output is coloured.
* `Settings` — the settings, and the file they come from.
* `Settings.check` — what is wrong with them, if anything.
* `Settings.initialText`, `Settings.developmentText` — the files that are made.
-/

namespace TreeWalk

/-- When output is coloured. -/
inductive ColorMode
  /-- On a terminal. -/
  | auto
  /-- Always. -/
  | always
  /-- Never. -/
  | never
  deriving DecidableEq, Repr

namespace ColorMode

/-- The word for a `ColorMode`. -/
def word : ColorMode → Bytes
  | auto => utf8 "auto"
  | always => utf8 "always"
  | never => utf8 "never"

/-- The mode whose `word` is `text`. -/
def ofWord? (text : Bytes) : Option ColorMode :=
  if text = auto.word then some auto
  else if text = always.word then some always
  else if text = never.word then some never
  else none

@[simp] theorem ofWord?_word (mode : ColorMode) : ofWord? mode.word = some mode := by
  cases mode <;> decide

end ColorMode

/-- The settings.  They hold whatever a file or a caller gave; `Settings.check` tells whether that
can be used. -/
structure Settings where
  /-- The most calls that may be open at once; zero for no limit. -/
  maxCallDepth : Int
  /-- The word for when output is coloured. -/
  color : Bytes
  /-- Whether the bindings of a program are listed after it ran. -/
  showEnv : Bool
  /-- The file the settings come from, empty if they come from none. -/
  path : Bytes
  deriving DecidableEq, Repr

namespace Settings

/-- The settings where nothing else is chosen. -/
def default : Settings := ⟨10000, ColorMode.auto.word, false, []⟩

/-- Why settings cannot be used. -/
inductive Invalid
  /-- There is no such colour mode. -/
  | color (word : Bytes)
  /-- The number of calls is negative. -/
  | depth (number : Int)
  deriving DecidableEq, Repr

/-- The wording of an `Invalid`. -/
def Invalid.message : Invalid → Bytes
  | color word =>
    quoteBytes word ++ utf8 " (expected auto, always or never): invalid color mode"
  | depth number =>
    utf8 "got " ++ Bytes.ofInt number ++ utf8 ": max_call_depth must not be negative"

/-- What is wrong with `settings`, the colour first. -/
def check (settings : Settings) : Except Invalid Unit :=
  if (ColorMode.ofWord? settings.color).isNone then .error (.color settings.color)
  else if settings.maxCallDepth < 0 then .error (.depth settings.maxCallDepth)
  else .ok ()

/-- Whether output is coloured, given in `terminal` whether it goes to a terminal. -/
def useColor (settings : Settings) (terminal : Bool) : Bool :=
  match ColorMode.ofWord? settings.color with
  | some .always => true
  | some .never => false
  | _ => terminal

/-- The most calls that may be open at once, as `Session.start` takes it. -/
def limit (settings : Settings) : Nat := settings.maxCallDepth.toNat

/-- The file that `Settings.create` makes where there is none. -/
def initialText : Bytes :=
  utf8 "# maximum number of nested function calls, 0 disables the limit\n"
    ++ utf8 "max_call_depth: 10000\n"
    ++ utf8 "# auto, always or never\n"
    ++ utf8 "color: auto\n"
    ++ utf8 "# print the top-level bindings after \"monkey run\"\n"
    ++ utf8 "show_env: false\n"

/-- The file that `Settings.create` makes in development mode. -/
def developmentText : Bytes :=
  utf8 "max_call_depth: 1000\ncolor: always\nshow_env: true\n"

end Settings

end TreeWalk
