import TreeWalk.Settings.Basic
import TreeWalk.Yaml.Library

/-!
# Settings as a document

Settings are kept as a YAML document with three keys.  A key that is missing keeps the default, and
so does one that has nothing as its value; any other key is refused.  How documents are written and
read is up to a `Yaml.Library`.

## Main definitions

* `Settings.shape`, `Settings.entries` — the keys and their types, and the values.
* `Settings.text` — the settings as a document.
* `Settings.decode` — the settings in a document.
-/

namespace TreeWalk.Settings

/-- The keys of a document and their types. -/
def shape : Yaml.Shape where
  fields :=
    [⟨utf8 "max_call_depth", .integer, "int"⟩, ⟨utf8 "color", .text, "config.Color"⟩,
      ⟨utf8 "show_env", .boolean, "bool"⟩]
  typeLabel := "config.Config"

/-- The keys and values of `settings`, in the order of `shape`.  The path is not kept. -/
def entries (settings : Settings) : List (Bytes × Yaml.Datum) :=
  [(utf8 "max_call_depth", .integer settings.maxCallDepth), (utf8 "color", .text settings.color),
    (utf8 "show_env", .boolean settings.showEnv)]

/-- The `settings` as a document that `yaml` writes, or why there is none. -/
def text (yaml : Yaml.Library) (settings : Settings) : Except Bytes Bytes :=
  match yaml.write settings.entries with
  | .ok text => .ok text
  | .error message => .error (utf8 "could not encode config: " ++ message)

/-- Sets the field with the given key.  No other key comes from a document of the right shape. -/
def assign (settings : Settings) : Bytes × Yaml.Datum → Settings
  | (key, .integer value) =>
    if key = utf8 "max_call_depth" then { settings with maxCallDepth := value } else settings
  | (key, .text value) =>
    if key = utf8 "color" then { settings with color := value } else settings
  | (key, .boolean value) =>
    if key = utf8 "show_env" then { settings with showEnv := value } else settings

/-- Why a document gives no settings. -/
inductive DecodeError
  /-- It cannot be read. -/
  | unreadable (error : Yaml.ReadError)
  /-- The settings cannot be used. -/
  | invalid (reason : Invalid)
  deriving DecidableEq, Repr

/-- The wording of a `DecodeError`. -/
def DecodeError.message : DecodeError → Bytes
  | unreadable error => error.message
  | invalid reason => reason.message

/-- The `settings` if `check` finds nothing wrong with them. -/
def validated (settings : Settings) : Except DecodeError Settings :=
  match settings.check with
  | .ok () => .ok settings
  | .error reason => .error (.invalid reason)

/-- The settings in a `document`, which is what was read from a file, or the message of an error on
the way.  Where a text ends before a document starts, the settings are `default`. -/
def decode (yaml : Yaml.Library) (document : Except Bytes Bytes) : Except DecodeError Settings :=
  match yaml.read shape document with
  | (none, assigned) | (some .ended, assigned) => (assigned.foldl assign default).validated
  | (some error, _) => .error (.unreadable error)

end TreeWalk.Settings
