import TreeWalk.Files.System
import TreeWalk.Settings.Document

/-!
# The settings file

Settings live in a file below the user's settings directory.  The file is made with the default
contents where there is none; in development mode it is made anew every time.

## Main definitions

* `Environment`, `Environment.settingsDir?` — where the settings directory is.
* `Settings.load` — the settings in a file.
* `Settings.loadOrCreate` — the settings in a file that is made if need be.
* `Settings.setup` — the user's settings.
-/

namespace TreeWalk

/-- The variables that tell where settings are kept; one that is not set is empty. -/
structure Environment where
  /-- The directory for settings. -/
  configHome : Bytes
  /-- The user's directory. -/
  home : Bytes
  /-- The name of the operating system. -/
  system : Bytes
  /-- The directory for the data of programs. -/
  appData : Bytes
  deriving DecidableEq, Repr

/-- The directory of the settings file, if `environment` tells one. -/
def Environment.settingsDir? (environment : Environment) : Option Path :=
  let name := utf8 "monkey"
  if environment.configHome ≠ [] then some (Path.join [environment.configHome, name])
  else if environment.home = [] then none
  else if environment.system = utf8 "Windows_NT" then
    some (Path.join [environment.appData, name])
  else some (Path.join [environment.home, utf8 ".config", name])

namespace Settings

/-- Why there are no settings. -/
inductive StoreError
  /-- It cannot be told where settings are kept. -/
  | homeless
  /-- The settings directory cannot be made. -/
  | noDirectory (path : Path) (error : FileError)
  /-- It cannot be told whether there is a settings file. -/
  | hidden (path : Path) (error : FileError)
  /-- The settings file cannot be made. -/
  | unwritable (path : Path) (error : FileError)
  /-- The settings file cannot be opened. -/
  | unopened (path : Path) (error : FileError)
  /-- The settings file holds no settings. -/
  | undecodable (path : Path) (error : DecodeError)
  deriving DecidableEq, Repr

/-- The wording of a `StoreError`. -/
def StoreError.message : StoreError → Bytes
  | homeless => utf8 "could not determine home directory"
  | noDirectory path error =>
    utf8 "could not create config directory " ++ path ++ utf8 ": " ++ error.message
  | hidden path error =>
    utf8 "could not stat config file " ++ path ++ utf8 ": " ++ error.message
  | unwritable path error =>
    utf8 "could not write default config file " ++ path ++ utf8 ": " ++ error.message
  | unopened path error =>
    utf8 "could not open config file " ++ path ++ utf8 ": " ++ error.message
  | undecodable path error =>
    utf8 "could not load config file " ++ path ++ utf8 ": " ++ error.message

variable {m : Type → Type} [Monad m] [FileSystem m]

/-- The settings that reading the file at `path` gives.  A file that can be opened is decoded even
if reading it fails. -/
def ofRead (yaml : Yaml.Library) (path : Path) :
    Except FileError Bytes → Except StoreError Settings
  | .error error =>
    if error.action = .read then decoded (.error error.message) else .error (.unopened path error)
  | .ok content => decoded (.ok content)
where
  /-- The settings in a document, with the path they come from. -/
  decoded (document : Except Bytes Bytes) : Except StoreError Settings :=
    match decode yaml document with
    | .ok settings => .ok { settings with path := path }
    | .error error => .error (.undecodable path error)

/-- The settings in the file at `path`. -/
def load (yaml : Yaml.Library) (path : Path) : m (Except StoreError Settings) := do
  return ofRead yaml path (← FileSystem.read path)

/-- What is written to a settings file that is made. -/
def freshText (development : Bool) : Bytes :=
  if development then developmentText else initialText

/-- Makes the settings file with `freshText` in it, and loads it. -/
def create (yaml : Yaml.Library) (development : Bool) (path : Path) :
    m (Except StoreError Settings) := do
  match ← FileSystem.writeFile path (freshText development) with
  | .error error => return .error (.unwritable path error)
  | .ok () => load yaml path

/-- The settings in the file at `path`, which is made if there is none, and in `development` mode
always. -/
def loadOrCreate (yaml : Yaml.Library) (development : Bool) (path : Path) :
    m (Except StoreError Settings) := do
  match ← FileSystem.stat path with
  | .ok _ => if development then create yaml development path else load yaml path
  | .error error =>
    if error.fault = .absent then create yaml development path
    else return .error (.hidden path error)

/-- The settings of the user, in the directory that `Environment.settingsDir?` gives and that is
made if need be. -/
def setup (yaml : Yaml.Library) (development : Bool) (environment : Environment) :
    m (Except StoreError Settings) := do
  match environment.settingsDir? with
  | none => return .error .homeless
  | some directory =>
    match ← FileSystem.makeDirs directory with
    | .error error => return .error (.noDirectory directory error)
    | .ok () => loadOrCreate yaml development (Path.join [directory, utf8 "config.yaml"])

end Settings

end TreeWalk
