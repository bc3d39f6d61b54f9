import Mathlib.Control.Monad.Basic
import Mathlib.Data.List.Basic
import TreeWalk.Command.Arguments
import TreeWalk.Proofs.FileLaws

/-!
# The arguments of `run`

The command `run` is meant to take one file, and a flag that may stand anywhere.  The arguments are
gone through one by one, and the path that was seen last is kept; as long as it is empty, none was
seen.  So an empty argument does not count when it comes before the file, and counts as a second
file when it comes behind it.  Where no argument is empty, one file is what is taken, and the order
of the arguments does not matter.

The arguments are any byte strings, and files are looked up in any `LawfulFileSystem`.

## Main definitions

* `Command.onlyPath` — what becomes of the paths among the arguments.
* `Command.ofArgumentsIn` — reads arguments in a state of the files.
* `Command.NamesOneFile` — apart from flags there is one argument, and it names a file.

## Main results

* `Command.runArguments_eq` — **going through the arguments leaves out the flags and the empty paths
  in front.**
* `Command.run_takes_one_file` — when a command to run a file is understood.
* `Command.run_takes_empty_and_file` — two arguments that are taken for one file.
-/

namespace TreeWalk

open FileSystem

namespace Command

/-! ### Going through the arguments -/

/-- What becomes of the paths among the arguments: there has to be exactly one. -/
def onlyPath : List Path → Except UsageError Path
  | [] => .error .noFile
  | [path] => .ok path
  | first :: second :: _ => .error (.twoFiles first second)

/-- **Going through the arguments leaves out the flags and the empty paths in front**, the `path`
seen before among them: `runArguments` is `onlyPath` of what is left. -/
theorem runArguments_eq (path : Path) (showEnv : Bool) (arguments : List Bytes) :
    runArguments path showEnv arguments =
      (onlyPath ((path :: arguments.filter (· ≠ showEnvFlag)).dropWhile (· = []))).map
        fun path => (path, showEnv || decide (showEnvFlag ∈ arguments)) := by
  induction arguments generalizing path showEnv with
  | nil =>
    by_cases hpath : path = []
    · simp [runArguments, onlyPath, Except.map, hpath]
    · simp [runArguments, onlyPath, Except.map, hpath]
  | cons argument more ih =>
    rw [runArguments]
    by_cases hflag : argument = showEnvFlag
    · rw [if_pos hflag, ih]
      simp [hflag]
    rw [if_neg hflag]
    by_cases hpath : path = []
    · rw [if_neg (not_not.2 hpath), ih]
      simp [hpath, hflag, Ne.symm hflag]
    · rw [if_pos hpath]
      simp [hpath, hflag, onlyPath, Except.map]

/-! ### Looking up the file -/

variable {σ : Type} [FileSystem (StateM σ)]

/-- Reads `arguments` in a `state` of the files. -/
def ofArgumentsIn (state : σ) (arguments : List Bytes) : Except UsageError Command × σ :=
  (ofArguments arguments : StateM σ (Except UsageError Command)) state

/-- Looks up the file at `path` in a `state` of the files. -/
def fileArgumentIn (state : σ) (path : Path) : Except UsageError SourceFile × σ :=
  (fileArgument path : StateM σ (Except UsageError SourceFile)) state

variable [LawfulFileSystem σ] {state : σ} {arguments other : List Bytes} {command : Command}

/-- `SourceFile.locate` finds a source file if the path names something that is no directory. -/
theorem locate_apply (state : σ) (path : Path) :
    (SourceFile.locate path : StateM σ (Except LocateError SourceFile)) state =
      (match statIn state path with
        | .error error => .error (.unfound error)
        | .ok .directory => .error (.directory path)
        | .ok .file => .ok (.ofPath path), state) := by
  simp only [SourceFile.locate, bind, StateT.bind, stat_apply]
  cases statIn state path with
  | error error => rfl
  | ok kind => cases kind <;> rfl

/-- `Command.fileArgument` finds the file if the path names something that is no directory. -/
theorem fileArgumentIn_eq (state : σ) (path : Path) :
    fileArgumentIn state path =
      (match statIn state path with
        | .error error => .error (.missing path error)
        | .ok .directory => .error (.invalid path (.directory path))
        | .ok .file => .ok (.ofPath path), state) := by
  simp only [fileArgumentIn, fileArgument, bind, StateT.bind, stat_apply]
  cases hkind : statIn state path with
  | error error => rfl
  | ok kind =>
    simp only [StateT.bind, locate_apply, hkind]
    cases kind <;> rfl

theorem fileArgumentIn_eq_ok_iff {path : Path} {file : SourceFile} :
    (fileArgumentIn state path).1 = .ok file ↔
      statIn state path = .ok .file ∧ file = .ofPath path := by
  rw [fileArgumentIn_eq]
  cases statIn state path with
  | error error => simp
  | ok kind => cases kind <;> simp [eq_comm]

omit [LawfulFileSystem σ] in
/-- `Command.runArguments` goes through the arguments before the file is looked up. -/
theorem ofArgumentsIn_run (state : σ) (arguments : List Bytes) :
    (ofArgumentsIn state (utf8 "run" :: arguments)).1 =
      match runArguments [] false arguments with
      | .error error => .error error
      | .ok (path, showEnv) => (fileArgumentIn state path).1.map (.run · showEnv) := by
  have hhelp : utf8 "run" ≠ utf8 "help" := by decide
  have henv : utf8 "run" ≠ utf8 "env" := by decide
  simp only [ofArgumentsIn, ofArguments, if_neg hhelp, if_neg henv, if_true]
  cases runArguments [] false arguments with
  | error error => rfl
  | ok found =>
    simp only [bind, StateT.bind, fileArgumentIn]
    rcases (fileArgument found.1 : StateM σ (Except UsageError SourceFile)) state with
      ⟨_ | file, after⟩
    · rfl
    · rfl

/-- When `ofArgumentsIn` understands a command to run a file, and as what. -/
theorem ofArgumentsIn_run_eq_ok_iff :
    (ofArgumentsIn state (utf8 "run" :: arguments)).1 = .ok command ↔
      ∃ path, (arguments.filter (· ≠ showEnvFlag)).dropWhile (· = []) = [path] ∧
        statIn state path = .ok .file ∧
        command = .run (.ofPath path) (showEnvFlag ∈ arguments) := by
  have hscan := runArguments_eq [] false arguments
  rw [List.dropWhile_cons_of_pos (by rfl), Bool.false_or] at hscan
  rw [ofArgumentsIn_run, hscan]
  match hpaths : (arguments.filter (· ≠ showEnvFlag)).dropWhile (· = []) with
  | [] => simp [onlyPath, Except.map]
  | first :: second :: more => simp [onlyPath, Except.map]
  | [path] =>
    show (fileArgumentIn state path).1.map (run · (showEnvFlag ∈ arguments)) = .ok command ↔ _
    constructor
    · intro h
      cases hfound : (fileArgumentIn state path).1 with
      | error error =>
        rw [hfound] at h
        cases h
      | ok file =>
        obtain ⟨hstat, rfl⟩ := fileArgumentIn_eq_ok_iff.1 hfound
        rw [hfound] at h
        exact ⟨path, rfl, hstat, (Except.ok.inj h).symm⟩
    · rintro ⟨other, hother, hstat, rfl⟩
      obtain rfl := List.singleton_inj.1 hother
      rw [fileArgumentIn_eq_ok_iff.2 ⟨hstat, rfl⟩]
      rfl

/-! ### One file -/

/-- Apart from flags there is one of the `arguments`, and it names a file. -/
def NamesOneFile (state : σ) (arguments : List Bytes) : Prop :=
  ∃ path, arguments.filter (· ≠ showEnvFlag) = [path] ∧ statIn state path = .ok .file

/-- `dropWhile` leaves out empty arguments only where they come first. -/
theorem dropWhile_of_head? {paths : List Path} (h : paths.head? ≠ some []) :
    paths.dropWhile (· = []) = paths := by
  cases paths with
  | nil => rfl
  | cons path more =>
    have hpath : path ≠ [] := fun heq => h (congrArg some heq)
    simp [hpath]

/-- No file has an empty path, by the law `stat_nil`. -/
theorem ne_nil_of_stat {path : Path} (h : statIn state path = .ok .file) : path ≠ [] := by
  rintro rfl
  cases (LawfulFileSystem.stat_nil state).symm.trans h

theorem NamesOneFile.exists_command (h : NamesOneFile state arguments) :
    ∃ command, (ofArgumentsIn state (utf8 "run" :: arguments)).1 = .ok command := by
  obtain ⟨path, hpaths, hstat⟩ := h
  have hdrop : [path].dropWhile (· = []) = [path] := by simp [ne_nil_of_stat hstat]
  exact ⟨_, ofArgumentsIn_run_eq_ok_iff.2 ⟨path, hpaths ▸ hdrop, hstat, rfl⟩⟩

theorem NamesOneFile.head?_ne (h : NamesOneFile state arguments) :
    (arguments.filter (· ≠ showEnvFlag)).head? ≠ some [] := by
  obtain ⟨path, hpaths, hstat⟩ := h
  rw [hpaths]
  exact fun hhead => ne_nil_of_stat hstat (Option.some.inj hhead)

/-- Where no empty argument comes first, `ofArgumentsIn` asks for exactly one path, which names a
file. -/
theorem ofArgumentsIn_run_of_head? (h : (arguments.filter (· ≠ showEnvFlag)).head? ≠ some []) :
    (ofArgumentsIn state (utf8 "run" :: arguments)).1 = .ok command ↔
      ∃ path, arguments.filter (· ≠ showEnvFlag) = [path] ∧ statIn state path = .ok .file ∧
        command = .run (.ofPath path) (showEnvFlag ∈ arguments) := by
  rw [ofArgumentsIn_run_eq_ok_iff, dropWhile_of_head? h]

theorem head?_filter_ne (h : [] ∉ arguments) :
    (arguments.filter (· ≠ showEnvFlag)).head? ≠ some [] :=
  fun hhead => h (List.mem_of_mem_filter (List.mem_of_mem_head? hhead))

/-- Where no argument is empty, their order does not matter to `ofArgumentsIn`. -/
theorem ofArgumentsIn_run_of_perm (h : [] ∉ arguments) (hperm : arguments.Perm other)
    (hother : (ofArgumentsIn state (utf8 "run" :: arguments)).1 = .ok command) :
    (ofArgumentsIn state (utf8 "run" :: other)).1 = .ok command := by
  obtain ⟨path, hpaths, hstat, rfl⟩ := (ofArgumentsIn_run_of_head? (head?_filter_ne h)).1 hother
  have hpaths' : other.filter (· ≠ showEnvFlag) = [path] := by
    have hfiltered := hperm.filter (· ≠ showEnvFlag)
    rw [hpaths] at hfiltered
    exact List.singleton_perm.1 hfiltered |>.symm
  refine (ofArgumentsIn_run_of_head? (head?_filter_ne (mt hperm.mem_iff.2 h))).2
    ⟨path, hpaths', hstat, ?_⟩
  simp only [hperm.mem_iff]

/-- **When a command to run a file is understood.**  That is so if and only if, apart from flags,
empty arguments are followed by one that names a file; this file is run, and its bindings are listed
if there is a flag.  So a command that names one file is understood.  Commands with other arguments
are understood exactly if an empty one comes first.  If no argument is empty, one file has to be
named, and the order of the arguments does not matter. -/
theorem run_takes_one_file (state : σ) (arguments : List Bytes) :
    let understood (arguments : List Bytes) (command : Command) : Prop :=
      (ofArgumentsIn state (utf8 "run" :: arguments)).1 = .ok command
    let paths := arguments.filter (· ≠ utf8 "-env")
    (∀ command, understood arguments command ↔
      ∃ path, paths.dropWhile (· = []) = [path] ∧ statIn state path = .ok .file ∧
        command = .run (.ofPath path) (utf8 "-env" ∈ arguments)) ∧
    (NamesOneFile state arguments → ∃ command, understood arguments command) ∧
    (((∃ command, understood arguments command) ↔ NamesOneFile state arguments) ↔
      ¬ (paths.head? = some [] ∧ ∃ command, understood arguments command)) ∧
    ([] ∉ arguments →
      ((∃ command, understood arguments command) ↔ NamesOneFile state arguments) ∧
      ∀ other, arguments.Perm other →
        ∀ command, understood arguments command ↔ understood other command) := by
  intro understood paths
  have hone (hhead : paths.head? ≠ some []) :
      (∃ command, understood arguments command) ↔ NamesOneFile state arguments := by
    constructor
    · rintro ⟨command, hcommand⟩
      obtain ⟨path, hpaths, hstat, -⟩ := (ofArgumentsIn_run_of_head? hhead).1 hcommand
      exact ⟨path, hpaths, hstat⟩
    · exact NamesOneFile.exists_command
  refine ⟨fun command => ofArgumentsIn_run_eq_ok_iff, NamesOneFile.exists_command, ?_, ?_⟩
  · constructor
    · rintro hiff ⟨hhead, hcommand⟩
      exact (hiff.1 hcommand).head?_ne hhead
    · intro hnot
      by_cases hhead : paths.head? = some []
      · have hnone : ¬ ∃ command, understood arguments command := fun hsome => hnot ⟨hhead, hsome⟩
        exact iff_of_false hnone (mt NamesOneFile.exists_command hnone)
      · exact hone hhead
  · intro hempty
    refine ⟨hone (head?_filter_ne hempty), fun other hperm command => ⟨?_, ?_⟩⟩
    · exact ofArgumentsIn_run_of_perm hempty hperm
    · exact ofArgumentsIn_run_of_perm (mt hperm.mem_iff.2 hempty) hperm.symm

/-- A flag may come before the file or behind it.  The file is given by a rooted path, and its name
is no UTF-8. -/
theorem run_takes_one_file_flagged :
    let path : Path := utf8 "/" ++ [255]
    let tree : FileTree := { entries := [([[255]], .file [])] }
    let command : Command := .run (.ofPath path) true
    [] ∉ [utf8 "-env", path] ∧ [utf8 "-env", path].Perm [path, utf8 "-env"] ∧
      NamesOneFile tree [utf8 "-env", path] ∧
      (ofArgumentsIn tree [utf8 "run", utf8 "-env", path]).1 = .ok command ∧
      (ofArgumentsIn tree [utf8 "run", path, utf8 "-env"]).1 = .ok command := by
  intro path tree command
  have hempty : [] ∉ [utf8 "-env", path] := by decide
  have hperm : [utf8 "-env", path].Perm [path, utf8 "-env"] := List.Perm.swap _ _ _
  have hstat : statIn tree path = .ok .file := by decide +kernel
  obtain ⟨hcommand, -, -, horder⟩ := run_takes_one_file tree [utf8 "-env", path]
  have hflagged := (hcommand command).2 ⟨path, by decide, hstat, rfl⟩
  exact ⟨hempty, hperm, ⟨path, by decide, hstat⟩, hflagged,
    ((horder hempty).2 _ hperm command).1 hflagged⟩

/-- An empty argument and a file are taken for one file, unless the empty one comes last. -/
theorem run_takes_empty_and_file :
    let path := utf8 "a.mk"
    let tree : FileTree := { entries := [([path], .file [])] }
    ¬ NamesOneFile tree [[], path] ∧
      (ofArgumentsIn tree [utf8 "run", [], path]).1 = .ok (.run (.ofPath path) false) ∧
      (ofArgumentsIn tree [utf8 "run", path, []]).1 = .error (.twoFiles path []) := by
  intro path tree
  have hstat : statIn tree path = .ok .file := by decide +kernel
  refine ⟨fun hone => hone.head?_ne (by decide), ?_, ?_⟩
  · exact ofArgumentsIn_run_eq_ok_iff.2 ⟨path, by decide, hstat, rfl⟩
  · rw [ofArgumentsIn_run]
    rfl

end Command

end TreeWalk
