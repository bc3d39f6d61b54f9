import Mathlib.Data.List.Nodup
import Mathlib.Logic.Relation
import TreeWalk.Proofs.FrontEnds

/-!
# Files that are checked at the same time

Each file has a worker of its own, which reads the file, looks at what it holds, and then leaves the
diagnostics in the slot of the file, or says why the file cannot be read.  The workers share the
slots and the place for the first failure, and nothing tells in which order they get on.  What is
reported in the end depends on the files alone, but for which of several unreadable files is blamed.

Every order in which files can be done one after the other is one way for the workers to get on; so
what is proved of the workers holds of `Command.checkIn`.

## Main definitions

* `SourceFile.diagnosticsIn` — what is wrong with the program in a source file.
* `Worker`, `Pool`, `Pool.Step` — the workers, and what one of them can do next.
* `Pool.Sound` — the workers hold, and have left behind, what their files say.
* `Report.TellsOf` — what a report should tell of files.

## Main results

* `Pool.Sound.step` — **every step of every worker keeps the pool sound.**
* `Command.checkIn_reached` — files done in any order are done by workers.
* `Command.check_blind_to_order` — **the report does not depend on the order.**
-/

namespace TreeWalk

open FileSystem

section

variable {σ : Type} [FileSystem (StateM σ)]

/-- What is wrong with the program in `file`, as `Check.diagnose` tells; nothing if the file cannot
be read. -/
def SourceFile.diagnosticsIn (file : SourceFile) (state : σ) : List Diagnostic :=
  match file.textIn state with
  | .ok text => Check.diagnose file.name text
  | .error _ => []

namespace SourceFile

variable {state : σ} {file : SourceFile}

theorem diagnosticsIn_of_textIn {text : Bytes} (h : file.textIn state = .ok text) :
    file.diagnosticsIn state = Check.diagnose file.name text := by
  rw [diagnosticsIn, h]

/-- A `file` that cannot be read is blamed by its path, with what `readIn` says. -/
theorem exists_of_textIn_error {error : SourceError} (h : file.textIn state = .error error) :
    ∃ fault, readIn state file.path = .error fault ∧ error = .unreadable file.path fault := by
  rw [textIn] at h
  cases hread : readIn state file.path with
  | ok text =>
    rw [hread] at h
    cases h
  | error fault =>
    rw [hread] at h
    exact ⟨fault, rfl, (Except.error.inj h).symm⟩

end SourceFile

/-! ### Workers -/

/-- How far the worker for a file has come: `waiting`, `holding` what it has read, or `done`. -/
inductive Worker
  /-- It has not begun. -/
  | waiting
  /-- It has read the file, or tried to. -/
  | holding (text : Except SourceError Bytes)
  /-- It has left its result behind. -/
  | done

/-- Workers, one for each file, and what they share. -/
structure Pool where
  /-- The workers in the order of their files. -/
  workers : List Worker
  /-- The slots, and the first failure. -/
  check : Check

namespace Pool

/-- No worker has begun, and `Check.start` is what they share. -/
def start (files : List SourceFile) : Pool := ⟨files.map fun _ => .waiting, .start files⟩

/-- All workers are done. -/
def Done (pool : Pool) : Prop := ∀ worker ∈ pool.workers, worker = .done

/-- What can happen next: some worker reads its file, or some worker that has read its file is done
with it.  Which worker gets on is left open. -/
inductive Step (state : σ) (files : List SourceFile) : Pool → Pool → Prop
  /-- A worker reads its file. -/
  | read {pool : Pool} {slot : Nat} {file : SourceFile} (hfile : files[slot]? = some file)
      (hworker : pool.workers[slot]? = some .waiting) :
      Step state files pool
        { pool with workers := pool.workers.set slot (.holding (file.textIn state)) }
  /-- A worker is done with what it has read. -/
  | finish {pool : Pool} {slot : Nat} {file : SourceFile} {text : Except SourceError Bytes}
      (hfile : files[slot]? = some file) (hworker : pool.workers[slot]? = some (.holding text)) :
      Step state files pool ⟨pool.workers.set slot .done, pool.check.finish slot file text⟩

/-- What workers can come to from `start`, in any order. -/
def Reached (state : σ) (files : List SourceFile) : Pool → Prop :=
  Relation.ReflTransGen (Step state files) (start files)

/-- A worker is as it should be, given what its file says: it holds what it has read, and once it is
done the diagnostics are in its slot, or it is known that some file cannot be read. -/
def Fits (state : σ) (check : Check) (slot : Nat) (file : SourceFile) : Worker → Prop
  | .waiting => True
  | .holding text => text = file.textIn state
  | .done =>
    match file.textIn state with
    | .ok text => check.slots[slot]? = some (Check.diagnose file.name text)
    | .error _ => check.failed ≠ none

/-- All workers are as they should be (`Fits`), and whatever file is blamed cannot be read. -/
structure Sound (state : σ) (files : List SourceFile) (pool : Pool) : Prop where
  /-- There is a worker for each file. -/
  workers : pool.workers.length = files.length
  /-- There is a slot for each file. -/
  slots : pool.check.slots.length = files.length
  /-- Each worker is as it should be. -/
  fits : ∀ (slot : Nat) file worker, files[slot]? = some file →
    pool.workers[slot]? = some worker → Fits state pool.check slot file worker
  /-- Only files that cannot be read are blamed. -/
  failed : ∀ error, pool.check.failed = some error →
    ∃ file ∈ files, file.textIn state = .error error

variable {state : σ} {files : List SourceFile} {pool next : Pool}

theorem start_sound (state : σ) (files : List SourceFile) :
    (start files).Sound state files where
  workers := List.length_map _
  slots := List.length_map _
  fits slot file worker hfile hworker := by
    obtain rfl : Worker.waiting = worker := by
      rw [start, List.getElem?_map, hfile] at hworker
      exact Option.some.inj hworker
    trivial
  failed error herror := by cases herror

/-- A worker that is done `Fits`: `Check.finish` has left the diagnostics in its slot, or has noted
a failure. -/
theorem fits_finish (check : Check) {slot : Nat} (hslot : slot < check.slots.length)
    (file : SourceFile) :
    Fits state (check.finish slot file (file.textIn state)) slot file .done := by
  rw [Fits]
  cases hsource : file.textIn state with
  | ok text => exact List.getElem?_set_self hslot
  | error error =>
    rw [Check.finish]
    cases check.failed <;> exact Option.some_ne_none _

/-- What `Check.finish` leaves in one slot does not touch the workers of the other slots. -/
theorem Fits.finish {check : Check} {slot other : Nat} {file : SourceFile} {worker : Worker}
    (h : Fits state check other file worker) (hne : slot ≠ other) (done : SourceFile)
    (text : Except SourceError Bytes) :
    Fits state (check.finish slot done text) other file worker := by
  cases worker with
  | waiting => trivial
  | holding held => exact h
  | done =>
    rw [Fits] at h ⊢
    cases text with
    | ok text =>
      rw [Check.finish, List.getElem?_set_ne hne]
      exact h
    | error error =>
      -- some failure is noted now, and the slots are as they were
      cases hsource : file.textIn state with
      | ok text =>
        rw [hsource] at h
        exact h
      | error reason =>
        rw [Check.finish]
        cases check.failed <;> exact Option.some_ne_none _

/-- If the worker of one `slot` has `changed` and fits in its new state, and the others still fit
what is shared by then, all of them fit. -/
theorem Sound.fits_set (h : pool.Sound state files) {slot : Nat} {file : SourceFile}
    (hfile : files[slot]? = some file) {check : Check} {changed : Worker}
    (hchanged : Fits state check slot file changed)
    (hothers : ∀ other file' worker, slot ≠ other → Fits state pool.check other file' worker →
      Fits state check other file' worker)
    (other : Nat) (file' : SourceFile) (worker : Worker) (hfile' : files[other]? = some file')
    (hworker : (pool.workers.set slot changed)[other]? = some worker) :
    Fits state check other file' worker := by
  by_cases hne : slot = other
  · subst hne
    obtain rfl : file = file' := Option.some.inj (hfile.symm.trans hfile')
    rw [List.getElem?_set_self'] at hworker
    obtain ⟨_, -, rfl⟩ := Option.map_eq_some_iff.1 hworker
    exact hchanged
  · rw [List.getElem?_set_ne hne] at hworker
    exact hothers other file' worker hne (h.fits other file' worker hfile' hworker)

/-- `Sound` is kept when a worker reads its file, which changes nothing that is shared. -/
theorem Sound.read (h : pool.Sound state files) {slot : Nat} {file : SourceFile}
    (hfile : files[slot]? = some file) :
    Sound state files
      { pool with workers := pool.workers.set slot (.holding (file.textIn state)) } where
  workers := by simp [h.workers]
  slots := h.slots
  fits := h.fits_set hfile rfl fun _ _ _ _ hfits => hfits
  failed := h.failed

/-- `Sound` is kept when a worker is done: it writes to its own slot, or makes sure that a failure
is known. -/
theorem Sound.finish (h : pool.Sound state files) {slot : Nat} {file : SourceFile}
    (hfile : files[slot]? = some file) :
    Sound state files
      ⟨pool.workers.set slot .done, pool.check.finish slot file (file.textIn state)⟩ where
  workers := by simp [h.workers]
  slots := by
    rw [← h.slots]
    cases file.textIn state with
    | ok text => exact List.length_set
    | error error => rfl
  fits := by
    have hslot : slot < pool.check.slots.length := by
      rw [h.slots]
      exact (List.getElem?_eq_some_iff.1 hfile).1
    exact h.fits_set hfile (fits_finish pool.check hslot file) fun _ _ _ hne hfits =>
      hfits.finish hne file _
  failed blamed hblamed := by
    cases hsource : file.textIn state with
    | ok text =>
      rw [hsource] at hblamed
      exact h.failed blamed hblamed
    | error error =>
      rw [hsource] at hblamed
      -- the first failure stays; if there was none, it is that of this file
      rcases Option.or_eq_some_iff.1 hblamed with hbefore | ⟨-, hnow⟩
      · exact h.failed blamed hbefore
      · rw [← Option.some.inj hnow]
        exact ⟨file, List.mem_of_getElem? hfile, hsource⟩

/-- **Every step of every worker keeps the pool sound**: `Sound.read` and `Sound.finish` for the two
kinds of `Step`. -/
theorem Sound.step (h : pool.Sound state files) (hstep : Step state files pool next) :
    next.Sound state files := by
  cases hstep with
  | read hfile _ => exact h.read hfile
  | finish hfile hworker =>
    obtain rfl := h.fits _ _ _ hfile hworker
    exact h.finish hfile

theorem Reached.sound (h : Reached state files pool) : pool.Sound state files := by
  induction h with
  | refl => exact start_sound state files
  | tail _ hstep ih => exact ih.step hstep

/-! ### What is reported in the end -/

/-- When the pool is `Done`, the worker of each file is done. -/
theorem Sound.fits_done (h : pool.Sound state files) (hdone : pool.Done) {slot : Nat}
    {file : SourceFile} (hfile : files[slot]? = some file) :
    Fits state pool.check slot file .done := by
  have hslot : slot < pool.workers.length := by
    rw [h.workers]
    exact (List.getElem?_eq_some_iff.1 hfile).1
  have hworker : pool.workers[slot]? = some .done := by
    rw [List.getElem?_eq_getElem hslot, hdone _ (List.getElem_mem hslot)]
  exact h.fits slot file .done hfile hworker

/-- If all files can be read, the slots hold their diagnostics in the order of the files, and these
are what `Check.report` tells. -/
theorem Sound.report_of_readable (h : pool.Sound state files) (hdone : pool.Done)
    (hfiles : ∀ file ∈ files, ∃ text, file.textIn state = .ok text) :
    pool.check.report files =
      .ofChecks (files.map fun file => (file, file.diagnosticsIn state)) := by
  -- nobody is blamed, since only files that cannot be read are
  have hfailed : pool.check.failed = none := by
    by_contra hsome
    obtain ⟨error, herror⟩ := Option.ne_none_iff_exists'.1 hsome
    obtain ⟨file, hmem, hsource⟩ := h.failed error herror
    obtain ⟨text, htext⟩ := hfiles file hmem
    cases hsource.symm.trans htext
  -- slot by slot, the diagnostics are those of the file
  have hslots : pool.check.slots = files.map (·.diagnosticsIn state) := by
    refine List.ext_getElem? fun slot => ?_
    cases hfile : files[slot]? with
    | none =>
      have hbeyond : files.length ≤ slot := List.getElem?_eq_none_iff.1 hfile
      rw [List.getElem?_eq_none (h.slots ▸ hbeyond), List.getElem?_map, hfile]
      rfl
    | some file =>
      obtain ⟨text, htext⟩ := hfiles file (List.mem_of_getElem? hfile)
      have hslot := h.fits_done hdone hfile
      rw [Fits, htext] at hslot
      rw [hslot, List.getElem?_map, hfile, Option.map_some,
        SourceFile.diagnosticsIn_of_textIn htext]
  have hzip : files.zip (files.map (·.diagnosticsIn state)) =
      files.map fun file => (file, file.diagnosticsIn state) :=
    List.map_prod_left_eq_zip.symm
  rw [Check.report, hfailed, hslots, hzip]

/-- If some file cannot be read, `Check.report` blames one that cannot be read. -/
theorem Sound.report_of_unreadable (h : pool.Sound state files) (hdone : pool.Done)
    {file : SourceFile} (hfile : file ∈ files) {error : SourceError}
    (hsource : file.textIn state = .error error) :
    ∃ blamed ∈ files, ∃ fault, readIn state blamed.path = .error fault ∧
      pool.check.report files =
        ⟨.fatal, [.errorLine (SourceError.unreadable blamed.path fault).message]⟩ := by
  obtain ⟨slot, hslot⟩ := List.mem_iff_getElem?.1 hfile
  have hfailed := h.fits_done hdone hslot
  rw [Fits, hsource] at hfailed
  obtain ⟨reason, hreason⟩ := Option.ne_none_iff_exists'.1 hfailed
  obtain ⟨blamed, hmem, hblamed⟩ := h.failed reason hreason
  obtain ⟨fault, hread, rfl⟩ := SourceFile.exists_of_textIn_error hblamed
  exact ⟨blamed, hmem, fault, hread, by rw [Check.report, hreason]⟩

end Pool

/-- The `report` tells of `files` what it should. -/
structure Report.TellsOf (report : Report) (state : σ) (files : List SourceFile) : Prop where
  /-- If all files can be read, it has the lines for each of them in the order in which they were
  given, and fails exactly if something is wrong with one of them. -/
  readable : (∀ file ∈ files, ∃ text, readIn state file.path = .ok text) →
    report.pieces = files.flatMap (fun file => checkedFile file (file.diagnosticsIn state)) ∧
    report.code.toNat = if ∃ file ∈ files, file.diagnosticsIn state ≠ [] then 1 else 0
  /-- If some file cannot be read, it blames one that cannot, and says nothing else. -/
  unreadable : (∃ file ∈ files, ∃ fault, readIn state file.path = .error fault) →
    report.code.toNat = 2 ∧ ∃ blamed ∈ files, ∃ fault, readIn state blamed.path = .error fault ∧
      report.pieces =
        [.errorLine (utf8 "could not read " ++ blamed.path ++ utf8 ": " ++ fault.message)]

/-- **Once all workers are done, the report tells of the files what it should**:
`report_of_readable` and `report_of_unreadable` together. -/
theorem Pool.Sound.tellsOf {state : σ} {files : List SourceFile} {pool : Pool}
    (h : pool.Sound state files) (hdone : pool.Done) :
    (pool.check.report files).TellsOf state files where
  readable hfiles := by
    have hsources : ∀ file ∈ files, ∃ text, file.textIn state = .ok text := by
      intro file hfile
      obtain ⟨text, hread⟩ := hfiles file hfile
      exact ⟨text, SourceFile.textIn_of_read hread⟩
    rw [h.report_of_readable hdone hsources]
    refine ⟨List.flatMap_map _ _ files, ?_⟩
    have hcode : (Report.ofChecks (files.map fun file => (file, file.diagnosticsIn state))).code =
        if ∀ file ∈ files, file.diagnosticsIn state = [] then .success else .failure := by
      simp [Report.ofChecks]
    rw [hcode]
    by_cases hall : ∀ file ∈ files, file.diagnosticsIn state = []
    · have hnone : ¬ ∃ file ∈ files, file.diagnosticsIn state ≠ [] := by
        rintro ⟨file, hfile, hne⟩
        exact hne (hall file hfile)
      rw [if_pos hall, if_neg hnone]
      rfl
    · have hsome : ∃ file ∈ files, file.diagnosticsIn state ≠ [] := by
        simpa using hall
      rw [if_neg hall, if_pos hsome]
      rfl
  unreadable := by
    rintro ⟨file, hfile, fault, hread⟩
    have hsource : file.textIn state = .error (.unreadable file.path fault) := by
      rw [SourceFile.textIn, hread]
      rfl
    obtain ⟨blamed, hblamed, reason, hreason, hreport⟩ :=
      h.report_of_unreadable hdone hfile hsource
    rw [hreport]
    exact ⟨rfl, blamed, hblamed, reason, hreason, rfl⟩

/-! ### Files done one after the other -/

namespace Command

open Pool

variable [LawfulFileSystem σ] {state : σ} {files : List SourceFile}

/-- By induction on `order`: `checkSlots` is what comes of workers that read and finish in this
order. -/
theorem checkSlots_reached {order : List Nat} {pool : Pool} (hpool : Reached state files pool)
    (horder : order.Nodup) (hwaiting : ∀ slot ∈ order, slot < files.length ∧
      pool.workers[slot]? = some .waiting) :
    ∃ last, Reached state files last ∧
      (checkSlots files order pool.check : StateM σ Check) state = (last.check, state) ∧
      ∀ slot, last.workers[slot]? =
        if slot ∈ order then some .done else pool.workers[slot]? := by
  induction order generalizing pool with
  | nil => exact ⟨pool, hpool, rfl, fun slot => by simp⟩
  | cons slot more ih =>
    obtain ⟨hnew, hmore⟩ := List.nodup_cons.1 horder
    obtain ⟨⟨hslot, hworker⟩, hothers⟩ := List.forall_mem_cons.1 hwaiting
    obtain ⟨file, hfile⟩ : ∃ file, files[slot]? = some file :=
      ⟨_, List.getElem?_eq_getElem hslot⟩
    have hlength : slot < pool.workers.length := (List.getElem?_eq_some_iff.1 hworker).1
    -- the worker reads its file and is done with it at once
    let reading : Pool :=
      { pool with workers := pool.workers.set slot (.holding (file.textIn state)) }
    let finished : Pool :=
      ⟨pool.workers.set slot .done, pool.check.finish slot file (file.textIn state)⟩
    have hreading : Reached state files reading := hpool.tail (.read hfile hworker)
    have hfinished : Reached state files finished := by
      have hstep : Step state files reading
          ⟨reading.workers.set slot .done, pool.check.finish slot file (file.textIn state)⟩ :=
        .finish hfile (List.getElem?_set_self hlength)
      rw [List.set_set] at hstep
      exact hreading.tail hstep
    have hstill : ∀ other ∈ more, other < files.length ∧
        finished.workers[other]? = some .waiting := by
      intro other hother
      have hne : slot ≠ other := fun heq => hnew (heq ▸ hother)
      exact ⟨(hothers other hother).1,
        (List.getElem?_set_ne hne).trans (hothers other hother).2⟩
    obtain ⟨last, hlast, hcheck, hworkers⟩ := ih hfinished hmore hstill
    refine ⟨last, hlast, ?_, fun other => ?_⟩
    · rw [checkSlots, hfile]
      simp only [bind, StateT.bind, SourceFile.read_apply]
      exact hcheck
    · rw [hworkers other]
      by_cases hother : other = slot
      · subst hother
        simp [finished, hnew, List.getElem?_set_self hlength]
      · simp [finished, hother, List.getElem?_set_ne (Ne.symm hother)]

/-- **Files done in any order are done by workers**: `checkIn` comes to a pool that is `Reached` and
`Done`. -/
theorem checkIn_reached (state : σ) {order : List Nat}
    (horder : order.Perm (List.range files.length)) :
    ∃ last, Reached state files last ∧ last.Done ∧
      (checkIn order files : StateM σ Report) state = (last.check.report files, state) := by
  have hwaiting : ∀ slot ∈ order, slot < files.length ∧
      (start files).workers[slot]? = some .waiting := by
    intro slot hslot
    have hlt : slot < files.length := List.mem_range.1 (horder.mem_iff.1 hslot)
    exact ⟨hlt, by simp [start, hlt]⟩
  have hstart : Reached state files (start files) := .refl
  obtain ⟨last, hlast, hcheck, hworkers⟩ :=
    checkSlots_reached hstart (horder.nodup_iff.2 List.nodup_range) hwaiting
  -- every worker belongs to a slot, and every slot is in the order
  refine ⟨last, hlast, fun worker hworker => ?_, ?_⟩
  · obtain ⟨slot, hslot⟩ := List.mem_iff_getElem?.1 hworker
    have hlt : slot < files.length := by
      rw [← hlast.sound.workers]
      exact (List.getElem?_eq_some_iff.1 hslot).1
    rw [hworkers, if_pos (horder.mem_iff.2 (List.mem_range.2 hlt))] at hslot
    exact (Option.some.inj hslot).symm
  · rw [show (start files).check = .start files from rfl] at hcheck
    simp only [checkIn, bind, StateT.bind, hcheck]
    rfl

/-- **What is reported does not depend on the order.**  However the workers get on, once all are
done the report tells of the files what it should.  Done one after the other in any order, and so by
the command, the files are done by workers; and the lines for a file are those of the report on this
file alone. -/
theorem check_blind_to_order (yaml : Yaml.Library) (state : σ) (files : List SourceFile)
    (settings : Settings) :
    (∀ pool, Reached state files pool → pool.Done →
      (pool.check.report files).TellsOf state files) ∧
    (∀ order, order.Perm (List.range files.length) → ∃ pool, Reached state files pool ∧ pool.Done ∧
      (checkIn order files : StateM σ Report) state = (pool.check.report files, state)) ∧
    (∃ pool, Reached state files pool ∧ pool.Done ∧
      executeIn yaml state settings (.check files) = (.ok (pool.check.report files), state)) ∧
    ∀ file text, readIn state file.path = .ok text →
      file.diagnosticsIn state = (Cursor.start file.name text).parse.diagnostics ∧
      executeIn yaml state settings (.check [file]) =
        (.ok ⟨if file.diagnosticsIn state = [] then .success else .failure,
          Report.checkedFile file (file.diagnosticsIn state)⟩, state) := by
  refine ⟨fun pool hpool hdone => hpool.sound.tellsOf hdone, fun order => checkIn_reached state,
    ?_, ?_⟩
  · obtain ⟨pool, hpool, hdone, hreport⟩ :=
      checkIn_reached state (List.Perm.refl (List.range files.length))
    refine ⟨pool, hpool, hdone, ?_⟩
    simp only [executeIn, execute, checkFiles, bind, StateT.bind, hreport]
    rfl
  · intro file text hread
    have hdiagnostics := SourceFile.diagnosticsIn_of_textIn (SourceFile.textIn_of_read hread)
    refine ⟨hdiagnostics.trans (Check.diagnose_eq file.name text), ?_⟩
    rw [executeIn_check yaml hread, hdiagnostics, Report.ofChecks]
    simp

/-- A file is given twice, and is done last and first: its complaints stand on both sides of the
line for the other file.  When a file that is missing is given too, it is blamed. -/
theorem check_blind_to_order_repeated :
    let tree : FileTree :=
      { entries := [([utf8 "a.mk"], .file []), ([utf8 "b.mk"], .file (utf8 "let"))] }
    let a : SourceFile := ⟨utf8 "a.mk", utf8 ".", utf8 "a.mk"⟩
    let b : SourceFile := ⟨utf8 "b.mk", utf8 ".", utf8 "b.mk"⟩
    let c : SourceFile := ⟨utf8 "c.mk", utf8 ".", utf8 "c.mk"⟩
    let wrong := (Cursor.start b.name (utf8 "let")).parse.diagnostics
    [2, 1, 0].Perm (List.range 3) ∧ readIn tree a.path = .ok [] ∧
      readIn tree b.path = .ok (utf8 "let") ∧ wrong.length = 1 ∧
      (∃ report, (checkIn [2, 1, 0] [b, a, b] : StateM FileTree Report) tree = (report, tree) ∧
        report.code.toNat = 1 ∧ report.pieces = Report.diagnosticLines wrong ++
          [.plainLine (utf8 "a.mk: ok")] ++ Report.diagnosticLines wrong) ∧
      ∃ report, (checkIn [2, 1, 0] [b, c, a] : StateM FileTree Report) tree = (report, tree) ∧
        report.code.toNat = 2 ∧ report.pieces = [.errorLine
          (utf8 "could not read c.mk: open c.mk: no such file or directory")] := by
  intro tree a b c wrong
  have horder : [2, 1, 0].Perm (List.range 3) := by decide
  have ha : readIn tree a.path = .ok [] := by decide +kernel
  have hb : readIn tree b.path = .ok (utf8 "let") := by decide +kernel
  have hc : readIn tree c.path = .error ⟨.access, c.path, .absent⟩ := by decide +kernel
  obtain ⟨htells, horders, -, hown⟩ := check_blind_to_order Yaml.library tree [b, a, b] .default
  obtain ⟨htells', horders', -⟩ := check_blind_to_order Yaml.library tree [b, c, a] .default
  have hlength : wrong.length = 1 := by decide +kernel
  have ha' : a.diagnosticsIn tree = [] := (hown a _ ha).1.trans (by decide +kernel)
  have hb' : b.diagnosticsIn tree = wrong := (hown b _ hb).1
  have hwrong' : wrong ≠ [] := List.ne_nil_of_length_eq_add_one hlength
  refine ⟨horder, ha, hb, hlength, ?_, ?_⟩
  · obtain ⟨pool, hpool, hdone, hcheck⟩ := horders [2, 1, 0] horder
    have hfiles : ∀ file ∈ [b, a, b], ∃ text, readIn tree file.path = .ok text :=
      List.forall_mem_cons.2 ⟨⟨_, hb⟩, List.forall_mem_cons.2 ⟨⟨_, ha⟩,
        List.forall_mem_singleton.2 ⟨_, hb⟩⟩⟩
    obtain ⟨hpieces, hcode⟩ := (htells pool hpool hdone).readable hfiles
    refine ⟨_, hcheck, hcode.trans (if_pos ⟨b, List.mem_cons_self, hb' ▸ hwrong'⟩), ?_⟩
    rw [hpieces, List.flatMap_cons, List.flatMap_cons, List.flatMap_singleton, ha', hb',
      Report.checkedFile, if_neg hwrong']
    exact (List.append_assoc _ _ _).symm
  · obtain ⟨pool, hpool, hdone, hcheck⟩ := horders' [2, 1, 0] horder
    obtain ⟨hcode, blamed, hblamed, fault, hread, hpieces⟩ :=
      (htells' pool hpool hdone).unreadable ⟨c, by simp, _, hc⟩
    refine ⟨_, hcheck, hcode, ?_⟩
    -- the other two can be read
    have hblamed : blamed = b ∨ blamed = c ∨ blamed = a := by simpa using hblamed
    rcases hblamed with rfl | rfl | rfl
    · cases hb.symm.trans hread
    · rw [hpieces, ← Except.error.inj (hc.symm.trans hread)]
      decide +kernel
    · cases ha.symm.trans hread

end Command

end

end TreeWalk
