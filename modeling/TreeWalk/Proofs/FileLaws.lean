import Mathlib.Control.Monad.Basic
import TreeWalk.Files.Tree

/-!
# Laws of file systems

What results about the program ask of a file system.  Most of them ask that looking at files changes
nothing (`LawfulFileSystem`).  Those about files that are made need to know what lies where
(`PlacedFileSystem`): a path leads to at most one place, and opening and writing a file changes what
is in this place and nothing else.  A write may fail, and then a part of the text may be written.

A file tree obeys these laws.  Putting a file into a place where no directory is leaves the way of
every path as it was, since all places on the way are directories.

## Main definitions

* `FileSystem.statIn`, `FileSystem.readIn` — what a path names, and what a file holds, in a state.
* `LawfulFileSystem` — looking at files changes nothing.
* `Replaces` — a file has new contents, and nothing else has changed.
* `PlacedFileSystem` — opening and writing a file replaces its contents.
* `FileTree.Leads` — a path leads to a place of a tree.

## Main results

* `FileTree.place?_walk_congr` — **a path leads to the same place where the same directories are.**
* `FileTree.replaces_put` — putting a file into a place replaces what it held.
* `FileTree.instPlacedFileSystem` — file trees obey the laws.
-/

namespace TreeWalk

/-! ### Looking at files -/

namespace FileSystem

variable {σ : Type} [FileSystem (StateM σ)]

/-- What `path` names in a `state` of the files. -/
def statIn (state : σ) (path : Path) : Except FileError FileKind :=
  ((stat path : StateM σ (Except FileError FileKind)) state).1

/-- What the file at `path` holds in a `state` of the files. -/
def readIn (state : σ) (path : Path) : Except FileError Bytes :=
  ((read path : StateM σ (Except FileError Bytes)) state).1

end FileSystem

open FileSystem

/-- Looking at files changes nothing, and the empty path names nothing. -/
class LawfulFileSystem (σ : Type) [FileSystem (StateM σ)] : Prop where
  /-- `FileSystem.stat` changes nothing. -/
  stat_snd : ∀ (state : σ) (path : Path),
    ((stat path : StateM σ (Except FileError FileKind)) state).2 = state
  /-- `FileSystem.read` changes nothing. -/
  read_snd : ∀ (state : σ) (path : Path),
    ((read path : StateM σ (Except FileError Bytes)) state).2 = state
  /-- The empty path names nothing. -/
  stat_nil : ∀ state : σ, statIn state [] = .error ⟨.stat, [], .absent⟩

namespace FileSystem

variable {σ : Type} [FileSystem (StateM σ)] [LawfulFileSystem σ]

theorem stat_apply (state : σ) (path : Path) :
    (stat path : StateM σ (Except FileError FileKind)) state = (statIn state path, state) :=
  Prod.ext rfl (LawfulFileSystem.stat_snd state path)

theorem read_apply (state : σ) (path : Path) :
    (read path : StateM σ (Except FileError Bytes)) state = (readIn state path, state) :=
  Prod.ext rfl (LawfulFileSystem.read_snd state path)

end FileSystem

/-! ### Making files -/

/-- The file in `place` has the new `content`: it is made if there was none.  Nothing is changed in
any other place, and all paths lead where they led. -/
structure Replaces {σ Location : Type} (locate? : σ → Path → Option Location)
    (held? : σ → Location → Option Entry) (before after : σ) (place : Location)
    (content : Bytes) : Prop where
  /-- The file in its place. -/
  here : held? after place = some (.file content)
  /-- All other places. -/
  elsewhere : ∀ other, other ≠ place → held? after other = held? before other
  /-- The ways. -/
  locate?_eq : ∀ path, locate? after path = locate? before path

/-- Of a file whose contents are replaced twice only the second `content'` matters. -/
theorem Replaces.trans {σ Location : Type} {locate? : σ → Path → Option Location}
    {held? : σ → Location → Option Entry} {before middle after : σ} {place : Location}
    {content content' : Bytes} (h : Replaces locate? held? before middle place content)
    (h' : Replaces locate? held? middle after place content') :
    Replaces locate? held? before after place content' where
  here := h'.here
  elsewhere other hother := (h'.elsewhere other hother).trans (h.elsewhere other hother)
  locate?_eq path := (h'.locate?_eq path).trans (h.locate?_eq path)

/-- A file system of which it is known what lies where.  Opening a file with `openNew` and writing
to it replaces what is in its place, or fails.  Not every file can be read, but one that was made
can. -/
class PlacedFileSystem (σ : Type) [FileSystem (StateM σ)] extends LawfulFileSystem σ where
  /-- Where something can be. -/
  Location : Type
  /-- Where a path leads, if a file is there or could be. -/
  locate? : σ → Path → Option Location
  /-- What is in a place. -/
  held? : σ → Location → Option Entry
  /-- Where an open file is. -/
  placeOf : FileSystem.Handle (StateM σ) → Location
  /-- What is read is in the place to which the path leads. -/
  exists_of_read : ∀ {state : σ} {path : Path} {content : Bytes}, readIn state path = .ok content →
    ∃ place, locate? state path = some place ∧ held? state place = some (.file content)
  /-- What can be read is a file. -/
  stat_of_read : ∀ {state : σ} {path : Path} {content : Bytes}, readIn state path = .ok content →
    statIn state path = .ok .file
  /-- Where a path is said to name nothing, nothing is. -/
  held?_of_absent : ∀ {state : σ} {path : Path} {error : FileError} {place : Location},
    statIn state path = .error error → error.fault = .absent → locate? state path = some place →
    held? state place = none
  /-- Opening a file may fail; then nothing changes. -/
  openNew_error : ∀ {state after : σ} {path : Path} {error : FileError},
    (openNew path : StateM σ (Except FileError (Handle (StateM σ)))) state = (.error error, after) →
    after = state
  /-- A file that is opened is empty. -/
  openNew_ok : ∀ {state after : σ} {path : Path} {handle : Handle (StateM σ)},
    (openNew path : StateM σ (Except FileError (Handle (StateM σ)))) state = (.ok handle, after) →
    locate? state path = some (placeOf handle) ∧
      Replaces locate? held? state after (placeOf handle) []
  /-- What is written stands behind what the file held. -/
  write_ok : ∀ {state after : σ} {handle : Handle (StateM σ)} {old content : Bytes},
    held? state (placeOf handle) = some (.file old) →
    (write handle content : StateM σ (Except FileError Unit)) state = (.ok (), after) →
    Replaces locate? held? state after (placeOf handle) (old ++ content)
  /-- Writing may fail; then a part is written. -/
  write_error : ∀ {state after : σ} {handle : Handle (StateM σ)} {old content : Bytes}
      {error : FileError}, held? state (placeOf handle) = some (.file old) →
    (write handle content : StateM σ (Except FileError Unit)) state = (.error error, after) →
    error.action = .write ∧ ∃ taken, taken <+: content ∧ taken ≠ content ∧
      Replaces locate? held? state after (placeOf handle) (old ++ taken)
  /-- What was written to a file that was made can be read. -/
  read_of_made : ∀ {state opened after : σ} {path : Path} {handle : Handle (StateM σ)}
      {content : Bytes}, held? state (placeOf handle) = none →
    (openNew path : StateM σ (Except FileError (Handle (StateM σ)))) state = (.ok handle, opened) →
    (write handle content : StateM σ (Except FileError Unit)) opened = (.ok (), after) →
    readIn after path = .ok content

/-! ### Places of a tree -/

/-- The place that was found for a file, whether or not an `entry` is there. -/
def Found.place? : Found → Option Place
  | .entry place _ | .vacant place false => some place
  | _ => none

namespace FileTree

variable {tree after : FileTree} {place other : Place} {path : Path} {content : Bytes}

theorem get?_put_self (entry : Entry) (h : place ≠ []) :
    (tree.put place entry).get? place = some entry := by
  cases place with
  | nil => exact absurd rfl h
  | cons name outer => exact List.lookup_cons_self

/-- Entries in one `place` do not matter for the `lookup` of another one. -/
theorem lookup_filter_ne (entries : List (Place × Entry)) (h : other ≠ place) :
    (entries.filter (·.1 ≠ place)).lookup other = entries.lookup other := by
  induction entries with
  | nil => rfl
  | cons head more ih =>
    obtain ⟨key, value⟩ := head
    by_cases hkey : key = place
    · subst hkey
      rw [List.filter_cons_of_neg (by simp), List.lookup_cons, beq_false_of_ne h, ih]
    · rw [List.filter_cons_of_pos (by simpa using hkey), List.lookup_cons, List.lookup_cons, ih]

/-- `put` leaves all other places as they are. -/
theorem get?_put_of_ne (entry : Entry) (h : other ≠ place) :
    (tree.put place entry).get? other = tree.get? other := by
  cases other with
  | nil => rfl
  | cons name outer =>
    show List.lookup (name :: outer) ((place, entry) :: tree.entries.filter (·.1 ≠ place)) =
      tree.entries.lookup (name :: outer)
    rw [List.lookup_cons, beq_false_of_ne h, lookup_filter_ne tree.entries h]

/-- The root is always a directory, so a place that is none is not the root. -/
theorem ne_nil_of_get? (h : tree.get? place ≠ some .directory) : place ≠ [] := by
  rintro rfl
  exact h rfl

/-- The `path` leads to `place`, in which a file is or could be. -/
def Leads (tree : FileTree) (path : Path) (place : Place) : Prop :=
  (tree.locate path).place? = some place

theorem place?_walk_nil (tree : FileTree) (place : Place) :
    (tree.walk place []).place? = some place := by
  rw [walk]
  cases tree.get? place <;> rfl

/-- Only from a directory `walk` leads on. -/
theorem place?_walk_cons (h : tree.get? place ≠ some .directory) (part : Bytes)
    (more : List Bytes) : (tree.walk place (part :: more)).place? = none := by
  rw [walk.eq_def]
  cases hplace : tree.get? place with
  | none =>
    simp only [hplace]
    split <;> rfl
  | some entry =>
    cases entry with
    | file content =>
      simp only [hplace]
      rfl
    | directory => exact absurd hplace h

/-- **A path leads to the same place where the same directories are**: by induction on `parts`,
`walk` asks of other entries only what comes last. -/
theorem place?_walk_congr
    (h : ∀ place, after.get? place = some .directory ↔ tree.get? place = some .directory)
    (start : Place) (parts : List Bytes) :
    (after.walk start parts).place? = (tree.walk start parts).place? := by
  induction parts generalizing start with
  | nil => rw [place?_walk_nil, place?_walk_nil]
  | cons part more ih =>
    by_cases hstart : tree.get? start = some .directory
    · -- one step from a directory goes to the same place in both trees
      rw [walk.eq_def, walk.eq_def tree]
      simp only [hstart, (h start).2 hstart]
      split
      · exact ih start
      · split
        · exact ih start.tail
        · split
          · rfl
          · exact ih (part :: start)
    · rw [place?_walk_cons hstart, place?_walk_cons (mt (h start).1 hstart)]

/-- A file that is `put` in a place where no directory is changes no directory. -/
theorem get?_put_eq_directory_iff (h : tree.get? place ≠ some .directory) (content : Bytes)
    (other : Place) :
    (tree.put place (.file content)).get? other = some .directory ↔
      tree.get? other = some .directory := by
  by_cases hother : other = place
  · subst hother
    rw [get?_put_self _ (ne_nil_of_get? h)]
    exact iff_of_false (by simp) h
  · rw [get?_put_of_ne _ hother]

/-- Where a path leads does not depend on files, so `put` does not change it. -/
theorem place?_locate_put (h : tree.get? place ≠ some .directory) (content : Bytes)
    (path : Path) :
    ((tree.put place (.file content)).locate path).place? = (tree.locate path).place? := by
  rw [locate, locate]
  -- the two trees have the same working directory
  have hwalk := place?_walk_congr (get?_put_eq_directory_iff h content)
    (if path.isRooted then [] else tree.workDir) path.parts
  split
  · rfl
  · split
    · rfl
    · split
      · rfl
      · exact hwalk

/-- **Putting a file into a place replaces what it held**, in the sense of `Replaces`. -/
theorem replaces_put (h : tree.get? place ≠ some .directory) (content : Bytes) :
    Replaces (fun tree path => (locate tree path).place?) get? tree
      (tree.put place (.file content)) place content where
  here := get?_put_self _ (ne_nil_of_get? h)
  elsewhere _ := get?_put_of_ne _
  locate?_eq := place?_locate_put h content

/-! ### What a path leads to -/

/-- A `walk` that ends in a place ends with what is there. -/
theorem walk_of_place? {start : Place} {parts : List Bytes}
    (h : (tree.walk start parts).place? = some place) :
    tree.walk start parts = tree.walk place [] := by
  induction parts generalizing start with
  | nil =>
    rw [place?_walk_nil] at h
    rw [Option.some.inj h]
  | cons part more ih =>
    by_cases hstart : tree.get? start = some .directory
    · -- the part stays where it is, leads up, is too long, or leads down
      rw [walk.eq_def] at h ⊢
      simp only [hstart] at h ⊢
      split at h
      · next hhere =>
        rw [if_pos hhere]
        exact ih h
      · next hhere =>
        rw [if_neg hhere]
        split at h
        · next habove =>
          rw [if_pos habove]
          exact ih h
        · next habove =>
          rw [if_neg habove]
          split at h
          · cases h
          · next hlong =>
            rw [if_neg hlong]
            exact ih h
    · rw [place?_walk_cons hstart] at h
      cases h

theorem Leads.locate (h : tree.Leads path place) : tree.locate path = tree.walk place [] := by
  rw [Leads, FileTree.locate] at h
  rw [FileTree.locate]
  split at h
  · cases h
  · next hnull =>
    rw [if_neg hnull]
    split at h
    · cases h
    · next hempty =>
      rw [if_neg hempty]
      split at h
      · cases h
      · next hlong =>
        rw [if_neg hlong]
        exact walk_of_place? h

theorem Leads.locate_of_some (h : tree.Leads path place) {entry : Entry}
    (hentry : tree.get? place = some entry) : tree.locate path = .entry place entry := by
  rw [h.locate, walk, hentry]

theorem Leads.locate_of_none (h : tree.Leads path place) (hnone : tree.get? place = none) :
    tree.locate path = .vacant place false := by
  rw [h.locate, walk, hnone]

theorem leads_of_entry {entry : Entry} (h : tree.locate path = .entry place entry) :
    tree.Leads path place ∧ tree.get? place = some entry := by
  have hleads : tree.Leads path place := by rw [Leads, h]; rfl
  refine ⟨hleads, ?_⟩
  cases hget : tree.get? place with
  | none => cases h.symm.trans (hleads.locate_of_none hget)
  | some found => rw [(Found.entry.inj (h.symm.trans (hleads.locate_of_some hget))).2]

theorem leads_of_vacant (h : tree.locate path = .vacant place false) :
    tree.Leads path place ∧ tree.get? place = none := by
  have hleads : tree.Leads path place := by rw [Leads, h]; rfl
  refine ⟨hleads, ?_⟩
  cases hget : tree.get? place with
  | none => rfl
  | some found => cases h.symm.trans (hleads.locate_of_some hget)

/-! ### Reading and writing in a tree -/

/-- `read` succeeds exactly if the path leads to a file. -/
theorem read_eq_ok_iff :
    tree.read path = .ok content ↔
      ∃ place, tree.Leads path place ∧ tree.get? place = some (.file content) := by
  constructor
  · intro h
    rw [read] at h
    split at h
    · next place found hlocate =>
      obtain rfl := Except.ok.inj h
      exact ⟨place, leads_of_entry hlocate⟩
    all_goals cases h
  · rintro ⟨place, hleads, hfile⟩
    rw [read, hleads.locate_of_some hfile]

theorem stat_of_leads (h : tree.Leads path place) {entry : Entry}
    (hentry : tree.get? place = some entry) : tree.stat path = .ok entry.kind := by
  rw [stat, h.locate_of_some hentry]

/-- `openNew` makes an empty file in the place to which the path leads, unless there is a
directory. -/
theorem openNew_eq_ok_iff {handle : Handle} :
    tree.openNew path = (.ok handle, after) ↔ tree.Leads path handle.place ∧ handle.path = path ∧
      tree.get? handle.place ≠ some .directory ∧ after = tree.put handle.place (.file []) := by
  constructor
  · intro h
    rw [openNew] at h
    split at h
    · next place old hlocate =>
      obtain ⟨hleads, hfile⟩ := leads_of_entry hlocate
      cases h
      exact ⟨hleads, rfl, by simp [hfile], rfl⟩
    · next place hlocate =>
      obtain ⟨hleads, hnone⟩ := leads_of_vacant hlocate
      cases h
      exact ⟨hleads, rfl, by simp [hnone], rfl⟩
    all_goals cases h
  · rintro ⟨hleads, rfl, hplace, rfl⟩
    rw [openNew]
    cases hget : tree.get? handle.place with
    | none => rw [hleads.locate_of_none hget]
    | some entry =>
      rw [hleads.locate_of_some hget]
      cases entry with
      | file old => rfl
      | directory => exact absurd hget hplace

theorem openNew_error_snd {error : FileError} (h : tree.openNew path = (.error error, after)) :
    after = tree := by
  rw [openNew] at h
  split at h <;> cases h <;> rfl

theorem fitting_prefix (tree : FileTree) (content : Bytes) : tree.fitting content <+: content := by
  rw [fitting]
  split
  · exact List.prefix_refl content
  · exact List.take_prefix _ content

theorem write_of_get? {handle : Handle} {old : Bytes}
    (h : tree.get? handle.place = some (.file old)) (content : Bytes) :
    tree.write handle content =
      (if tree.fitting content = content then .ok () else .error ⟨.write, handle.path, .full⟩,
        tree.put handle.place (.file (old ++ tree.fitting content))) := by
  rw [write, h]

/-- **What was written to a file that was opened can be read**: `openNew`, `write` and `read` with
the same path. -/
theorem read_of_write {opened : FileTree} {handle : Handle}
    (hopen : tree.openNew path = (.ok handle, opened))
    (hwrite : opened.write handle content = (.ok (), after)) : after.read path = .ok content := by
  obtain ⟨hleads, -, hplace, rfl⟩ := openNew_eq_ok_iff.1 hopen
  have hopened := replaces_put hplace []
  rw [write_of_get? hopened.here] at hwrite
  have hfits : (tree.put handle.place (.file [])).fitting content = content := by
    by_contra hpart
    rw [if_neg hpart] at hwrite
    cases hwrite
  rw [hfits] at hwrite
  obtain rfl := congrArg Prod.snd hwrite
  have hfile : (tree.put handle.place (.file [])).get? handle.place ≠ some .directory := by
    simp [hopened.here]
  have hwritten := hopened.trans (replaces_put hfile content)
  exact read_eq_ok_iff.2 ⟨handle.place, (hwritten.locate?_eq path).trans hleads, hwritten.here⟩

/-- File trees obey the laws of `PlacedFileSystem`; a `Place` is where something lies. -/
instance instPlacedFileSystem : PlacedFileSystem FileTree where
  stat_snd _ _ := rfl
  read_snd _ _ := rfl
  stat_nil _ := rfl
  Location := Place
  locate? tree path := (tree.locate path).place?
  held? := get?
  placeOf := Handle.place
  exists_of_read := read_eq_ok_iff.1
  stat_of_read h := by
    obtain ⟨place, hleads, hfile⟩ := read_eq_ok_iff.1 h
    exact stat_of_leads hleads hfile
  held?_of_absent := by
    intro tree path error place hstat _ hleads
    cases hget : tree.get? place with
    | none => rfl
    | some entry => cases hstat.symm.trans (stat_of_leads hleads hget)
  openNew_error := openNew_error_snd
  openNew_ok h := by
    obtain ⟨hleads, -, hplace, rfl⟩ := openNew_eq_ok_iff.1 h
    exact ⟨hleads, replaces_put hplace []⟩
  write_ok := by
    intro tree after handle old content hfile hwrite
    change tree.write handle content = (.ok (), after) at hwrite
    rw [write_of_get? hfile] at hwrite
    split at hwrite
    · next hfits =>
      rw [hfits] at hwrite
      cases hwrite
      exact replaces_put (by simp [hfile]) _
    · cases hwrite
  write_error := by
    intro tree after handle old content error hfile hwrite
    change tree.write handle content = (.error error, after) at hwrite
    rw [write_of_get? hfile] at hwrite
    split at hwrite
    · cases hwrite
    · next hpart =>
      cases hwrite
      exact ⟨rfl, tree.fitting content, tree.fitting_prefix content, hpart,
        replaces_put (by simp [hfile]) _⟩
  read_of_made _ := read_of_write

end FileTree

end TreeWalk
