/-
# Files on a disk

A disk maps paths to contents and remembers what was done to it. Only whole files
are modelled: a handle is the path it was opened under, and writes go to the end.
The log tells how often a path was written, also when it was written with the
bytes that it already had.
-/

import Mathlib.Data.List.Basic
import Mathlib.Logic.Function.Basic

namespace OmarchyConnect.Library.Files

/-- A path as its segments. -/
abbrev Path := List String

/-- What can be done to the files of a disk. -/
inductive Operation (α : Type)
  | create (path : Path)
  | append (path : Path) (data : List α)
  | rename (source target : Path)
  | remove (path : Path)
  deriving DecidableEq

/-- Whether the operation puts a file or bytes at `path`. -/
def Operation.writes {α : Type} (path : Path) : Operation α → Bool
  | .create other => other == path
  | .append other _ => other == path
  | .rename _ target => target == path
  | .remove _ => false

/-- The contents under their paths, and the log. -/
structure Disk (α : Type) where
  files : Path → Option (List α)
  log : List (Operation α) := []

namespace Disk

variable {α : Type} (disk : Disk α)

/-- Create the file, or cut it down to nothing. -/
def create (path : Path) : Disk α where
  files := Function.update disk.files path (some [])
  log := disk.log ++ [.create path]

/-- Write at the end of an open file. -/
def append (path : Path) (data : List α) : Disk α where
  files := Function.update disk.files path ((disk.files path).map fun old => old ++ data)
  log := disk.log ++ [.append path data]

/-- Move a file over whatever stands at the target. -/
def rename (source target : Path) : Disk α where
  files :=
    match disk.files source with
    | some content => Function.update (Function.update disk.files source none) target (some content)
    | none => disk.files
  log := disk.log ++ [.rename source target]

/-- What stood under the path is gone. -/
def remove (path : Path) : Disk α where
  files := Function.update disk.files path none
  log := disk.log ++ [.remove path]

/-- How often something was put at `path`. -/
def writesTo (path : Path) : ℕ := (disk.log.filter (Operation.writes path)).length

/-! ## The file itself -/

/-- A created file is empty. -/
@[simp]
theorem files_create_self (path : Path) : (disk.create path).files path = some [] := by
  simp [create]

/-- Appended data stands behind what was there. -/
@[simp]
theorem files_append_self (path : Path) (data : List α) :
    (disk.append path data).files path = (disk.files path).map fun old => old ++ data := by
  simp [append]

/-- Nothing stands under the old path behind a move. -/
theorem files_rename_source {source target : Path} (h : source ≠ target) :
    (disk.rename source target).files source = none := by
  cases hfile : disk.files source with
  | none => simp [rename, hfile]
  | some content => simp [rename, hfile, h]

/-- The content stands under the new path behind a move. -/
theorem files_rename_target {source target : Path} {content : List α}
    (h : disk.files source = some content) :
    (disk.rename source target).files target = some content := by
  simp [rename, h]

/-- Nothing stands under a removed path. -/
@[simp]
theorem files_remove_self (path : Path) : (disk.remove path).files path = none := by
  simp [remove]

/-! ## Other files -/

/-- Creating a file leaves the other paths alone. -/
@[simp]
theorem files_create_of_ne {path other : Path} (h : other ≠ path) :
    (disk.create path).files other = disk.files other := by
  simp [create, h]

/-- Appending leaves the other paths alone. -/
@[simp]
theorem files_append_of_ne {path other : Path} (data : List α) (h : other ≠ path) :
    (disk.append path data).files other = disk.files other := by
  simp [append, h]

/-- Moving leaves all but the two paths alone. -/
@[simp]
theorem files_rename_of_ne {source target other : Path} (hsource : other ≠ source)
    (htarget : other ≠ target) :
    (disk.rename source target).files other = disk.files other := by
  cases hfile : disk.files source with
  | none => simp [rename, hfile]
  | some content => simp [rename, hfile, hsource, htarget]

/-- Removing leaves the other paths alone. -/
@[simp]
theorem files_remove_of_ne {path other : Path} (h : other ≠ path) :
    (disk.remove path).files other = disk.files other := by
  simp [remove, h]

/-! ## Counting writes -/

/-- Creating a file does not write under another path. -/
@[simp]
theorem writesTo_create_of_ne {path other : Path} (h : other ≠ path) :
    (disk.create path).writesTo other = disk.writesTo other := by
  simp [create, writesTo, Operation.writes, h.symm]

/-- Appending does not write under another path. -/
@[simp]
theorem writesTo_append_of_ne {path other : Path} (data : List α) (h : other ≠ path) :
    (disk.append path data).writesTo other = disk.writesTo other := by
  simp [append, writesTo, Operation.writes, h.symm]

/-- A move is one more writing under its target. -/
@[simp]
theorem writesTo_rename_target (source target : Path) :
    (disk.rename source target).writesTo target = disk.writesTo target + 1 := by
  simp [rename, writesTo, Operation.writes]

/-- Removing writes nowhere. -/
@[simp]
theorem writesTo_remove (path other : Path) :
    (disk.remove path).writesTo other = disk.writesTo other := by
  simp [remove, writesTo, Operation.writes]

end Disk

end OmarchyConnect.Library.Files
