/-
# Names, files and open handles

A name leads to a file, and a handle is a file with an offset. A file keeps its content
under a new name, and an open handle still writes to it.
-/

import Mathlib.Data.List.Basic
import Mathlib.Logic.Function.Basic

namespace OmarchyConnect.Library

/-- Two names never lead to one file, and a fresh number to none. -/
structure Inodes (ν α : Type) where
  names : ν → Option ℕ
  content : ℕ → List α
  fresh : ℕ
  distinct : ∀ first second inode,
    names first = some inode → names second = some inode → first = second
  bounded : ∀ name inode, names name = some inode → inode < fresh

namespace Inodes

variable {ν α : Type}

/-- No names and no files. -/
def empty : Inodes ν α where
  names := fun _ => none
  content := fun _ => []
  fresh := 0
  distinct := by
    intro first second inode hfirst
    cases hfirst
  bounded := by
    intro name inode hname
    cases hname

variable (files : Inodes ν α)

/-- Read the file that the name leads to. -/
def read (name : ν) : Option (List α) := (files.names name).map files.content

/-- Change the content of one file. -/
def setContent (inode : ℕ) (data : List α) : Inodes ν α :=
  { files with content := Function.update files.content inode data }

/-- A name is read through the file that it leads to. -/
theorem read_of_name {name : ν} {inode : ℕ} (hname : files.names name = some inode) :
    files.read name = some (files.content inode) := by
  rw [read, hname, Option.map_some]

/-- The file has the content that it was given. -/
@[simp]
theorem content_setContent (inode : ℕ) (data : List α) :
    (files.setContent inode data).content inode = data := Function.update_self _ _ _

/-- Giving a file another content keeps the names. -/
@[simp]
theorem names_setContent (inode : ℕ) (data : List α) :
    (files.setContent inode data).names = files.names := rfl

/-- Two stores whose name leads to the same content. -/
theorem read_congr {other : Inodes ν α} {name : ν} (hname : other.names name = files.names name)
    (hcontent : ∀ inode, files.names name = some inode →
      other.content inode = files.content inode) : other.read name = files.read name := by
  rw [read, read, hname]
  cases hfound : files.names name with
  | none => rfl
  | some inode => rw [Option.map_some, Option.map_some, hcontent inode hfound]

/-- A file that the name does not lead to is not read. -/
theorem read_setContent_of_ne {name : ν} {inode : ℕ} (data : List α)
    (hname : files.names name ≠ some inode) :
    (files.setContent inode data).read name = files.read name := by
  refine files.read_congr rfl fun found hfound => ?_
  have hne : found ≠ inode := fun hsame => hname (hsame ▸ hfound)
  exact Function.update_of_ne hne _ _

/-- The content after a write at an offset. A gap is filled. -/
def overwrite (fill : α) (old : List α) (offset : ℕ) (data : List α) : List α :=
  (old ++ List.replicate (offset - old.length) fill).take offset ++ data ++
    old.drop (offset + data.length)

/-- Writing at the end appends. -/
theorem overwrite_end (fill : α) (old data : List α) :
    overwrite fill old old.length data = old ++ data := by
  simp [overwrite]

/-- Write through a handle. -/
def writeAt (fill : α) (inode offset : ℕ) (data : List α) : Inodes ν α :=
  files.setContent inode (overwrite fill (files.content inode) offset data)

variable [DecidableEq ν]

/-- Let the name lead to a new file. -/
def link (name : ν) : Inodes ν α where
  names := Function.update files.names name (some files.fresh)
  content := Function.update files.content files.fresh []
  fresh := files.fresh + 1
  distinct := by
    intro first second inode hfirst hsecond
    rw [Function.update_apply] at hfirst hsecond
    split_ifs at hfirst hsecond with hleft hright hright
    · rw [hleft, hright]
    · obtain rfl := Option.some.inj hfirst
      exact absurd (files.bounded second _ hsecond) (Nat.lt_irrefl _)
    · obtain rfl := Option.some.inj hsecond
      exact absurd (files.bounded first _ hfirst) (Nat.lt_irrefl _)
    · exact files.distinct first second inode hfirst hsecond
  bounded := by
    intro other inode hother
    rw [Function.update_apply] at hother
    split_ifs at hother with hname
    · obtain rfl := Option.some.inj hother
      exact Nat.lt_succ_self _
    · exact Nat.lt_succ_of_lt (files.bounded other inode hother)

/-- Open a file for writing and cut it down to nothing, or create it. -/
def openTruncate (name : ν) : ℕ × Inodes ν α :=
  match files.names name with
  | some inode => (inode, files.setContent inode [])
  | none => (files.fresh, files.link name)

/-- A new name leaves what is read under the others. -/
theorem read_link_of_ne {name other : ν} (hother : other ≠ name) :
    (files.link name).read other = files.read other := by
  refine files.read_congr (Function.update_of_ne hother _ _) fun found hfound => ?_
  exact Function.update_of_ne (Nat.ne_of_lt (files.bounded other found hfound)) _ _

/-- Take the name away. The file stays for those that have it open. -/
def unlink (name : ν) : Inodes ν α where
  names := Function.update files.names name none
  content := files.content
  fresh := files.fresh
  distinct := by
    intro first second inode hfirst hsecond
    rw [Function.update_apply] at hfirst hsecond
    split_ifs at hfirst hsecond
    exact files.distinct first second inode hfirst hsecond
  bounded := by
    intro other inode hother
    rw [Function.update_apply] at hother
    split_ifs at hother
    exact files.bounded other inode hother

/-- Let the target lead to the file of the source. -/
def rename (source target : ν) : Option (Inodes ν α) :=
  match hsource : files.names source with
  | none => none
  | some inode => some
    { files with
      names := Function.update (Function.update files.names source none) target (some inode)
      distinct := by
        intro first second found hfirst hsecond
        have hother : ∀ name, Function.update files.names source none name ≠ some inode := by
          intro name hname
          rw [Function.update_apply] at hname
          split_ifs at hname with hsame
          exact hsame (files.distinct name source inode hname hsource)
        rw [Function.update_apply] at hfirst hsecond
        split_ifs at hfirst hsecond with hleft hright hright
        · rw [hleft, hright]
        · obtain rfl := Option.some.inj hfirst
          exact absurd hsecond (hother second)
        · obtain rfl := Option.some.inj hsecond
          exact absurd hfirst (hother first)
        · rw [Function.update_apply] at hfirst hsecond
          split_ifs at hfirst hsecond
          exact files.distinct first second found hfirst hsecond
      bounded := by
        intro name found hname
        rw [Function.update_apply] at hname
        split_ifs at hname with htarget
        · obtain rfl := Option.some.inj hname
          exact files.bounded source inode hsource
        · rw [Function.update_apply] at hname
          split_ifs at hname
          exact files.bounded name found hname }

/-- Create a file with the content. -/
def create (name : ν) (data : List α) : Inodes ν α :=
  (files.openTruncate name).2.setContent (files.openTruncate name).1 data

/-! ## Facts -/

/-- Opening a file leaves what is read under the other names. -/
theorem read_openTruncate_of_ne {name other : ν} (hother : other ≠ name) :
    (files.openTruncate name).2.read other = files.read other := by
  unfold openTruncate
  cases hname : files.names name with
  | none => exact files.read_link_of_ne hother
  | some inode =>
      refine files.read_setContent_of_ne [] fun hsame => ?_
      exact hother (files.distinct other name inode hsame hname)

/-- The name leads to the opened file, which is empty. -/
theorem openTruncate_spec (name : ν) :
    (files.openTruncate name).2.names name = some (files.openTruncate name).1 ∧
      (files.openTruncate name).2.content (files.openTruncate name).1 = [] := by
  unfold openTruncate
  cases hname : files.names name with
  | none => exact ⟨Function.update_self _ _ _, Function.update_self _ _ _⟩
  | some inode => exact ⟨hname, files.content_setContent inode []⟩

/-- A file that is there is opened under its number and emptied. -/
theorem openTruncate_of_name {name : ν} {inode : ℕ} (hname : files.names name = some inode) :
    files.openTruncate name = (inode, files.setContent inode []) := by
  rw [openTruncate, hname]

/-- A created file has its data. -/
theorem read_create (name : ν) (data : List α) :
    (files.create name data).read name = some data := by
  have hname : (files.create name data).names name = some (files.openTruncate name).1 :=
    (files.openTruncate_spec name).1
  rw [read_of_name _ hname, create, content_setContent]

/-- A rename takes what the source leads to. -/
theorem rename_of_name {source : ν} {inode : ℕ} (target : ν)
    (hsource : files.names source = some inode) :
    ∃ after, files.rename source target = some after ∧
      after.read target = some (files.content inode) := by
  unfold rename
  split
  next hnone => cases hnone.symm.trans hsource
  next found hfound =>
    obtain rfl := Option.some.inj (hsource.symm.trans hfound)
    refine ⟨_, rfl, read_of_name _ ?_⟩
    exact Function.update_self _ _ _

/-- A removed name is one name. -/
theorem names_unlink_of_ne {name other : ν} (hother : other ≠ name) :
    (files.unlink name).names other = files.names other := Function.update_of_ne hother _ _

/-- Nothing is read under a removed name. -/
theorem read_unlink (name : ν) : (files.unlink name).read name = none := by
  have hname : (files.unlink name).names name = none := Function.update_self _ _ _
  rw [read, hname, Option.map_none]

/-- What a rename leaves behind: the names change, and nothing that is in the files. -/
theorem rename_spec {source : ν} {inode : ℕ} (target : ν)
    (hsource : files.names source = some inode) :
    ∃ after, files.rename source target = some after ∧
      after.names = Function.update (Function.update files.names source none) target (some inode) ∧
        after.content = files.content ∧ after.fresh = files.fresh := by
  unfold rename
  split
  next hnone => cases hnone.symm.trans hsource
  next found hfound =>
    obtain rfl := Option.some.inj (hsource.symm.trans hfound)
    exact ⟨_, rfl, rfl, rfl, rfl⟩

/-- Opening a file for writing touches no other file that was there. -/
theorem content_openTruncate_of_ne {name : ν} {inode : ℕ} (hold : inode < files.fresh)
    (hname : files.names name ≠ some inode) :
    (files.openTruncate name).2.content inode = files.content inode := by
  unfold openTruncate
  cases hfound : files.names name with
  | none => exact Function.update_of_ne (Nat.ne_of_lt hold) _ _
  | some found =>
      refine Function.update_of_ne ?_ _ _
      rintro rfl
      exact hname hfound

/-- The opened file is the one of the name, or a new one. -/
theorem openTruncate_ne {name : ν} {inode : ℕ} (hold : inode < files.fresh)
    (hname : files.names name ≠ some inode) : (files.openTruncate name).1 ≠ inode := by
  unfold openTruncate
  cases hfound : files.names name with
  | none => exact (Nat.ne_of_lt hold).symm
  | some found =>
      rintro rfl
      exact hname hfound

/-- Numbers of files are not used again. -/
theorem fresh_le_openTruncate (name : ν) : files.fresh ≤ (files.openTruncate name).2.fresh := by
  unfold openTruncate
  cases files.names name with
  | none => exact Nat.le_succ _
  | some found => exact Nat.le_refl _

end Inodes

end OmarchyConnect.Library
