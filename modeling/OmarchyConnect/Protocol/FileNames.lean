/-
# Reduced names and their paths

A name that a peer offers is reduced to one harmless segment. Reducing it again changes
nothing, and the two paths that are made from it stay in the download directory, apart
from each other.
-/

import OmarchyConnect.Protocol.Receiving
import Std.Data.String.ToNat

namespace OmarchyConnect.Protocol

open OmarchyConnect.Library.Files

/-! ## What a reduced name is -/

/-- The characters `[A-Za-z0-9._-]`. -/
def harmlessChar (c : Char) : Bool :=
  c.isAlphanum || c == '.' || c == '-' || c == '_'

/-- A short segment of harmless characters without a dot at either end. -/
structure SafeName (name : List Char) : Prop where
  nonempty : name ≠ []
  short : name.length ≤ 120
  harmless : ∀ c ∈ name, harmlessChar c
  noLeadingDot : name.head? ≠ some '.'
  noTrailingDot : name.getLast? ≠ some '.'

/-- One segment of a path that names neither the directory nor its parent. -/
def NormalSegment (segment : String) : Prop :=
  segment ≠ "" ∧ segment ≠ "." ∧ segment ≠ ".." ∧ '/' ∉ segment.toList

/-- The path is that of an entry of the directory. -/
def DirectChild (dir path : Path) : Prop :=
  ∃ segment, path = dir ++ [segment] ∧ NormalSegment segment

/-! ## Trimming -/

/-- Trimming drops characters only. -/
theorem trimDots_sublist (name : List Char) : (trimDots name).Sublist name :=
  (List.rdropWhile_prefix _ _).sublist.trans (List.dropWhile_suffix _).sublist

/-- Trimming leaves no dot at the end. -/
theorem getLast?_trimDots (name : List Char) : (trimDots name).getLast? ≠ some '.' := by
  intro hdot
  have hne : trimDots name ≠ [] := by
    intro hnil
    rw [hnil] at hdot
    exact absurd hdot (by decide)
  have hnot := List.rdropWhile_last_not (· == '.') (name.dropWhile (· == '.')) hne
  rw [List.getLast?_eq_some_getLast hne, Option.some_inj] at hdot
  exact hnot (beq_iff_eq.mpr hdot)

/-- Without a dot at either end there is nothing to trim. -/
theorem trimDots_eq_self {name : List Char} (hhead : name.head? ≠ some '.')
    (hlast : name.getLast? ≠ some '.') : trimDots name = name := by
  have hfront : name.dropWhile (· == '.') = name := by
    cases name with
    | nil => rfl
    | cons c rest =>
        rw [List.dropWhile_cons_of_neg]
        simpa using hhead
  rw [trimDots, hfront, List.rdropWhile_eq_self_iff]
  intro hne hdot
  rw [List.getLast?_eq_some_getLast hne, beq_iff_eq.mp hdot] at hlast
  exact hlast rfl

/-! ## Reducing a name -/

/-- What the sanitizer returns is safe. -/
theorem sanitizeFileName_safe (name : String) : SafeName (sanitizeFileName name).toList := by
  simp only [sanitizeFileName]
  generalize hbase : (fileName name.toList).getD "file.bin".toList = base
  split_ifs with hempty
  · exact ⟨by decide, by decide, List.all_eq_true.mp (by decide), by decide, by decide⟩
  · rw [String.toList_ofList]
    have hsub := trimDots_sublist ((base.filter harmlessChar).take 120)
    refine ⟨fun hnil => hempty (List.isEmpty_iff.mpr hnil), ?_, ?_, head?_trimDots _,
      getLast?_trimDots _⟩
    · exact hsub.length_le.trans (List.length_take_le 120 _)
    · intro c hc
      exact (List.mem_filter.mp (List.mem_of_mem_take (hsub.subset hc))).2

/-- A safe name is the last segment of itself. -/
theorem fileName_of_safe {name : List Char} (hsafe : SafeName name) :
    fileName name = some name := by
  have hslash : '/' ∉ name := fun hmem => absurd (hsafe.harmless '/' hmem) (by decide)
  have hdot : name ≠ ['.'] := fun heq => hsafe.noLeadingDot (heq ▸ rfl)
  have hdots : name ≠ ['.', '.'] := fun heq => hsafe.noLeadingDot (heq ▸ rfl)
  simp [fileName, List.splitOn_eq_singleton hslash, hsafe.nonempty, hdot, hdots]

/-- Reducing a safe name changes nothing. -/
theorem sanitizeFileName_of_safe {name : String} (hsafe : SafeName name.toList) :
    sanitizeFileName name = name := by
  have hfilter : name.toList.filter harmlessChar = name.toList :=
    List.filter_eq_self.mpr hsafe.harmless
  have hclean : trimDots ((name.toList.filter harmlessChar).take 120) = name.toList := by
    rw [hfilter, List.take_of_length_le hsafe.short]
    exact trimDots_eq_self hsafe.noLeadingDot hsafe.noTrailingDot
  have hne : ¬ name.toList.isEmpty := fun hempty =>
    hsafe.nonempty (List.isEmpty_iff.mp hempty)
  unfold sanitizeFileName
  rw [fileName_of_safe hsafe, Option.getD_some]
  show (if (trimDots ((name.toList.filter harmlessChar).take 120)).isEmpty then "file.bin"
    else String.ofList (trimDots ((name.toList.filter harmlessChar).take 120))) = name
  rw [hclean, if_neg hne, String.ofList_toList]

/-! ## The two paths -/

/-- Two names that end in a dot and a part without dots agree when both parts do. -/
theorem append_cons_right_inj {α : Type} {a : α} {xs xs' ys ys' : List α} (hys : a ∉ ys)
    (hys' : a ∉ ys') (hsame : xs ++ a :: ys = xs' ++ a :: ys') : xs = xs' ∧ ys = ys' := by
  obtain ⟨middle, hxs, hrest⟩ | ⟨middle, hxs, hrest⟩ := List.append_eq_append_iff.mp hsame
  · cases middle with
    | nil => exact ⟨by rw [hxs, List.append_nil], (List.cons.inj hrest).2⟩
    | cons b middle =>
        rw [List.cons_append] at hrest
        refine absurd ?_ hys
        rw [(List.cons.inj hrest).2]
        exact List.mem_append_right middle List.mem_cons_self
  · cases middle with
    | nil => exact ⟨by rw [hxs, List.append_nil], (List.cons.inj hrest).2.symm⟩
    | cons b middle =>
        rw [List.cons_append] at hrest
        refine absurd ?_ hys'
        rw [(List.cons.inj hrest).2]
        exact List.mem_append_right middle List.mem_cons_self

/-- An id is written in digits. -/
theorem isDigit_of_mem_toString {id : UInt32} {c : Char} (hc : c ∈ (toString id).toList) :
    c.isDigit := by
  have hrepr : (toString id).toList = Nat.toDigits 10 id.toNat := Nat.toList_repr
  rw [hrepr] at hc
  exact Nat.isDigit_of_mem_toDigits (by norm_num) le_rfl hc

/-- Different ids are written differently. -/
theorem toString_uint32_injective {id other : UInt32} (hsame : toString id = toString other) :
    id = other :=
  UInt32.toNat_inj.mp (Nat.repr_injective hsame)

/-- The segment of a temp file. -/
def tempSegment (name : String) (id : UInt32) : String :=
  "." ++ name ++ "." ++ toString id ++ ".partial"

/-- The characters of a temp name. -/
theorem toList_tempSegment (name : String) (id : UInt32) :
    (tempSegment name id).toList =
      '.' :: (name.toList ++ '.' :: (toString id).toList) ++ ".partial".toList := by
  simp [tempSegment, String.toList_append]

/-- A temp name tells the name and the id. -/
theorem tempSegment_inj {name another : String} {id other : UInt32}
    (hsame : tempSegment name id = tempSegment another other) : name = another ∧ id = other := by
  have hchars := congrArg String.toList hsame
  rw [toList_tempSegment, toList_tempSegment] at hchars
  have hdigits : ∀ id : UInt32, '.' ∉ (toString id).toList := fun _ hmem =>
    absurd (isDigit_of_mem_toString hmem) (by decide)
  obtain ⟨hname, hid⟩ := append_cons_right_inj (hdigits id) (hdigits other)
    (List.cons.inj (List.append_cancel_right hchars)).2
  exact ⟨String.toList_inj.mp hname, toString_uint32_injective (String.toList_inj.mp hid)⟩

/-- A safe name is one segment of a path. -/
theorem normalSegment_of_safe {name : String} (hsafe : SafeName name.toList) :
    NormalSegment name := by
  refine ⟨?_, ?_, ?_, fun hmem => absurd (hsafe.harmless '/' hmem) (by decide)⟩
  · rintro rfl
    exact hsafe.nonempty rfl
  · rintro rfl
    exact hsafe.noLeadingDot rfl
  · rintro rfl
    exact hsafe.noLeadingDot rfl

/-- A temp name is one segment of a path. -/
theorem normalSegment_tempSegment {name : String} (hsafe : SafeName name.toList) (id : UInt32) :
    NormalSegment (tempSegment name id) := by
  have hlong : 3 ≤ (tempSegment name id).toList.length := by
    have hend : ".partial".toList.length = 8 := by decide
    simp only [toList_tempSegment, List.length_append, List.length_cons, hend]
    omega
  have hshort (segment : String) (hlength : segment.toList.length < 3) :
      tempSegment name id ≠ segment := by
    intro heq
    rw [heq] at hlong
    omega
  refine ⟨hshort "" (by decide), hshort "." (by decide), hshort ".." (by decide), ?_⟩
  intro hmem
  rw [toList_tempSegment, List.mem_append, List.mem_cons, List.mem_append, List.mem_cons] at hmem
  rcases hmem with (hdot | hname | hdot | hid) | hend
  · exact absurd hdot (by decide)
  · exact absurd (hsafe.harmless '/' hname) (by decide)
  · exact absurd hdot (by decide)
  · exact absurd (isDigit_of_mem_toString hid) (by decide)
  · exact absurd hend (by decide)

namespace FileReceiver

/-- A file is saved directly in the directory. -/
theorem finalPath_directChild (dir : Path) (id : UInt32) (name : String) (size : UInt64) :
    DirectChild dir (ofOffer dir id name size).finalPath :=
  ⟨sanitizeFileName name, rfl, normalSegment_of_safe (sanitizeFileName_safe name)⟩

/-- A temp file stands directly in the directory. -/
theorem tempPath_directChild (dir : Path) (id : UInt32) (name : String) (size : UInt64) :
    DirectChild dir (ofOffer dir id name size).tempPath :=
  ⟨tempSegment (sanitizeFileName name) id, rfl,
    normalSegment_tempSegment (sanitizeFileName_safe name) id⟩

/-- Temp files of different transfers are different. -/
theorem tempPath_inj {dir : Path} {id other : UInt32} {name another : String}
    {size length : UInt64}
    (hsame : (ofOffer dir id name size).tempPath = (ofOffer dir other another length).tempPath) :
    sanitizeFileName name = sanitizeFileName another ∧ id = other :=
  tempSegment_inj (List.singleton_inj.mp (List.append_cancel_left hsame))

/-- Offered names neither leave the download directory nor meet in it. -/
theorem offered_names_contained :
    (∀ name : String, SafeName (sanitizeFileName name).toList ∧
      sanitizeFileName (sanitizeFileName name) = sanitizeFileName name) ∧
    ∀ (dir : Path) (id other : UInt32) (name another : String) (size length : UInt64),
      let first := ofOffer dir id name size
      let second := ofOffer dir other another length
      DirectChild dir first.finalPath ∧ DirectChild dir first.tempPath ∧
        first.tempPath ≠ second.finalPath ∧
        (first.tempPath = second.tempPath →
          sanitizeFileName name = sanitizeFileName another ∧ id = other) := by
  refine ⟨fun name => ?_, fun dir id other name another size length => ?_⟩
  · exact ⟨sanitizeFileName_safe name, sanitizeFileName_of_safe (sanitizeFileName_safe name)⟩
  · exact ⟨finalPath_directChild dir id name size, tempPath_directChild dir id name size,
      temp_ne_final dir id other name another size length, tempPath_inj⟩

end FileReceiver

end OmarchyConnect.Protocol
