/-
# Packing boxes along two axes

The segments of an axis are placed anew, with other lengths: one that has others before
it starts at the greatest end of those. Boxes of two packed axes are disjoint when the
boxes before were. A table is filled in an order, each entry from the earlier ones.
-/

import Mathlib.Data.List.Nodup
import Mathlib.Data.Set.Prod
import Mathlib.Logic.Function.Basic
import Mathlib.Order.Bounds.Basic
import Mathlib.Order.CompletePartialOrder
import Mathlib.Order.Interval.Set.Disjoint

namespace OmarchyConnect.Library.Packing

/-! ## Axes -/

variable {ι α : Type}

/-- Where the segments of an axis start and stop. -/
structure Axis (ι α : Type) where
  start : ι → α
  stop : ι → α

namespace Axis

variable [LinearOrder α]

/-- What an item covers of the axis. -/
def segment (axis : Axis ι α) (i : ι) : Set α := Set.Ico (axis.start i) (axis.stop i)

/-- The one segment ends before the other starts. -/
def Before (axis : Axis ι α) (j i : ι) : Prop := axis.stop j ≤ axis.start i

/-- The second axis packs the segments of the first. -/
def Packs (axis packed : Axis ι α) : Prop :=
  ∀ i, (∃ j, axis.Before j i) →
    IsGreatest (packed.stop '' {j | axis.Before j i}) (packed.start i)

variable {axis packed x y x' y' : Axis ι α} {i j : ι}

/-- A segment that ends before another starts is disjoint from it. -/
theorem Before.disjoint (h : axis.Before j i) : Disjoint (axis.segment j) (axis.segment i) :=
  Set.Ico_disjoint_Ico.mpr ((min_le_left _ _).trans (h.trans (le_max_right _ _)))

/-- Segments with something in them are disjoint when one is before the other. -/
theorem disjoint_segment_iff (hi : axis.start i < axis.stop i) (hj : axis.start j < axis.stop j) :
    Disjoint (axis.segment i) (axis.segment j) ↔ axis.Before i j ∨ axis.Before j i := by
  constructor
  · intro hdisjoint
    rcases min_le_iff.mp (Set.Ico_disjoint_Ico.mp hdisjoint) with hle | hle
    · exact .inl ((le_max_iff.mp hle).resolve_left (not_le.mpr hi))
    · exact .inr ((le_max_iff.mp hle).resolve_right (not_le.mpr hj))
  · rintro (hbefore | hbefore)
    · exact hbefore.disjoint
    · exact hbefore.disjoint.symm

/-- Packing keeps the order of the segments. -/
theorem Packs.before (hpacks : axis.Packs packed) (h : axis.Before j i) : packed.Before j i :=
  (hpacks i ⟨j, h⟩).2 ⟨j, h, rfl⟩

/-- Segments that were disjoint are so when they are placed anew. -/
theorem Packs.disjoint (hpacks : axis.Packs packed) (hi : axis.start i < axis.stop i)
    (hj : axis.start j < axis.stop j) (h : Disjoint (axis.segment i) (axis.segment j)) :
    Disjoint (packed.segment i) (packed.segment j) := by
  rcases (disjoint_segment_iff hi hj).mp h with hbefore | hbefore
  · exact (hpacks.before hbefore).disjoint
  · exact (hpacks.before hbefore).disjoint.symm

/-- The box over a segment of each axis. -/
def box (x y : Axis ι α) (i : ι) : Set (α × α) := x.segment i ×ˢ y.segment i

/-- Boxes that are disjoint stay disjoint when both axes are packed. -/
theorem Packs.disjoint_box (hx : x.Packs x') (hy : y.Packs y') (hxi : x.start i < x.stop i)
    (hxj : x.start j < x.stop j) (hyi : y.start i < y.stop i) (hyj : y.start j < y.stop j)
    (h : Disjoint (x.box y i) (x.box y j)) : Disjoint (x'.box y' i) (x'.box y' j) := by
  rw [box, box, Set.disjoint_prod] at h ⊢
  exact h.imp (hx.disjoint hxi hxj) (hy.disjoint hyi hyj)

end Axis

/-! ## Tables -/

section Tables

variable [DecidableEq ι] (next : List ι → ι → (ι → α) → α)

/-- The entries in an order, each computed from the table of the earlier ones. -/
def fill (earlier : List ι) : List ι → (ι → α) → ι → α
  | [], table => table
  | i :: rest, table =>
      fill (earlier ++ [i]) rest (Function.update table i (next earlier i table))

/-- Entries that are not in the order stay. -/
theorem fill_of_notMem {earlier rest : List ι} {table : ι → α} {i : ι} (h : i ∉ rest) :
    fill next earlier rest table i = table i := by
  induction rest generalizing earlier table with
  | nil => rfl
  | cons j rest ih =>
      rw [List.mem_cons, not_or] at h
      rw [fill, ih h.2, Function.update_of_ne h.1]

/-- An entry is computed from the filled table, when it depends on the earlier ones only. -/
theorem fill_eq_next
    (hnext : ∀ earlier i table table', (∀ j ∈ earlier, table j = table' j) →
      next earlier i table = next earlier i table')
    {earlier front back : List ι} {i : ι} (hnodup : (earlier ++ (front ++ i :: back)).Nodup)
    (table : ι → α) :
    fill next earlier (front ++ i :: back) table i =
      next (earlier ++ front) i (fill next earlier (front ++ i :: back) table) := by
  induction front generalizing earlier table with
  | nil =>
      rw [List.nil_append] at hnodup ⊢
      obtain ⟨-, hrest, hapart⟩ := List.nodup_append.mp hnodup
      have hback : i ∉ back := (List.nodup_cons.mp hrest).1
      rw [List.append_nil]
      calc fill next earlier (i :: back) table i
          = Function.update table i (next earlier i table) i := fill_of_notMem next hback
        _ = next earlier i table := Function.update_self _ _ _
        _ = next earlier i (fill next earlier (i :: back) table) := by
            apply hnext
            intro j hj
            have hother : j ∉ i :: back := fun hmem => hapart j hj j hmem rfl
            exact (fill_of_notMem next hother).symm
  | cons j front ih =>
      have hsame : earlier ++ (j :: front ++ i :: back) =
          earlier ++ [j] ++ (front ++ i :: back) := by simp
      rw [hsame] at hnodup
      rw [List.cons_append, fill, ih hnodup, List.append_assoc, List.singleton_append]

end Tables

end OmarchyConnect.Library.Packing
