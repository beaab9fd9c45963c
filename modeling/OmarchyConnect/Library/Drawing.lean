/-
# Drawing on a plane

An operation stamps a set of cells when it gives them a colour and keeps the others,
whatever the plane shows. Stamps compose: one behind another, and in a counting loop.
-/

import OmarchyConnect.Library.Loops
import Mathlib.Data.Set.Basic

namespace OmarchyConnect.Library.Drawing

open OmarchyConnect.Library.Loops

variable {α : Type} {w h : ℕ} {colour : α} {cells others : Set (ℕ × ℕ)}
  {draw next : List α → Checked (List α)} {picture : ℕ → ℕ → α}

open Classical in
/-- The picture with some cells in one colour. -/
noncomputable def overlay (colour : α) (cells : Set (ℕ × ℕ)) (picture : ℕ → ℕ → α)
    (row col : ℕ) : α :=
  if (row, col) ∈ cells then colour else picture row col

/-- A stamped cell has the colour. -/
theorem overlay_of_mem {row col : ℕ} (h : (row, col) ∈ cells) :
    overlay colour cells picture row col = colour := if_pos h

/-- Another cell is kept. -/
theorem overlay_of_notMem {row col : ℕ} (h : (row, col) ∉ cells) :
    overlay colour cells picture row col = picture row col := if_neg h

/-- Two stamps of a colour are one on all their cells. -/
theorem overlay_overlay : overlay colour others (overlay colour cells picture) =
    overlay colour (cells ∪ others) picture := by
  funext row col
  by_cases hothers : (row, col) ∈ others
  · rw [overlay_of_mem hothers, overlay_of_mem (.inr hothers)]
  · rw [overlay_of_notMem hothers]
    by_cases hcells : (row, col) ∈ cells
    · rw [overlay_of_mem hcells, overlay_of_mem (.inl hcells)]
    · rw [overlay_of_notMem hcells, overlay_of_notMem fun hunion => hunion.elim hcells hothers]

variable [Inhabited α]

/-- Every cell of the plane is as in the picture. -/
abbrev Shows (w h : ℕ) (picture : ℕ → ℕ → α) : List α → Prop :=
  Filled w h (fun _ _ => True) picture

/-- The operation gives the cells the colour and keeps the others. -/
def Stamps (w h : ℕ) (colour : α) (cells : Set (ℕ × ℕ))
    (draw : List α → Checked (List α)) : Prop :=
  ∀ picture plane, Shows w h picture plane →
    Yields (draw plane) (Shows w h (overlay colour cells picture))

namespace Stamps

/-- Only the cells of the plane count. -/
theorem congr (hdraw : Stamps w h colour cells draw)
    (hsame : ∀ row < h, ∀ col < w, (row, col) ∈ cells ↔ (row, col) ∈ others) :
    Stamps w h colour others draw := by
  intro picture plane hplane
  refine (hdraw picture plane hplane).mono fun after hafter =>
    ⟨hafter.length, fun row hrow col hcol _ => ?_⟩
  rw [hafter.cell row hrow col hcol trivial]
  by_cases hcell : (row, col) ∈ cells
  · rw [overlay_of_mem hcell, overlay_of_mem ((hsame row hrow col hcol).mp hcell)]
  · rw [overlay_of_notMem hcell, overlay_of_notMem (mt (hsame row hrow col hcol).mpr hcell)]

/-- Nothing is drawn where there is no cell of the plane. -/
theorem keep (hnone : ∀ row < h, ∀ col < w, (row, col) ∉ cells)
    (hdraw : ∀ plane : List α, plane.length = w * h → draw plane = .ok plane) :
    Stamps w h colour cells draw := by
  intro picture plane hplane
  rw [hdraw plane hplane.length]
  refine .ok ⟨hplane.length, fun row hrow col hcol _ => ?_⟩
  rw [overlay_of_notMem (hnone row hrow col hcol)]
  exact hplane.cell row hrow col hcol trivial

/-- Operations that stamp do so one after another. -/
theorem andThen (hdraw : Stamps w h colour cells draw) (hnext : Stamps w h colour others next) :
    Stamps w h colour (cells ∪ others) fun plane => draw plane >>= next := by
  intro picture plane hplane
  rw [← overlay_overlay]
  exact (hdraw picture plane hplane).bind (hnext _)

/-- Writing a cell of the plane. -/
theorem write {row col : ℕ} (hrow : row < h) (hcol : col < w) :
    Stamps w h colour {(row, col)} fun plane => write plane (row * w + col) colour := by
  intro picture plane hplane
  have hlt : row * w + col < plane.length := hplane.length ▸ cell_lt hrow hcol
  have hwrite : Loops.write plane (row * w + col) colour =
      .ok (plane.set (row * w + col) colour) := if_pos hlt
  show Yields (Loops.write plane (row * w + col) colour) _
  rw [hwrite]
  refine .ok ⟨by rw [List.length_set, hplane.length], fun r hr c hc _ => ?_⟩
  rw [nth_set hlt]
  split_ifs with heq
  · obtain ⟨rfl, rfl⟩ := cell_inj hcol hc heq
    exact (overlay_of_mem rfl).symm
  · rw [overlay_of_notMem, hplane.cell r hr c hc trivial]
    intro hcell
    obtain ⟨rfl, rfl⟩ := Prod.mk.inj hcell
    exact heq rfl

/-- A loop stamps what its turns stamp. -/
theorem forRange {turn : ℕ → List α → Checked (List α)} {cells : ℕ → Set (ℕ × ℕ)} {n : ℕ}
    (hturn : ∀ i < n, Stamps w h colour (cells i) (turn i)) :
    Stamps w h colour {cell | ∃ i < n, cell ∈ cells i} (forRange turn n) := by
  induction n with
  | zero => exact keep (fun _ _ _ _ ⟨_, hi, _⟩ => (Nat.not_lt_zero _ hi)) fun _ _ => rfl
  | succ n ih =>
      have hearlier := ih fun i hi => hturn i (Nat.lt_succ_of_lt hi)
      refine (hearlier.andThen (hturn n (Nat.lt_succ_self n))).congr fun row _ col _ => ?_
      simp only [Set.mem_union, Set.mem_ofPred_eq, Nat.lt_succ_iff_lt_or_eq]
      constructor
      · rintro (⟨i, hi, hcell⟩ | hcell)
        · exact ⟨i, .inl hi, hcell⟩
        · exact ⟨n, .inr rfl, hcell⟩
      · rintro ⟨i, hi | rfl, hcell⟩
        · exact .inl ⟨i, hi, hcell⟩
        · exact .inr hcell

/-- A turn of a loop that draws in one case only. -/
theorem ite {cond : Prop} [Decidable cond] (hdraw : cond → Stamps w h colour cells draw) :
    Stamps w h colour {cell | cond ∧ cell ∈ cells}
      fun plane => if cond then draw plane else .ok plane := by
  by_cases hcond : cond
  · simp only [if_pos hcond]
    exact (hdraw hcond).congr fun row _ col _ => by simp [hcond]
  · simp only [if_neg hcond]
    exact keep (fun _ _ _ _ hcell => hcond hcell.1) fun _ _ => rfl

end Stamps

end OmarchyConnect.Library.Drawing
