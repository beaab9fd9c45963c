/-
# Rows that change places

A buffer holds the rows of a plane one after another, and something may follow them.
`RowsFrom` says that a buffer has the rows of another one, each from the place that a map
names, and the same behind them. Swapping the rows pair by pair from the outside inwards
turns the plane upside down: `mirror` is where the rows come from on the way there.
-/

import OmarchyConnect.Library.Loops
import Mathlib.Logic.Equiv.Basic

namespace OmarchyConnect.Library.Rows

open OmarchyConnect.Library.Loops

variable {α : Type}

/-! ## Where the rows come from -/

/-- Where a row comes from when this many pairs of rows are swapped. -/
def mirror (height swapped row : ℕ) : ℕ :=
  if row < swapped ∨ height - 1 - row < swapped then height - 1 - row else row

/-- Before the first swap each row is in its place. -/
theorem mirror_zero (height row : ℕ) : mirror height 0 row = row := by
  simp [mirror]

/-- When half of the rows are swapped with the other half, all have changed places but the
one in the middle. -/
theorem mirror_half {height row : ℕ} (h : row < height) :
    mirror height (height / 2) row = height - 1 - row := by
  unfold mirror
  split_ifs
  · rfl
  · omega

/-- One more pair is swapped. -/
theorem mirror_succ {height swapped row : ℕ} (hswapped : swapped < height / 2)
    (hrow : row < height) :
    mirror height (swapped + 1) row =
      mirror height swapped (Equiv.swap swapped (height - 1 - swapped) row) := by
  rw [Equiv.swap_apply_def]
  unfold mirror
  split_ifs <;> omega

/-! ## Buffers with the same rows -/

/-- A row ends in front of those below it. -/
theorem row_end_le {upper lower : ℕ} (h : upper < lower) (stride : ℕ) :
    upper * stride + stride ≤ lower * stride := by
  rw [← Nat.succ_mul]
  exact Nat.mul_le_mul_right stride h

/-- The row of a buffer, without what is missing of it. -/
def row (stride : ℕ) (xs : List α) (r : ℕ) : List α := (xs.drop (r * stride)).take stride

/-- Rows of a whole plane have the length of the stride. -/
theorem length_row {stride height r : ℕ} {xs : List α} (hr : r < height)
    (hlength : stride * height ≤ xs.length) : (row stride xs r).length = stride := by
  have hend := row_end_le hr stride
  rw [Nat.mul_comm height] at hend
  exact length_slice (by omega)

/-- An item of a row is one of the buffer. -/
theorem nth_row [Inhabited α] (xs : List α) {stride c : ℕ} (hc : c < stride) (r : ℕ) :
    nth (row stride xs r) c = nth xs (r * stride + c) := by
  rw [row, nth_take hc, nth_drop]

/-- The later buffer has the rows of the earlier one, from the places that `source` names,
and the same behind them. -/
structure RowsFrom [Inhabited α] (stride height : ℕ) (source : ℕ → ℕ) (earlier later : List α) :
    Prop where
  length : later.length = earlier.length
  cell : ∀ r < height, ∀ c < stride,
    nth later (r * stride + c) = nth earlier (source r * stride + c)
  rest : ∀ i, stride * height ≤ i → nth later i = nth earlier i

namespace RowsFrom

variable [Inhabited α] {stride height : ℕ} {source source' : ℕ → ℕ} {first second third : List α}

/-- A buffer has its own rows. -/
theorem refl (xs : List α) : RowsFrom stride height id xs xs :=
  ⟨rfl, fun _ _ _ _ => rfl, fun _ _ => rfl⟩

/-- Only the places inside of the plane matter. -/
theorem congr (h : RowsFrom stride height source first second)
    (hsame : ∀ r < height, source' r = source r) :
    RowsFrom stride height source' first second :=
  ⟨h.length, fun r hr c hc => by rw [hsame r hr, h.cell r hr c hc], h.rest⟩

/-- Rows that move twice move from where they were first. -/
theorem trans (h : RowsFrom stride height source first second)
    (h' : RowsFrom stride height source' second third)
    (hinside : ∀ r < height, source' r < height) :
    RowsFrom stride height (source ∘ source') first third where
  length := h'.length.trans h.length
  cell r hr c hc := (h'.cell r hr c hc).trans (h.cell (source' r) (hinside r hr) c hc)
  rest i hi := (h'.rest i hi).trans (h.rest i hi)

/-- A buffer whose rows come from their own places is the same. -/
theorem eq (h : RowsFrom stride height id first second) : second = first := by
  apply ext_nth h.length
  intro i _
  by_cases hi : i < stride * height
  · obtain ⟨r, hr, c, hc, rfl⟩ := exists_cell hi
    exact h.cell r hr c hc
  · exact h.rest i (Nat.not_lt.mp hi)

/-- A row is the row that it comes from. -/
theorem row_eq (h : RowsFrom stride height source first second)
    (hlength : stride * height ≤ first.length) {r : ℕ} (hr : r < height)
    (hsource : source r < height) : row stride second r = row stride first (source r) := by
  have hsecond : stride * height ≤ second.length := h.length ▸ hlength
  have hrow := length_row hr hsecond
  apply ext_nth (hrow.trans (length_row hsource hlength).symm)
  intro c hc
  rw [hrow] at hc
  rw [nth_row second hc, nth_row first hc]
  exact h.cell r hr c hc

/-- What is behind the rows stays. -/
theorem drop_eq (h : RowsFrom stride height source first second) :
    second.drop (stride * height) = first.drop (stride * height) := by
  apply ext_nth
  · rw [List.length_drop, List.length_drop, h.length]
  · intro i _
    rw [nth_drop, nth_drop]
    exact h.rest _ (Nat.le_add_right _ _)

/-- Two rows that have changed places, told by the indices. -/
theorem swap {upper lower : ℕ} (hlt : upper < lower) (hlower : lower < height)
    (hlength : second.length = first.length)
    (hnth : ∀ i, nth second i =
      if upper * stride ≤ i ∧ i < upper * stride + stride then
        nth first (lower * stride + (i - upper * stride))
      else if lower * stride ≤ i ∧ i < lower * stride + stride then
        nth first (upper * stride + (i - lower * stride))
      else nth first i) :
    RowsFrom stride height (Equiv.swap upper lower) first second := by
  have hbetween := row_end_le hlt stride
  refine ⟨hlength, fun r hr c hc => ?_, fun i hi => ?_⟩
  · have hapart : ∀ r', r ≠ r' → ¬ (r' * stride ≤ r * stride + c ∧
        r * stride + c < r' * stride + stride) := by
      intro r' hne
      rcases Nat.lt_or_gt_of_ne hne with habove | hbelow
      · have hend := row_end_le habove stride
        omega
      · have hend := row_end_le hbelow stride
        omega
    rw [hnth, Equiv.swap_apply_def]
    by_cases hisUpper : r = upper
    · rw [if_pos hisUpper, hisUpper, if_pos (by omega), Nat.add_sub_cancel_left]
    rw [if_neg hisUpper, if_neg (hapart upper hisUpper)]
    by_cases hisLower : r = lower
    · rw [if_pos hisLower, hisLower, if_pos (by omega), Nat.add_sub_cancel_left]
    rw [if_neg hisLower, if_neg (hapart lower hisLower)]
  · have hend := row_end_le hlower stride
    rw [Nat.mul_comm height] at hend
    rw [hnth, if_neg (by omega), if_neg (by omega)]

end RowsFrom

end OmarchyConnect.Library.Rows
