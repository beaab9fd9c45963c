/-
# Pictures that lie upside down

A compositor may draw the bottom row first. `flip_rows` then swaps the rows of the buffer
in place, from the outside inwards, through a point where the buffer is split. Every index
that it computes is at most `stride * height`.
-/

import OmarchyConnect.Library.Rows
import OmarchyConnect.Library.Wire

namespace OmarchyConnect.Host

open OmarchyConnect.Library.Wire OmarchyConnect.Library.Loops OmarchyConnect.Library.Rows

/-- The body of the loop of `flip_rows`. -/
def flipRow (stride height row : ℕ) (bytes : Bytes) : Checked Bytes := do
  let (top, bottom) ← splitAt bytes ((height - 1 - row) * stride)
  let (top, bottom) ← swapWithSlice top (row * stride) (row * stride + stride) bottom stride
  .ok (top ++ bottom)

/-- `flip_rows`. -/
def flipRows (bytes : Bytes) (stride height : ℕ) : Checked Bytes :=
  forRange (flipRow stride height) (height / 2) bytes

/-- The two rows of a turn lie one behind the other and in front of the end. -/
theorem turn_inside (stride : ℕ) {height row : ℕ} (hrow : row < height / 2) :
    row * stride + stride ≤ (height - 1 - row) * stride ∧
      (height - 1 - row) * stride + stride ≤ stride * height := by
  have hlower := row_end_le (by omega : height - 1 - row < height) stride
  rw [Nat.mul_comm height] at hlower
  exact ⟨row_end_le (by omega) stride, hlower⟩

/-- A turn swaps two rows. -/
theorem flipRow_yields {stride height row : ℕ} {bytes : Bytes} (hrow : row < height / 2)
    (hlength : stride * height ≤ bytes.length) :
    Yields (flipRow stride height row bytes)
      (RowsFrom stride height (Equiv.swap row (height - 1 - row)) bytes) := by
  obtain ⟨hupper, hlower⟩ := turn_inside stride hrow
  refine (splitAt_yields (by omega)).bind fun (top, bottom) ⟨htop, hbottom, htops, hbottoms⟩ => ?_
  refine (swapWithSlice_yields (by omega) (by omega) (by omega) (by omega)).bind
    fun (top', bottom') ⟨htop', hbottom', htops', hbottoms'⟩ => ?_
  set mid := (height - 1 - row) * stride with hmid
  have hleft : ∀ i < mid, nth (top' ++ bottom') i = nth top' i :=
    fun i hi => nth_append_left bottom' (by omega)
  have hright : ∀ i, nth (top' ++ bottom') (mid + i) = nth bottom' i := by
    intro i
    rw [← htop, ← htop']
    exact nth_append_right top' bottom' i
  refine .ok (.swap (by omega) (by omega) (by rw [List.length_append]; omega) fun i => ?_)
  by_cases hi : i < mid
  · rw [hleft i hi, htops']
    split_ifs with hinside hlater
    · exact hbottoms _
    · omega
    · exact htops i hi
  · obtain ⟨k, rfl⟩ := Nat.exists_eq_add_of_le (Nat.not_lt.mp hi)
    rw [if_neg (by omega), hright, hbottoms', Nat.add_sub_cancel_left]
    split_ifs with hinside hlater hlater
    · exact htops _ (by omega)
    · omega
    · omega
    · exact hbottoms k

/-- The loop turns the rows upside down. The invariant is that the pairs gone over have
changed places. -/
theorem flipRows_yields {stride height : ℕ} {bytes : Bytes}
    (hlength : stride * height ≤ bytes.length) :
    Yields (flipRows bytes stride height)
      (RowsFrom stride height (fun row => height - 1 - row) bytes) := by
  have hloop : Yields (flipRows bytes stride height)
      (RowsFrom stride height (mirror height (height / 2)) bytes) := by
    apply forRange_yields fun swapped => RowsFrom stride height (mirror height swapped) bytes
    · exact (RowsFrom.refl bytes).congr fun row _ => mirror_zero height row
    · intro row hrow before hbefore
      refine (flipRow_yields hrow (hbefore.length ▸ hlength)).mono fun after hafter => ?_
      have hinside : ∀ r < height, Equiv.swap row (height - 1 - row) r < height := by
        intro r hr
        rw [Equiv.swap_apply_def]
        split_ifs <;> omega
      exact (hbefore.trans hafter hinside).congr fun r hr => mirror_succ hrow hr
  exact hloop.mono fun after hafter => hafter.congr fun row hrow => (mirror_half hrow).symm

/-- Flipping puts each row where its mirror image was, leaves what follows the rows alone,
and is undone by flipping again. -/
theorem flipRows_reverses (bytes : Bytes) (stride height : ℕ)
    (hlength : stride * height ≤ bytes.length) :
    ∃ flipped, flipRows bytes stride height = .ok flipped ∧
      flipped.length = bytes.length ∧
      (∀ r < height, row stride flipped r = row stride bytes (height - 1 - r)) ∧
      flipped.drop (stride * height) = bytes.drop (stride * height) ∧
      flipRows flipped stride height = .ok bytes := by
  obtain ⟨flipped, hflip, hrows⟩ := flipRows_yields hlength
  obtain ⟨again, hflip', hrows'⟩ := flipRows_yields (hrows.length.symm ▸ hlength)
  have hback : again = bytes := by
    refine RowsFrom.eq ((hrows.trans hrows' fun r hr => ?_).congr fun r hr => ?_)
    · omega
    · simp only [id_eq, Function.comp_apply]
      omega
  subst hback
  refine ⟨flipped, hflip, hrows.length, fun r hr => ?_, hrows.drop_eq, hflip'⟩
  exact hrows.row_eq hlength hr (by omega)

/-- Three rows with a byte behind them. -/
theorem flipRows_reverses_threeRows :
    ∃ flipped, flipRows [1, 1, 2, 2, 3, 3, 9] 2 3 = .ok flipped ∧
      flipped.length = [1, 1, 2, 2, 3, 3, 9].length ∧
      (∀ r < 3, row 2 flipped r = row 2 [1, 1, 2, 2, 3, 3, 9] (3 - 1 - r)) ∧
      flipped.drop (2 * 3) = [1, 1, 2, 2, 3, 3, 9].drop (2 * 3) ∧
      flipRows flipped 2 3 = .ok [1, 1, 2, 2, 3, 3, 9] :=
  flipRows_reverses [1, 1, 2, 2, 3, 3, 9] 2 3 (by decide)

end OmarchyConnect.Host
