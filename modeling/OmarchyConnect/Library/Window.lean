/-
# What a window holds

A content is sent in pieces, each with its offset, and how far it has got is reported
by rising numbers. `Pieces` and `Rising` are what lies between two points of such a
transfer. Both grow at the end and shrink at the front.
-/

import Mathlib.Data.List.Basic
import Mathlib.Tactic

namespace OmarchyConnect.Library.Window

variable {α : Type}

/-- Consecutive pieces, none of them empty, that lead from `start` to `stop`. -/
inductive Pieces (content : List α) : ℕ → ℕ → List (ℕ × List α) → Prop
  | nil (start : ℕ) : Pieces content start start []
  | cons {start stop : ℕ} {data : List α} {pieces : List (ℕ × List α)} (hne : data ≠ [])
      (hpiece : data = (content.drop start).take data.length)
      (hrest : Pieces content (start + data.length) stop pieces) :
      Pieces content start stop ((start, data) :: pieces)

namespace Pieces

variable {content : List α} {start middle stop : ℕ} {pieces others : List (ℕ × List α)}

/-- Pieces that meet make up pieces of the whole. -/
theorem append (h : Pieces content start middle pieces)
    (hothers : Pieces content middle stop others) :
    Pieces content start stop (pieces ++ others) := by
  induction h with
  | nil => exact hothers
  | cons hne hpiece _ ih => exact .cons hne hpiece (ih hothers)

/-- Pieces go forward. -/
theorem le (h : Pieces content start stop pieces) : start ≤ stop := by
  induction h with
  | nil => exact le_rfl
  | cons _ _ _ ih => exact (Nat.le_add_right _ _).trans ih

/-- The first piece starts where the pieces do. -/
theorem of_cons {first : ℕ} {data : List α}
    (h : Pieces content start stop ((first, data) :: pieces)) :
    first = start ∧ data ≠ [] ∧ data = (content.drop start).take data.length ∧
      Pieces content (start + data.length) stop pieces := by
  cases h with
  | cons hne hpiece hrest => exact ⟨rfl, hne, hpiece, hrest⟩

/-- From a point to itself lead no pieces. -/
theorem eq_nil (h : Pieces content start start pieces) : pieces = [] := by
  cases h with
  | nil => rfl
  | @cons _ _ data _ hne _ hrest =>
      have hle := hrest.le
      have hpos := List.length_pos_iff.mpr hne
      omega

/-- No pieces go nowhere. -/
theorem eq_of_nil (h : Pieces content start stop []) : start = stop := by
  cases h
  rfl

end Pieces

/-- What was sent up to a piece, and the piece, is what was sent behind it. -/
theorem take_append_piece {content data : List α} {start : ℕ}
    (hpiece : data = (content.drop start).take data.length) :
    content.take start ++ data = content.take (start + data.length) := by
  rw [List.take_add, ← hpiece]

/-- A piece lies inside the content. -/
theorem piece_fits {content data : List α} {start : ℕ} (hne : data ≠ [])
    (hpiece : data = (content.drop start).take data.length) :
    start + data.length ≤ content.length := by
  have hlength := congrArg List.length hpiece
  have hpos := List.length_pos_iff.mpr hne
  rw [List.length_take, List.length_drop] at hlength
  omega

/-- Rising numbers above `low` that end at `high`. -/
inductive Rising : ℕ → ℕ → List ℕ → Prop
  | nil (low : ℕ) : Rising low low []
  | cons {low next high : ℕ} {rest : List ℕ} (hlt : low < next) (hrest : Rising next high rest) :
      Rising low high (next :: rest)

namespace Rising

variable {low middle high : ℕ} {numbers : List ℕ}

/-- A higher number may follow. -/
theorem concat (h : Rising low middle numbers) (hlt : middle < high) :
    Rising low high (numbers ++ [high]) := by
  induction h with
  | nil => exact .cons hlt (.nil high)
  | cons hnext _ ih => exact .cons hnext (ih hlt)

/-- Rising numbers go up. -/
theorem le (h : Rising low high numbers) : low ≤ high := by
  induction h with
  | nil => exact le_rfl
  | cons hlt _ ih => exact hlt.le.trans ih

/-- Behind the first number the others rise on. -/
theorem of_cons {first : ℕ} (h : Rising low high (first :: numbers)) :
    low < first ∧ Rising first high numbers := by
  cases h with
  | cons hlt hrest => exact ⟨hlt, hrest⟩

/-- No numbers rise nowhere. -/
theorem eq_of_nil (h : Rising low high []) : low = high := by
  cases h
  rfl

/-- Between a bound and itself there are no rising numbers. -/
theorem eq_nil (h : Rising low low numbers) : numbers = [] := by
  cases h with
  | nil => rfl
  | cons hlt hrest => exact absurd hrest.le (Nat.not_le.mpr hlt)

end Rising

/-- Each piece ends before the last one does. -/
theorem Pieces.end_le {content : List α} {start stop : ℕ} {pieces : List (ℕ × List α)}
    (h : Pieces content start stop pieces) {piece : ℕ × List α} (hmem : piece ∈ pieces) :
    piece.1 + piece.2.length ≤ stop := by
  induction h with
  | nil => exact absurd hmem List.not_mem_nil
  | cons _ _ hrest ih =>
      cases hmem with
      | head => exact hrest.le
      | tail _ hlater => exact ih hlater

/-- No number is above the last one. -/
theorem Rising.le_of_mem {low high : ℕ} {numbers : List ℕ} (h : Rising low high numbers)
    {number : ℕ} (hmem : number ∈ numbers) : number ≤ high := by
  induction h with
  | nil => exact absurd hmem List.not_mem_nil
  | cons _ hrest ih =>
      cases hmem with
      | head => exact hrest.le
      | tail _ hlater => exact ih hlater

/-! ## Marks -/

/-- A mark lies at a multiple of a step, or at the end. -/
def AtMark (step stop position : ℕ) : Prop := step ∣ position ∨ position = stop

namespace AtMark

variable {step stop low high : ℕ}

/-- The start is a mark. -/
theorem zero (step stop : ℕ) : AtMark step stop 0 := Or.inl (dvd_zero step)

/-- Two marks are a step apart, or the second is the end. -/
theorem step_le (hlow : AtMark step stop low) (hhigh : AtMark step stop high) (hlt : low < high)
    (hstop : high ≤ stop) : step ≤ high - low ∨ high = stop := by
  cases hhigh with
  | inr hend => exact Or.inr hend
  | inl hdvd =>
      cases hlow with
      | inr hend => exact absurd hlt (by omega)
      | inl hlowDvd => exact Or.inl (Nat.le_of_dvd (by omega) (Nat.dvd_sub hdvd hlowDvd))

end AtMark

/-- Between two marks lie no more rising marks than steps, up to one. -/
theorem Rising.length_le {step stop low high : ℕ} {numbers : List ℕ}
    (h : Rising low high numbers) (hstep : 0 < step) (hlow : AtMark step stop low)
    (hmarks : ∀ number ∈ numbers, AtMark step stop number) (hstop : high ≤ stop) :
    step * numbers.length + low < high + step := by
  induction h with
  | nil => simpa using hstep
  | @cons low next high rest hlt hrest ih =>
      have hnext := hmarks next List.mem_cons_self
      have hle := hrest.le
      have hih := ih hnext (fun number hmem => hmarks number (List.mem_cons_of_mem _ hmem)) hstop
      rw [List.length_cons, Nat.mul_succ]
      cases hlow.step_le hnext hlt (hle.trans hstop) with
      | inl hapart => omega
      | inr hend =>
          -- The mark is the end, so nothing rises above it.
          obtain rfl : next = high := by omega
          obtain rfl := hrest.eq_nil
          simp
          omega

/-- Between two marks lie no more pieces with marks at their ends than steps, up to one. -/
theorem Pieces.length_le {α : Type} {content : List α} {step stop low high : ℕ}
    {pieces : List (ℕ × List α)} (h : Pieces content low high pieces) (hstep : 0 < step)
    (hlow : AtMark step stop low)
    (hmarks : ∀ piece ∈ pieces, AtMark step stop (piece.1 + piece.2.length))
    (hstop : high ≤ stop) : step * pieces.length + low < high + step := by
  induction h with
  | nil => simpa using hstep
  | @cons low high data rest hne hpiece hrest ih =>
      have hpos := List.length_pos_iff.mpr hne
      have hnext : AtMark step stop (low + data.length) := hmarks (low, data) List.mem_cons_self
      have hle := hrest.le
      have hih := ih hnext (fun piece hmem => hmarks piece (List.mem_cons_of_mem _ hmem)) hstop
      rw [List.length_cons, Nat.mul_succ]
      cases hlow.step_le hnext (by omega) (hle.trans hstop) with
      | inl hapart => omega
      | inr hend =>
          obtain rfl : low + data.length = high := by omega
          obtain rfl := hrest.eq_nil
          simp
          omega

end OmarchyConnect.Library.Window
