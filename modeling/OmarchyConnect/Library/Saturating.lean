/-
# Arithmetic that stops at the ends

A counter of fixed width that is raised at its greatest value keeps it, and a difference
that would be negative is zero. Read as natural numbers these are a minimum and the
subtraction of natural numbers.
-/

import Mathlib.Tactic

namespace OmarchyConnect.Library.Saturating

/-- `u32::saturating_add(1)`. -/
def saturatingSucc (count : UInt32) : UInt32 :=
  if count = 0xffffffff then count else count + 1

/-- A raised counter is one higher, up to its greatest value. -/
theorem toNat_saturatingSucc (count : UInt32) :
    (saturatingSucc count).toNat = min (count.toNat + 1) (2 ^ 32 - 1) := by
  have hbound := count.toNat_lt
  rw [saturatingSucc]
  split_ifs with hfull
  · rw [hfull]
    rfl
  · have hne : count.toNat ≠ 2 ^ 32 - 1 := fun hsame => hfull (UInt32.toNat_inj.mp hsame)
    rw [UInt32.toNat_add]
    show (count.toNat + 1) % 2 ^ 32 = _
    rw [Nat.mod_eq_of_lt (by omega)]
    omega

/-- `u64::saturating_sub`. -/
def saturatingSub (a b : UInt64) : UInt64 := if b ≤ a then a - b else 0

/-- The difference is that of the natural numbers. -/
theorem toNat_saturatingSub (a b : UInt64) :
    (saturatingSub a b).toNat = a.toNat - b.toNat := by
  unfold saturatingSub
  split_ifs with h
  · exact UInt64.toNat_sub_of_le _ _ h
  · have hlt := UInt64.le_iff_toNat_le.not.mp h
    rw [UInt64.toNat_zero]
    omega

end OmarchyConnect.Library.Saturating
