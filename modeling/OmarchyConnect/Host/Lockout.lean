/-
# Wrong-PIN throttling

Each attempt is one online guess. The first failures are free; after that the host
refuses every attempt for a window that doubles with each further failure. A correct
PIN resets the count. Durations and instants are counted in nanoseconds.
-/

import OmarchyConnect.Library.Saturating

namespace OmarchyConnect.Host

open OmarchyConnect.Library.Saturating

/-- `Duration::from_secs`. -/
def fromSecs (seconds : ℕ) : ℕ := seconds * 1000000000

/-- `Duration::as_secs`. -/
def asSecs (duration : ℕ) : ℕ := duration / 1000000000

/-- The failures that are free, and the shortest and the longest lock. -/
def freeFailures : UInt32 := 5
def baseLock : ℕ := fromSecs 30
def maxLock : ℕ := fromSecs (15 * 60)

/-- `Lockout`. -/
structure Lockout where
  failures : UInt32 := 0
  lockedUntil : Option ℕ := none
  deriving DecidableEq, Repr

namespace Lockout

/-- Time left before another attempt is accepted. -/
def remaining (lockout : Lockout) (now : ℕ) : Option ℕ :=
  (lockout.lockedUntil.bind fun instant =>
    if now ≤ instant then some (instant - now) else none).filter fun left => left ≠ 0

/-- The lock after a number of failures that is no longer free. -/
def lockFor (failures : UInt32) : ℕ :=
  let doublings := min (failures - freeFailures).toNat 10
  min (baseLock * 2 ^ doublings) maxLock

/-- `Lockout::fail`. -/
def fail (lockout : Lockout) (now : ℕ) : Option ℕ × Lockout :=
  let failures := saturatingSucc lockout.failures
  if failures < freeFailures then (none, { lockout with failures })
  else
    let lock := lockFor failures
    (some lock, { failures, lockedUntil := some (now + lock) })

/-- `Lockout::succeed`. -/
def succeed (_lockout : Lockout) : Lockout := { failures := 0, lockedUntil := none }

/-- Nothing is left of a lock from its end on. -/
theorem remaining_eq_none_iff (lockout : Lockout) (now : ℕ) :
    lockout.remaining now = none ↔ ∀ instant ∈ lockout.lockedUntil, instant ≤ now := by
  rw [remaining]
  cases lockout.lockedUntil with
  | none => simp
  | some instant =>
      by_cases hle : now ≤ instant
      · simp [hle]
        omega
      · simp [hle]
        omega

/-- The lock of the source is the one that doubles from half a minute up to a quarter
of an hour. -/
theorem lockFor_eq {failures : UInt32} (h : 5 ≤ failures.toNat) :
    lockFor failures = fromSecs (min (30 * 2 ^ (failures.toNat - 5)) 900) := by
  have hsub : (failures - freeFailures).toNat = failures.toNat - 5 :=
    UInt32.toNat_sub_of_le _ _ (UInt32.le_iff_toNat_le.mpr h)
  simp only [lockFor, hsub, baseLock, maxLock, fromSecs]
  generalize failures.toNat - 5 = doublings
  by_cases hsmall : doublings ≤ 10
  · rw [Nat.min_eq_left hsmall]
    omega
  · -- From ten doublings on both sides are a quarter of an hour.
    have hlarge : 2 ^ 10 ≤ 2 ^ doublings := Nat.pow_le_pow_right (by decide) (by omega)
    rw [Nat.min_eq_right (Nat.le_of_lt (Nat.lt_of_not_le hsmall))]
    omega

/-- A failure counts on, and a fifth or later one locks from now on. -/
theorem fail_spec (lockout : Lockout) (now : ℕ) :
    (lockout.fail now).2.failures = saturatingSucc lockout.failures ∧
      (lockout.fail now).2.lockedUntil =
        if saturatingSucc lockout.failures < freeFailures then lockout.lockedUntil
        else some (now + lockFor (saturatingSucc lockout.failures)) := by
  simp only [fail]
  split_ifs <;> exact ⟨rfl, rfl⟩

end Lockout

end OmarchyConnect.Host
