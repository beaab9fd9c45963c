/-
# Planes that are too short

`copyPlane` leaves out the rows that do not fit, and `planarI420` looks only at the
length of what was copied. A plane that lacks a row gives fewer bytes than its part of
the frame and no plane gives more, so the length is right only when no row is missing.
-/

import OmarchyConnect.Host.PortalFrames
import Mathlib.Tactic

namespace OmarchyConnect.Host

open OmarchyConnect.Library.Loops OmarchyConnect.Library.Wire

namespace OwnedPlane

/-- The plane has the last of its rows to the end, and so all of them. -/
def Holds (plane : OwnedPlane) (width rows : ℕ) : Prop :=
  (rows - 1) * plane.stride + width ≤ plane.bytes.length

instance decidableHolds (plane : OwnedPlane) (width rows : ℕ) :
    Decidable (plane.Holds width rows) :=
  inferInstanceAs (Decidable (_ ≤ _))

/-- The rows of the plane, each cut at the width. -/
def cropped (plane : OwnedPlane) (width rows : ℕ) : Bytes :=
  (List.range rows).flatMap fun row => (plane.bytes.drop (row * plane.stride)).take width

end OwnedPlane

/-! ## One plane -/

section CopyPlane

variable {src : Bytes} {stride width rows : ℕ}

/-- What was copied before stays in front. -/
theorem copyPlane_append (out : Bytes) (src : Bytes) (stride width rows : ℕ) :
    copyPlane out src stride width rows = out ++ copyPlane [] src stride width rows := by
  induction rows with
  | zero => rw [copyPlane, copyPlane, List.append_nil]
  | succ row ih =>
      rw [copyPlane, copyPlane, ih]
      split_ifs
      · rw [List.append_assoc]
      · rfl

/-- No plane gives more than its part of a frame. -/
theorem length_copyPlane_le (src : Bytes) (stride width rows : ℕ) :
    (copyPlane [] src stride width rows).length ≤ width * rows := by
  induction rows with
  | zero => exact Nat.zero_le _
  | succ row ih =>
      rw [copyPlane, Nat.mul_succ]
      split_ifs with hfits
      · rw [List.length_append, length_slice hfits]
        exact Nat.add_le_add_right ih width
      · exact ih.trans (Nat.le_add_right _ width)

/-- A plane gives its whole part of a frame only when each of its rows fits. -/
theorem length_copyPlane_eq_iff (hwidth : 0 < width) :
    (copyPlane [] src stride width rows).length = width * rows ↔
      ∀ row < rows, row * stride + width ≤ src.length := by
  induction rows with
  | zero =>
      refine iff_of_true ?_ fun row hrow => absurd hrow (Nat.not_lt_zero row)
      rfl
  | succ row ih =>
      have hle := length_copyPlane_le src stride width row
      rw [copyPlane, Nat.mul_succ, Nat.forall_lt_succ_right, ← ih]
      split_ifs with hfits
      · rw [List.length_append, length_slice hfits]
        exact ⟨fun hlength => ⟨Nat.add_right_cancel hlength, hfits⟩,
          fun ⟨hlength, _⟩ => congrArg (· + width) hlength⟩
      · exact iff_of_false (by omega) fun ⟨_, hfits'⟩ => hfits hfits'

/-- Where every row fits, they are copied one after another. -/
theorem copyPlane_eq_cropped {plane : OwnedPlane}
    (hfits : ∀ row < rows, row * plane.stride + width ≤ plane.bytes.length) :
    copyPlane [] plane.bytes plane.stride width rows = plane.cropped width rows := by
  induction rows with
  | zero => rfl
  | succ row ih =>
      rw [Nat.forall_lt_succ_right] at hfits
      rw [copyPlane, if_pos hfits.2, ih hfits.1, OwnedPlane.cropped, OwnedPlane.cropped,
        List.range_succ, List.flatMap_append, List.flatMap_singleton]

/-- The last row decides. -/
theorem OwnedPlane.holds_iff {plane : OwnedPlane} (hrows : 0 < rows) :
    plane.Holds width rows ↔
      ∀ row < rows, row * plane.stride + width ≤ plane.bytes.length := by
  constructor
  · intro hholds row hrow
    have hstart : row * plane.stride ≤ (rows - 1) * plane.stride :=
      Nat.mul_le_mul_right plane.stride (by omega)
    exact (Nat.add_le_add_right hstart width).trans hholds
  · intro hfits
    exact hfits (rows - 1) (by omega)

end CopyPlane

/-! ## Three planes -/

variable {width height : UInt32} {first second third : Data} {y u v : OwnedPlane} {out : Bytes}

/-- The frame is what the planes give, one after another, when its length is right. -/
theorem planarI420_of_planes (hfirst : ownedPlane first width.toNat = some y)
    (hsecond : ownedPlane second (width.toNat / 2) = some u)
    (hthird : ownedPlane third (width.toNat / 2) = some v) :
    planarI420 width height first second third =
      let ys := copyPlane [] y.bytes y.stride width.toNat height.toNat
      let us := copyPlane [] u.bytes u.stride (width.toNat / 2) (height.toNat / 2)
      let vs := copyPlane [] v.bytes v.stride (width.toNat / 2) (height.toNat / 2)
      if (ys ++ us ++ vs).length = i420Size width height then some (ys ++ us ++ vs) else none := by
  rw [planarI420, hfirst, hsecond, hthird]
  simp only
  rw [copyPlane_append (copyPlane (copyPlane _ _ _ _ _) _ _ _ _),
    copyPlane_append (copyPlane [] y.bytes y.stride width.toNat height.toNat)]

/-- A frame has been made of three planes. -/
theorem ownedPlanes_of_planarI420 (hout : planarI420 width height first second third = some out) :
    ∃ y u v, ownedPlane first width.toNat = some y ∧
      ownedPlane second (width.toNat / 2) = some u ∧
        ownedPlane third (width.toNat / 2) = some v := by
  rw [planarI420] at hout
  split at hout
  next y u v hfirst hsecond hthird => exact ⟨y, u, v, hfirst, hsecond, hthird⟩
  next => exact absurd hout (Option.some_ne_none out).symm

/-- A shortage of one plane cannot be made up for by another. -/
theorem planarI420_of_planes_eq_some_iff (hfirst : ownedPlane first width.toNat = some y)
    (hsecond : ownedPlane second (width.toNat / 2) = some u)
    (hthird : ownedPlane third (width.toNat / 2) = some v)
    (hwidth : 2 ≤ width.toNat) (hheight : 2 ≤ height.toNat) :
    planarI420 width height first second third = some out ↔
      (y.Holds width.toNat height.toNat ∧ u.Holds (width.toNat / 2) (height.toNat / 2) ∧
        v.Holds (width.toNat / 2) (height.toNat / 2)) ∧
      out = y.cropped width.toNat height.toNat ++
        u.cropped (width.toNat / 2) (height.toNat / 2) ++
          v.cropped (width.toNat / 2) (height.toNat / 2) := by
  have hhalf : 0 < width.toNat / 2 := by omega
  have hhalfRows : 0 < height.toNat / 2 := by omega
  rw [OwnedPlane.holds_iff (by omega), OwnedPlane.holds_iff hhalfRows,
    OwnedPlane.holds_iff hhalfRows, planarI420_of_planes hfirst hsecond hthird]
  have hysLe := length_copyPlane_le y.bytes y.stride width.toNat height.toNat
  have husLe := length_copyPlane_le u.bytes u.stride (width.toNat / 2) (height.toNat / 2)
  have hvsLe := length_copyPlane_le v.bytes v.stride (width.toNat / 2) (height.toNat / 2)
  have hys := @length_copyPlane_eq_iff y.bytes y.stride width.toNat height.toNat (by omega)
  have hus := @length_copyPlane_eq_iff u.bytes u.stride _ (height.toNat / 2) hhalf
  have hvs := @length_copyPlane_eq_iff v.bytes v.stride _ (height.toNat / 2) hhalf
  have hsize : i420Size width height = width.toNat * height.toNat +
      2 * (width.toNat / 2 * (height.toNat / 2)) := rfl
  constructor
  · intro hout
    obtain ⟨hlength, hcopied⟩ := Option.ite_none_right_eq_some.mp hout
    rw [List.length_append, List.length_append] at hlength
    have hyRows := hys.mp (by omega)
    have huRows := hus.mp (by omega)
    have hvRows := hvs.mp (by omega)
    refine ⟨⟨hyRows, huRows, hvRows⟩, ?_⟩
    rw [← copyPlane_eq_cropped hyRows, ← copyPlane_eq_cropped huRows,
      ← copyPlane_eq_cropped hvRows]
    exact (Option.some.inj hcopied).symm
  · rintro ⟨⟨hyRows, huRows, hvRows⟩, rfl⟩
    rw [copyPlane_eq_cropped hyRows, copyPlane_eq_cropped huRows, copyPlane_eq_cropped hvRows]
    refine if_pos ?_
    rw [← copyPlane_eq_cropped hyRows, ← copyPlane_eq_cropped huRows,
      ← copyPlane_eq_cropped hvRows, List.length_append, List.length_append, hys.mpr hyRows,
      hus.mpr huRows, hvs.mpr hvRows, hsize]
    omega

/-- A frame without pixels lacks nothing. -/
theorem planarI420_of_planes_of_zero (hfirst : ownedPlane first width.toNat = some y)
    (hsecond : ownedPlane second (width.toNat / 2) = some u)
    (hthird : ownedPlane third (width.toNat / 2) = some v)
    (hzero : width.toNat = 0 ∨ height.toNat = 0) :
    planarI420 width height first second third = some [] := by
  have hnothing : ∀ (plane : OwnedPlane) (w h : ℕ), w = 0 ∨ h = 0 →
      copyPlane [] plane.bytes plane.stride w h = [] := by
    intro plane w h hempty
    have hle := length_copyPlane_le plane.bytes plane.stride w h
    rw [Nat.mul_eq_zero.mpr hempty] at hle
    exact List.eq_nil_of_length_eq_zero (Nat.le_zero.mp hle)
  rw [planarI420_of_planes hfirst hsecond hthird, hnothing y _ _ hzero,
    hnothing u _ _ (by omega), hnothing v _ _ (by omega)]
  refine if_pos ?_
  rw [i420Size]
  rcases hzero with hzero | hzero <;> simp [hzero]

/-- The planes are copied whole or not at all. -/
theorem planarI420_all_or_nothing (width height : UInt32) (first second third : Data)
    (out : Bytes) :
    (2 ≤ width.toNat → 2 ≤ height.toNat →
      (planarI420 width height first second third = some out ↔
        ∃ y u v, ownedPlane first width.toNat = some y ∧
          ownedPlane second (width.toNat / 2) = some u ∧
          ownedPlane third (width.toNat / 2) = some v ∧
          (y.Holds width.toNat height.toNat ∧ u.Holds (width.toNat / 2) (height.toNat / 2) ∧
            v.Holds (width.toNat / 2) (height.toNat / 2)) ∧
          out = y.cropped width.toNat height.toNat ++
            u.cropped (width.toNat / 2) (height.toNat / 2) ++
              v.cropped (width.toNat / 2) (height.toNat / 2))) ∧
    (width.toNat = 0 ∨ height.toNat = 0 →
      (planarI420 width height first second third = some out ↔
        (∃ y u v, ownedPlane first width.toNat = some y ∧
          ownedPlane second (width.toNat / 2) = some u ∧
          ownedPlane third (width.toNat / 2) = some v) ∧ out = [])) := by
  constructor
  · intro hwidth hheight
    constructor
    · intro hout
      obtain ⟨y, u, v, hfirst, hsecond, hthird⟩ := ownedPlanes_of_planarI420 hout
      exact ⟨y, u, v, hfirst, hsecond, hthird,
        (planarI420_of_planes_eq_some_iff hfirst hsecond hthird hwidth hheight).mp hout⟩
    · rintro ⟨y, u, v, hfirst, hsecond, hthird, hholds⟩
      exact (planarI420_of_planes_eq_some_iff hfirst hsecond hthird hwidth hheight).mpr hholds
  · intro hzero
    constructor
    · intro hout
      obtain ⟨y, u, v, hfirst, hsecond, hthird⟩ := ownedPlanes_of_planarI420 hout
      rw [planarI420_of_planes_of_zero hfirst hsecond hthird hzero] at hout
      exact ⟨⟨y, u, v, hfirst, hsecond, hthird⟩, (Option.some.inj hout).symm⟩
    · rintro ⟨⟨y, u, v, hfirst, hsecond, hthird⟩, rfl⟩
      exact planarI420_of_planes_of_zero hfirst hsecond hthird hzero

/-- Three planes of one byte give a frame of two by two pixels only with the whole luma
plane. -/
theorem planarI420_all_or_nothing_two :
    planarI420 2 2 ⟨2, 0, 0, some [16, 17, 18, 19]⟩ ⟨1, 0, 0, some [128]⟩
      ⟨1, 0, 0, some [129]⟩ = some [16, 17, 18, 19, 128, 129] :=
  ((planarI420_all_or_nothing 2 2 _ _ _ _).1 (by decide) (by decide)).mpr
    ⟨⟨[16, 17, 18, 19], 2⟩, ⟨[128], 1⟩, ⟨[129], 1⟩, by decide⟩

/-- Of a frame without pixels no row is missed, however short the planes are. -/
theorem not_planarI420_holds_empty :
    ¬ ∀ (width height : UInt32) (first second third : Data) (y u v : OwnedPlane),
      width.toNat % 2 = 0 → height.toNat % 2 = 0 →
      ownedPlane first width.toNat = some y → ownedPlane second (width.toNat / 2) = some u →
      ownedPlane third (width.toNat / 2) = some v →
      ((planarI420 width height first second third).isSome ↔
        y.Holds width.toNat height.toNat ∧ u.Holds (width.toNat / 2) (height.toNat / 2) ∧
          v.Holds (width.toNat / 2) (height.toNat / 2)) := by
  intro hclaim
  have hempty := hclaim 0 2 ⟨5, 0, 0, some [0]⟩ ⟨5, 0, 0, some [0]⟩ ⟨5, 0, 0, some [0]⟩
    ⟨[0], 5⟩ ⟨[0], 5⟩ ⟨[0], 5⟩ rfl rfl (by decide) (by decide) (by decide)
  exact absurd (hempty.mp (by decide)).1 (by decide)

end OmarchyConnect.Host
