/-
# The monitor that the pointer lands on

`Pointer` computes with the widths of the source. Here the same formulas are read in
integers without bounds. A pixel of a monitor is put into the rectangle of that monitor,
and where the layout fits the event this is also what the machine computes. The events that
the device is sent leave the pointer there until the next `MouseMove`.
-/

import OmarchyConnect.Host.Capture
import Mathlib.Data.Set.Prod
import Mathlib.Order.CompletePartialOrder
import Mathlib.Order.Interval.Set.Basic

namespace OmarchyConnect.Host

open OmarchyConnect.Protocol

/-! ## The formulas without bounds -/

namespace Region

/-- The sub-pixels of the layout that a monitor covers. -/
def rectangle (region : Region) : Set (ℤ × ℤ) :=
  Set.Ico (region.x.toInt * subpixel) ((region.x.toInt + region.width.toNat) * subpixel) ×ˢ
    Set.Ico (region.y.toInt * subpixel) ((region.y.toInt + region.height.toNat) * subpixel)

/-- One axis of `to_layout`, without bounds. -/
def exactAxisToLayout (origin : Int32) (length pixels pixel : UInt32) : ℤ :=
  origin.toInt * subpixel +
    (pixel.toNat * length.toNat * subpixel : ℤ).tdiv (max pixels 1).toNat

/-- `to_layout`, without bounds. -/
def exactToLayout (region : Region) (x y : UInt32) : ℤ × ℤ :=
  (exactAxisToLayout region.x region.width region.pixelWidth x,
    exactAxisToLayout region.y region.height region.pixelHeight y)

end Region

namespace UinputDevice

/-- `clamp` and the distance to the lower end, without bounds. -/
def exactAxis (least greatest position : ℤ) : ℤ :=
  max least (min position greatest) - least

/-- Where `apply` puts the pointer for a `MouseMove`, without bounds. -/
def exactPosition (device : UinputDevice) (displayId x y : UInt32) : ℤ × ℤ :=
  let (lx, ly) :=
    match device.regions displayId with
    | some region => region.exactToLayout x y
    | none => (device.minX, device.minY)
  (exactAxis device.minX device.maxX lx, exactAxis device.minY device.maxY ly)

/-- The values that `open` declares for the two axes. -/
def axisRange (device : UinputDevice) : Set (ℤ × ℤ) :=
  Set.Icc 0 (device.maxX - device.minX) ×ˢ Set.Icc 0 (device.maxY - device.minY)

/-- An emitted position as a place in the layout. -/
def unshift (device : UinputDevice) (emitted : ℤ × ℤ) : ℤ × ℤ :=
  (emitted.1 + device.minX, emitted.2 + device.minY)

end UinputDevice

/-! ## One axis -/

namespace UinputDevice

variable {least greatest position other : ℤ}

/-- A coordinate stays on its axis. -/
theorem exactAxis_mem (hends : least ≤ greatest) :
    exactAxis least greatest position ∈ Set.Icc 0 (greatest - least) := by
  have hlow : least ≤ max least (min position greatest) := le_max_left _ _
  have hhigh : max least (min position greatest) ≤ greatest :=
    max_le hends (min_le_right _ _)
  rw [exactAxis, Set.mem_Icc]
  omega

/-- `clamp` does not move a position between the two ends. -/
theorem exactAxis_of_mem (hlow : least ≤ position) (hhigh : position ≤ greatest) :
    exactAxis least greatest position = position - least := by
  rw [exactAxis, min_eq_left hhigh, max_eq_right hlow]

/-- A coordinate grows with the position. -/
theorem exactAxis_mono (hle : position ≤ other) :
    exactAxis least greatest position ≤ exactAxis least greatest other :=
  Int.sub_le_sub_right (max_le_max_left least (min_le_min_right greatest hle)) least

end UinputDevice

namespace Region

/-- Rounding towards zero is rounding down here. -/
theorem exactAxisToLayout_eq_ediv (origin : Int32) (length pixels pixel : UInt32) :
    exactAxisToLayout origin length pixels pixel =
      origin.toInt * subpixel +
        (pixel.toNat * length.toNat * subpixel : ℤ) / (max pixels 1).toNat := by
  rw [exactAxisToLayout, Int.tdiv_eq_ediv_of_nonneg]
  unfold subpixel
  positivity

/-- The layout position grows with the pixel. -/
theorem exactAxisToLayout_mono (origin : Int32) (length pixels : UInt32) {pixel next : UInt32}
    (hle : pixel ≤ next) :
    exactAxisToLayout origin length pixels pixel ≤
      exactAxisToLayout origin length pixels next := by
  have hnat : (pixel.toNat : ℤ) ≤ next.toNat := by
    exact_mod_cast UInt32.le_iff_toNat_le.mp hle
  rw [exactAxisToLayout_eq_ediv, exactAxisToLayout_eq_ediv]
  have hproduct : (pixel.toNat * length.toNat * subpixel : ℤ) ≤
      next.toNat * length.toNat * subpixel := by
    unfold subpixel
    gcongr
  obtain hzero | hpos := Nat.eq_zero_or_pos (max pixels 1).toNat
  · rw [hzero, Nat.cast_zero, Int.ediv_zero, Int.ediv_zero]
  · have hquotient := Int.ediv_le_ediv (Nat.cast_pos.mpr hpos) hproduct
    omega

/-- A pixel of the picture lies `spread` sub-pixels into the monitor. -/
theorem exactAxisToLayout_eq_spread {origin : Int32} {length pixels pixel : UInt32}
    (hpixel : pixel.toNat < pixels.toNat) :
    exactAxisToLayout origin length pixels pixel =
      origin.toInt * subpixel + spread length pixels pixel := by
  have hcomm : (pixel.toNat * length.toNat * subpixel : ℤ) =
      subpixel * length.toNat * pixel.toNat := by ring
  rw [exactAxisToLayout_eq_ediv, toNat_max_one (by omega), hcomm, spread]

/-- A pixel of the picture stays on the side of the monitor. -/
theorem exactAxisToLayout_mem {origin : Int32} {length pixels pixel : UInt32}
    (hlength : 0 < length.toNat) (hpixel : pixel.toNat < pixels.toNat) :
    exactAxisToLayout origin length pixels pixel ∈
      Set.Ico (origin.toInt * subpixel) ((origin.toInt + length.toNat) * subpixel) := by
  have hnonneg := spread_nonneg length pixels pixel
  have hinside := spread_lt hlength hpixel
  have hcomm := mul_comm (length.toNat : ℤ) subpixel
  rw [exactAxisToLayout_eq_spread hpixel, Set.mem_Ico, add_mul]
  omega

end Region

/-! ## The layout -/

namespace UinputDevice

variable {regions : List Region} {region : Region}

/-- The horizontal axis has its ends in order. -/
theorem minX_le_maxX (regions : List Region) :
    (ofRegions regions).minX ≤ (ofRegions regions).maxX :=
  le_max_right _ _

/-- The vertical axis has its ends in order. -/
theorem minY_le_maxY (regions : List Region) :
    (ofRegions regions).minY ≤ (ofRegions regions).maxY :=
  le_max_right _ _

/-- The ends of the axes enclose each monitor. -/
theorem rectangle_between (hmem : region ∈ regions) {place : ℤ × ℤ}
    (hplace : place ∈ region.rectangle) :
    ((ofRegions regions).minX ≤ place.1 ∧ place.1 ≤ (ofRegions regions).maxX) ∧
      (ofRegions regions).minY ≤ place.2 ∧ place.2 ≤ (ofRegions regions).maxY := by
  have hleft : (ofRegions regions).minX ≤ region.x.toInt * subpixel :=
    min?_le (List.mem_map_of_mem hmem)
  have htop : (ofRegions regions).minY ≤ region.y.toInt * subpixel :=
    min?_le (List.mem_map_of_mem hmem)
  have hright : (region.x.toInt + region.width.toNat) * subpixel - 1 ≤
      (ofRegions regions).maxX :=
    le_max_of_le_left (le_max? (List.mem_map.mpr ⟨region, hmem, rfl⟩))
  have hbottom : (region.y.toInt + region.height.toNat) * subpixel - 1 ≤
      (ofRegions regions).maxY :=
    le_max_of_le_left (le_max? (List.mem_map.mpr ⟨region, hmem, rfl⟩))
  obtain ⟨⟨hx, hx'⟩, hy, hy'⟩ := hplace
  omega

/-- A pixel lies in the rectangle of its monitor. -/
theorem exactToLayout_mem_rectangle (hwidth : 0 < region.width.toNat)
    (hheight : 0 < region.height.toNat) {x y : UInt32}
    (hx : x.toNat < region.pixelWidth.toNat) (hy : y.toNat < region.pixelHeight.toNat) :
    region.exactToLayout x y ∈ region.rectangle :=
  ⟨Region.exactAxisToLayout_mem hwidth hx, Region.exactAxisToLayout_mem hheight hy⟩

/-- The position of a known display. -/
theorem exactPosition_of_regions {device : UinputDevice} {id : UInt32}
    (hregion : device.regions id = some region) (x y : UInt32) :
    device.exactPosition id x y =
      (exactAxis device.minX device.maxX (region.exactToLayout x y).1,
        exactAxis device.minY device.maxY (region.exactToLayout x y).2) := by
  rw [exactPosition, hregion]

/-- A pixel of a monitor is put where `to_layout` says: `clamp` does not move it. -/
theorem unshift_exactPosition (hids : (regions.map Region.id).Nodup) (hmem : region ∈ regions)
    (hwidth : 0 < region.width.toNat) (hheight : 0 < region.height.toNat) {x y : UInt32}
    (hx : x.toNat < region.pixelWidth.toNat) (hy : y.toNat < region.pixelHeight.toNat) :
    (ofRegions regions).unshift ((ofRegions regions).exactPosition region.id x y) =
      region.exactToLayout x y := by
  obtain ⟨⟨hleft, hright⟩, htop, hbottom⟩ :=
    rectangle_between hmem (exactToLayout_mem_rectangle hwidth hheight hx hy)
  rw [exactPosition_of_regions (regions_ofRegions hids hmem), exactAxis_of_mem hleft hright,
    exactAxis_of_mem htop hbottom, unshift]
  ext <;> dsimp only <;> omega

/-- A position is one that the axes declare. -/
theorem exactPosition_mem_axisRange (regions : List Region) (id x y : UInt32) :
    (ofRegions regions).exactPosition id x y ∈ (ofRegions regions).axisRange :=
  ⟨exactAxis_mem (minX_le_maxX regions), exactAxis_mem (minY_le_maxY regions)⟩

/-- A position grows with the pixel on both axes. -/
theorem exactPosition_monotone (device : UinputDevice) (id : UInt32) {x x' y y' : UInt32}
    (hx : x ≤ x') (hy : y ≤ y') :
    device.exactPosition id x y ≤ device.exactPosition id x' y' := by
  cases hregion : device.regions id with
  | none =>
      rw [exactPosition, exactPosition, hregion]
  | some region =>
      rw [exactPosition_of_regions hregion, exactPosition_of_regions hregion, Prod.mk_le_mk]
      exact ⟨exactAxis_mono (Region.exactAxisToLayout_mono _ _ _ hx),
        exactAxis_mono (Region.exactAxisToLayout_mono _ _ _ hy)⟩

/-- Where the whole layout fits the event, the machine computes the exact position of each
pixel of a monitor. -/
theorem position_eq_exactPosition (hids : (regions.map Region.id).Nodup)
    (hmem : region ∈ regions) (hwidth : 0 < region.width.toNat)
    (hheight : 0 < region.height.toNat)
    (hfitsX : (ofRegions regions).maxX - (ofRegions regions).minX < 2 ^ 31)
    (hfitsY : (ofRegions regions).maxY - (ofRegions regions).minY < 2 ^ 31) {x y : UInt32}
    (hx : x.toNat < region.pixelWidth.toNat) (hy : y.toNat < region.pixelHeight.toNat) :
    (ofRegions regions).position region.id x y =
      (ofRegions regions).exactPosition region.id x y := by
  have hregion := regions_ofRegions hids hmem
  obtain ⟨⟨hleft, hright⟩, htop, hbottom⟩ :=
    rectangle_between hmem (exactToLayout_mem_rectangle hwidth hheight hx hy)
  rw [exactPosition_of_regions hregion, exactAxis_of_mem hleft hright,
    exactAxis_of_mem htop hbottom]
  simp only [Region.exactToLayout, Region.exactAxisToLayout_eq_spread hx,
    Region.exactAxisToLayout_eq_spread hy] at hright hbottom ⊢
  exact (position_eq_iff hregion hwidth hheight hx hy).mpr ⟨by omega, by omega⟩

/-! ## The events of the device -/

/-- Where the pointer stands behind an event that was written to the device. -/
def placed (place : ℤ × ℤ) : EvdevEvent → ℤ × ℤ
  | .absX value => (value, place.2)
  | .absY value => (place.1, value)
  | _ => place

/-- Where an input event moves the pointer. -/
def moveTo (device : UinputDevice) : InputEvent → Option (ℤ × ℤ)
  | .mouseMove displayId x y => some (device.position displayId x y)
  | _ => none

/-- The events of `apply` put the pointer where a `MouseMove` says, and no other input
event moves it. -/
theorem foldl_placed_apply (device : UinputDevice) (place : ℤ × ℤ) (event : InputEvent) :
    (device.apply event).foldl placed place = (device.moveTo event).getD place := by
  cases event with
  | mouseMove displayId x y => rfl
  | mouseButton displayId button pressed =>
      cases hcode : pointerButton button <;> simp [apply, moveTo, placed, hcode]
  | mouseWheel displayId dx dy =>
      by_cases hdx : dx = 0 <;> by_cases hdy : dy = 0 <;> simp [apply, moveTo, placed, hdx, hdy]
  | key code pressed => rfl

/-- Behind any input events the pointer stands where the last `MouseMove` put it. -/
theorem foldl_placed_flatMap (device : UinputDevice) (place : ℤ × ℤ) (events : List InputEvent) :
    (events.flatMap device.apply).foldl placed place =
      (events.filterMap device.moveTo).getLast?.getD place := by
  induction events using List.reverseRecOn with
  | nil => rfl
  | append_singleton earlier event ih =>
      have hevents : (earlier ++ [event]).flatMap device.apply =
          earlier.flatMap device.apply ++ device.apply event := by
        rw [List.flatMap_append, List.flatMap_singleton]
      rw [hevents, List.foldl_append, ih, foldl_placed_apply]
      cases hmove : device.moveTo event <;> simp [hmove]

/-- A button, a key or a wheel turn comes to the monitor that the pointer was moved to
last, at the place of its pixel. -/
theorem placed_of_lastMove (hids : (regions.map Region.id).Nodup) (hmem : region ∈ regions)
    (hwidth : 0 < region.width.toNat) (hheight : 0 < region.height.toNat)
    (hfitsX : (ofRegions regions).maxX - (ofRegions regions).minX < 2 ^ 31)
    (hfitsY : (ofRegions regions).maxY - (ofRegions regions).minY < 2 ^ 31) {x y : UInt32}
    (hx : x.toNat < region.pixelWidth.toNat) (hy : y.toNat < region.pixelHeight.toNat)
    (place : ℤ × ℤ) (earlier : List InputEvent) {later : List InputEvent}
    (hlater : ∀ event ∈ later, (ofRegions regions).moveTo event = none) :
    (ofRegions regions).unshift
        (((earlier ++ .mouseMove region.id x y :: later).flatMap
          (ofRegions regions).apply).foldl placed place) = region.exactToLayout x y := by
  have hnothing : later.filterMap (ofRegions regions).moveTo = [] :=
    List.filterMap_eq_nil_iff.mpr hlater
  have hlast : ((earlier ++ .mouseMove region.id x y :: later).filterMap
      (ofRegions regions).moveTo).getLast? =
        some ((ofRegions regions).position region.id x y) := by
    rw [List.filterMap_append, List.filterMap_cons, hnothing]
    exact List.getLast?_concat
  rw [foldl_placed_flatMap, hlast, Option.getD_some,
    position_eq_exactPosition hids hmem hwidth hheight hfitsX hfitsY hx hy]
  exact unshift_exactPosition hids hmem hwidth hheight hx hy

/-- The pointer lands on the monitor that was pointed at, moves with the pixel, and never
leaves the declared axes. -/
theorem exactPosition_lands (regions : List Region) (hids : (regions.map Region.id).Nodup)
    (hproper : ∀ region ∈ regions, 0 < region.width.toNat ∧ 0 < region.height.toNat) :
    let device := ofRegions regions
    (∀ region ∈ regions, ∀ x y : UInt32, x < region.pixelWidth → y < region.pixelHeight →
      let place := device.unshift (device.exactPosition region.id x y)
      place ∈ region.rectangle ∧ place = region.exactToLayout x y ∧
        ∀ area : Set (ℤ × ℤ), Disjoint area region.rectangle → place ∉ area) ∧
    (∀ id x x' y y' : UInt32, x ≤ x' → y ≤ y' →
      device.exactPosition id x y ≤ device.exactPosition id x' y') ∧
    ∀ id x y : UInt32, device.exactPosition id x y ∈ device.axisRange := by
  intro device
  refine ⟨?_, fun id _ _ _ _ hx hy => exactPosition_monotone device id hx hy,
    exactPosition_mem_axisRange regions⟩
  intro region hmem x y hx hy place
  obtain ⟨hwidth, hheight⟩ := hproper region hmem
  rw [UInt32.lt_iff_toNat_lt] at hx hy
  have hplace : place = region.exactToLayout x y :=
    unshift_exactPosition hids hmem hwidth hheight hx hy
  have hinside : place ∈ region.rectangle :=
    hplace ▸ exactToLayout_mem_rectangle hwidth hheight hx hy
  exact ⟨hinside, hplace, fun _ hdisjoint harea =>
    Set.disjoint_left.mp hdisjoint harea hinside⟩

/-- The last pixel of a scaled monitor stays off the monitor to the right of it. -/
theorem exactPosition_lands_corner :
    let left : Region := ⟨1, -960, 0, 960, 540, 1920, 1080⟩
    let right : Region := ⟨2, 0, 0, 1920, 1080, 1920, 1080⟩
    let device := ofRegions [left, right]
    device.unshift (device.exactPosition 1 1919 1079) ∈ left.rectangle := by
  intro left right device
  have hlands := exactPosition_lands [left, right] (by decide) (by decide)
  exact (hlands.1 left List.mem_cons_self 1919 1079 (by decide) (by decide)).1

end UinputDevice

end OmarchyConnect.Host
