/-
# From video pixels to the pointer

`Region` is the place of a monitor in the layout of the compositor, with the size of
its video. `UinputDevice::apply` turns a `MouseMove` in video pixels into a position in
eighths of a layout unit. The arithmetic is that of `i64`, and the position is sent as
an `i32`; both wrap.
-/

import OmarchyConnect.Protocol.Message
import Mathlib.Tactic

namespace OmarchyConnect.Host

open OmarchyConnect.Protocol

/-- `Region`. -/
structure Region where
  id : UInt32
  x : Int32
  y : Int32
  width : UInt32
  height : UInt32
  pixelWidth : UInt32
  pixelHeight : UInt32
  deriving DecidableEq

/-- The value that is left of a result in an `i64`. -/
def i64 (value : ℤ) : ℤ := value.bmod (2 ^ 64)

/-- The value that `as i32` leaves. -/
def i32 (value : ℤ) : ℤ := value.bmod (2 ^ 32)

/-- A layout unit has eight sub-pixels. -/
def subpixel : ℤ := 8

namespace Region

/-- The region of a display whose origin is already in layout units. -/
def unscaled (display : DisplayInfo) : Region where
  id := display.id
  x := display.x
  y := display.y
  width := display.width
  height := display.height
  pixelWidth := display.width
  pixelHeight := display.height

/-- One axis of `to_layout`. -/
def axisToLayout (origin : Int32) (length pixels pixel : UInt32) : ℤ :=
  i64 (i64 (origin.toInt * subpixel) +
    (i64 (i64 (pixel.toNat * length.toNat) * subpixel)).tdiv (max pixels 1).toNat)

/-- `Region::to_layout`. -/
def toLayout (region : Region) (x y : UInt32) : ℤ × ℤ :=
  (axisToLayout region.x region.width region.pixelWidth x,
    axisToLayout region.y region.height region.pixelHeight y)

end Region

/-! ## The device -/

/-- The events that are written to the device. -/
inductive EvdevEvent
  | absX (value : ℤ)
  | absY (value : ℤ)
  | key (code : UInt16) (value : Bool)
  | relWheel (value : Int32)
  | relHWheel (value : Int32)
  | synReport
  deriving DecidableEq

/-- The button codes of `keys::pointer_button`. -/
def pointerButton (button : UInt8) : Option UInt16 :=
  if button = 0 then some 0x110
  else if button = 1 then some 0x111
  else if button = 2 then some 0x112
  else none

/-- `UinputDevice`. -/
structure UinputDevice where
  regions : UInt32 → Option Region
  minX : ℤ
  minY : ℤ
  maxX : ℤ
  maxY : ℤ

namespace UinputDevice

/-- `UinputDevice::open`, where the system lets the device be created. Of two regions
with one id the map keeps the later. -/
def ofRegions (regions : List Region) : UinputDevice :=
  let minX := ((regions.map fun region => region.x.toInt * subpixel).min?).getD 0
  let minY := ((regions.map fun region => region.y.toInt * subpixel).min?).getD 0
  { regions := fun id => regions.reverse.find? fun region => region.id = id
    minX
    minY
    maxX := max ((regions.map fun region =>
      (region.x.toInt + region.width.toNat) * subpixel - 1).max?.getD 0) minX
    maxY := max ((regions.map fun region =>
      (region.y.toInt + region.height.toNat) * subpixel - 1).max?.getD 0) minY }

/-- `clamp`, the distance to the lower end, and `as i32`. -/
def emitAxis (least greatest position : ℤ) : ℤ :=
  i32 (i64 (max least (min position greatest) - least))

/-- Where a `MouseMove` puts the pointer. -/
def position (device : UinputDevice) (displayId x y : UInt32) : ℤ × ℤ :=
  let (lx, ly) :=
    match device.regions displayId with
    | some region => region.toLayout x y
    | none => (device.minX, device.minY)
  (emitAxis device.minX device.maxX lx, emitAxis device.minY device.maxY ly)

/-- What is written to the device for an input event. -/
def apply (device : UinputDevice) (event : InputEvent) : List EvdevEvent :=
  let batch : List EvdevEvent :=
    match event with
    | .mouseMove displayId x y =>
        let (gx, gy) := device.position displayId x y
        [.absX gx, .absY gy]
    | .mouseButton _ button pressed =>
        match pointerButton button with
        | some code => [.key code pressed]
        | none => []
    | .mouseWheel _ dx dy =>
        (if dy ≠ 0 then [.relWheel dy] else []) ++ (if dx ≠ 0 then [.relHWheel dx] else [])
    | .key code pressed => [.key code pressed]
  if batch.isEmpty then [] else batch ++ [.synReport]

end UinputDevice

/-- Where input events go. -/
inductive Injector
  | none
  | uinput (device : UinputDevice)

/-- What the command line asks for. -/
inductive InputMode
  | auto
  | uinput
  | none
  deriving DecidableEq

/-- `build_injector`; `opens` says whether the system lets the device be created. -/
def buildInjector (mode : InputMode) (demo opens : Bool) (regions : List Region) : Injector :=
  match mode with
  | .none => .none
  | .auto => if demo then .none else if opens then .uinput (.ofRegions regions) else .none
  | .uinput => if opens then .uinput (.ofRegions regions) else .none

/-! ## One axis -/

/-- How far into a monitor of `length` units the pixel lies, in sub-pixels and rounded
down. -/
def spread (length pixels pixel : UInt32) : ℤ :=
  subpixel * length.toNat * pixel.toNat / pixels.toNat

/-- A result that an `i64` can hold is kept. -/
theorem i64_of_small {value : ℤ} (hlow : -2 ^ 62 ≤ value) (hhigh : value < 2 ^ 63) :
    i64 value = value := by
  apply Int.bmod_eq_of_le_mul_two <;> norm_num <;> omega

/-- A result that an `i32` can hold is kept. -/
theorem i32_of_small {value : ℤ} (hlow : 0 ≤ value) (hhigh : value < 2 ^ 31) :
    i32 value = value := by
  apply Int.bmod_eq_of_le_mul_two <;> norm_num <;> omega

/-- An `i32` is below 2^31. -/
theorem i32_lt (value : ℤ) : i32 value < 2 ^ 31 := by
  have hlt := @Int.bmod_lt value (2 ^ 32) (by norm_num)
  rw [i32]
  norm_num at hlt ⊢
  exact hlt

/-- A pixel does not lie in front of its monitor. -/
theorem spread_nonneg (length pixels pixel : UInt32) : 0 ≤ spread length pixels pixel := by
  unfold spread subpixel
  positivity

/-- A pixel of the picture stays inside the monitor. -/
theorem spread_lt {length pixels pixel : UInt32} (hlength : 0 < length.toNat)
    (hpixel : pixel.toNat < pixels.toNat) :
    spread length pixels pixel < subpixel * length.toNat := by
  unfold spread subpixel
  have hpixels : (0 : ℤ) < pixels.toNat := by omega
  rw [Int.ediv_lt_iff_lt_mul hpixels]
  have hlt : (pixel.toNat : ℤ) < pixels.toNat := by exact_mod_cast hpixel
  exact mul_lt_mul_of_pos_left hlt (by omega)

/-- A length that is not zero is kept. -/
theorem toNat_max_one {pixels : UInt32} (hpixels : 0 < pixels.toNat) :
    (max pixels 1).toNat = pixels.toNat := by
  show (if pixels ≤ 1 then 1 else pixels).toNat = pixels.toNat
  split_ifs with hone
  · have hle := UInt32.le_iff_toNat_le.mp hone
    rw [UInt32.toNat_one] at hle ⊢
    omega
  · rfl

/-- A position that an `i32` can hold is computed without a loss. -/
theorem axisToLayout_eq {origin : Int32} {length pixels pixel : UInt32}
    (hpixel : pixel.toNat < pixels.toNat) (hspread : spread length pixels pixel < 2 ^ 31) :
    Region.axisToLayout origin length pixels pixel =
      origin.toInt * subpixel + spread length pixels pixel := by
  have horigin := origin.le_toInt
  have horigin' := origin.toInt_lt
  have hnonneg := spread_nonneg length pixels pixel
  have hpixels : (0 : ℤ) < pixels.toNat := by omega
  have hproduct : subpixel * length.toNat * pixel.toNat < 2 ^ 31 * pixels.toNat :=
    (Int.ediv_lt_iff_lt_mul hpixels).mp hspread
  have hbound := pixels.toNat_lt
  have hcomm : (pixel.toNat : ℤ) * length.toNat * subpixel =
      subpixel * length.toNat * pixel.toNat := by ring
  have hproduct_nonneg : 0 ≤ subpixel * (length.toNat : ℤ) * pixel.toNat := by
    unfold subpixel
    positivity
  have hinner : i64 (i64 (pixel.toNat * length.toNat) * subpixel) =
      subpixel * length.toNat * pixel.toNat := by
    rw [i64, i64, Int.bmod_mul_bmod, hcomm]
    exact i64_of_small (by omega) (by omega)
  have houter : i64 (origin.toInt * subpixel) = origin.toInt * subpixel := by
    unfold subpixel
    exact i64_of_small (by omega) (by omega)
  have hdiv : (subpixel * (length.toNat : ℤ) * pixel.toNat).tdiv (max pixels 1).toNat =
      spread length pixels pixel := by
    rw [toNat_max_one (by omega), Int.tdiv_eq_ediv_of_nonneg hproduct_nonneg, spread]
  rw [Region.axisToLayout, hinner, houter, hdiv]
  unfold subpixel
  exact i64_of_small (by omega) (by omega)

/-- The pointer is put where the pixel lies in the monitor exactly when that position
fits the `i32` of the event. -/
theorem emitAxis_eq_iff {origin : Int32} {length pixels pixel : UInt32} {least greatest : ℤ}
    (hlength : 0 < length.toNat) (hpixel : pixel.toNat < pixels.toNat)
    (hleast : least ≤ origin.toInt * subpixel) (hlow : -2 ^ 61 ≤ least)
    (hgreatest : (origin.toInt + length.toNat) * subpixel - 1 ≤ greatest) :
    UinputDevice.emitAxis least greatest (Region.axisToLayout origin length pixels pixel) =
        origin.toInt * subpixel + spread length pixels pixel - least ↔
      origin.toInt * subpixel + spread length pixels pixel - least < 2 ^ 31 := by
  constructor
  · intro hexact
    rw [← hexact]
    exact i32_lt _
  · intro hfits
    have hinner : -2 ^ 61 ≤ origin.toInt * subpixel := hlow.trans hleast
    have hnonneg := spread_nonneg length pixels pixel
    have hinside := spread_lt hlength hpixel
    have hlayout : Region.axisToLayout origin length pixels pixel =
        origin.toInt * subpixel + spread length pixels pixel :=
      axisToLayout_eq hpixel (by omega)
    have hupper : origin.toInt * subpixel + spread length pixels pixel ≤ greatest := by
      rw [add_mul] at hgreatest
      have hcomm := mul_comm (length.toNat : ℤ) subpixel
      omega
    rw [UinputDevice.emitAxis, hlayout, min_eq_left hupper, max_eq_right (by omega),
      i64_of_small (by omega) (by omega), i32_of_small (by omega) hfits]

/-! ## The whole layout -/

/-- The least value is at most each one. -/
theorem min?_le {values : List ℤ} {value : ℤ} (hmem : value ∈ values) :
    values.min?.getD 0 ≤ value := by
  cases hmin : values.min? with
  | none =>
      rw [List.min?_eq_none_iff.mp hmin] at hmem
      exact absurd hmem List.not_mem_nil
  | some least => exact (List.min?_eq_some_iff.mp hmin).2 value hmem

/-- The greatest value is at least each one. -/
theorem le_max? {values : List ℤ} {value : ℤ} (hmem : value ∈ values) :
    value ≤ values.max?.getD 0 := by
  cases hmax : values.max? with
  | none =>
      rw [List.max?_eq_none_iff.mp hmax] at hmem
      exact absurd hmem List.not_mem_nil
  | some greatest => exact (List.max?_eq_some_iff.mp hmax).2 value hmem

/-- The lower end of the layout is that of a monitor. -/
theorem origin_le_min? (origins : List Int32) :
    -2 ^ 61 ≤ ((origins.map fun origin => origin.toInt * subpixel).min?).getD 0 := by
  cases hmin : (origins.map fun origin => origin.toInt * subpixel).min? with
  | none => norm_num
  | some least =>
      obtain ⟨origin, -, rfl⟩ := List.mem_map.mp (List.min?_eq_some_iff.mp hmin).1
      have horigin := origin.le_toInt
      unfold subpixel
      simp only [Option.getD_some]
      omega

/-- A pixel of a monitor is put where it lies in the monitor, exactly when the event can
hold both coordinates. -/
theorem position_eq_iff {regions : List Region} {region : Region} {id x y : UInt32}
    (hregion : (UinputDevice.ofRegions regions).regions id = some region)
    (hwidth : 0 < region.width.toNat) (hheight : 0 < region.height.toNat)
    (hx : x.toNat < region.pixelWidth.toNat) (hy : y.toNat < region.pixelHeight.toNat) :
    let device := UinputDevice.ofRegions regions
    let px := region.x.toInt * subpixel + spread region.width region.pixelWidth x - device.minX
    let py := region.y.toInt * subpixel + spread region.height region.pixelHeight y - device.minY
    device.position id x y = (px, py) ↔ px < 2 ^ 31 ∧ py < 2 ^ 31 := by
  have hmem : region ∈ regions := List.mem_reverse.mp (List.mem_of_find?_eq_some hregion)
  have hposition : (UinputDevice.ofRegions regions).position id x y =
      (UinputDevice.emitAxis (UinputDevice.ofRegions regions).minX
        (UinputDevice.ofRegions regions).maxX
        (Region.axisToLayout region.x region.width region.pixelWidth x),
      UinputDevice.emitAxis (UinputDevice.ofRegions regions).minY
        (UinputDevice.ofRegions regions).maxY
        (Region.axisToLayout region.y region.height region.pixelHeight y)) := by
    rw [UinputDevice.position, hregion]
    rfl
  have hlowX := origin_le_min? (regions.map Region.x)
  have hlowY := origin_le_min? (regions.map Region.y)
  rw [List.map_map] at hlowX hlowY
  have hleft : (UinputDevice.ofRegions regions).minX ≤ region.x.toInt * subpixel :=
    min?_le (List.mem_map_of_mem hmem)
  have htop : (UinputDevice.ofRegions regions).minY ≤ region.y.toInt * subpixel :=
    min?_le (List.mem_map_of_mem hmem)
  have hright : (region.x.toInt + region.width.toNat) * subpixel - 1 ≤
      (UinputDevice.ofRegions regions).maxX :=
    le_max_of_le_left (le_max? (List.mem_map.mpr ⟨region, hmem, rfl⟩))
  have hbottom : (region.y.toInt + region.height.toNat) * subpixel - 1 ≤
      (UinputDevice.ofRegions regions).maxY :=
    le_max_of_le_left (le_max? (List.mem_map.mpr ⟨region, hmem, rfl⟩))
  intro device px py
  rw [hposition, Prod.mk.injEq, emitAxis_eq_iff hwidth hx hleft hlowX hright,
    emitAxis_eq_iff hheight hy htop hlowY hbottom]

end OmarchyConnect.Host
