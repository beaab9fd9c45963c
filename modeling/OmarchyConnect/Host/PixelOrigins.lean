/-
# Where the monitors start in pixels

`pixel_origins` gives every monitor an origin for the client's overview. On each axis it
goes over the monitors by their logical start and puts one at the greatest end, in pixels,
of those that end logically before it. A monitor with none before it has its logical
start scaled and rounded with floats, which `roundScaled` stands for.
-/

import OmarchyConnect.Host.Capture
import OmarchyConnect.Library.Packing
import Mathlib.Data.List.Sort
import Mathlib.Data.List.FinRange

namespace OmarchyConnect.Host

open OmarchyConnect.Library.Packing

/-- The three closures that the source's `axis` takes. -/
structure RegionAxis where
  start : Region → Int32
  logicalLen : Region → UInt32
  pixelLen : Region → UInt32

/-- The horizontal axis. -/
def xAxis : RegionAxis := ⟨Region.x, Region.width, Region.pixelWidth⟩

/-- The vertical axis. -/
def yAxis : RegionAxis := ⟨Region.y, Region.height, Region.pixelHeight⟩

namespace RegionAxis

/-- `(start as f64 * scale).round() as i32`, where the scale is the length in pixels by
`logical_len.max(1)`: from the start, the length in pixels and the logical length. -/
abbrev RoundScaled := Int32 → UInt32 → UInt32 → Int32

variable (axis : RegionAxis) (roundScaled : RoundScaled) (regions : List Region)

/-- The region ends, as it is computed, before the other starts. -/
def EndsBefore (j i : Fin regions.length) : Prop :=
  axis.start (regions.get j) + (axis.logicalLen (regions.get j)).toInt32 ≤
    axis.start (regions.get i)

instance (j i : Fin regions.length) : Decidable (axis.EndsBefore regions j i) :=
  inferInstanceAs (Decidable (_ ≤ _))

/-- The end of a placed region in pixels, as it is computed. -/
def pixelEnd (placed : Fin regions.length → Int32) (j : Fin regions.length) : Int32 :=
  placed j + (axis.pixelLen (regions.get j)).toInt32

/-- The place of a region behind the earlier ones. -/
def next (earlier : List (Fin regions.length)) (i : Fin regions.length)
    (placed : Fin regions.length → Int32) : Int32 :=
  let region := regions.get i
  let before := (earlier.filter fun j => axis.EndsBefore regions j i).map
    (axis.pixelEnd regions placed)
  before.max?.getD
    (roundScaled (axis.start region) (axis.pixelLen region) (axis.logicalLen region))

/-- `order.sort_by_key`, which is stable. -/
def order : List (Fin regions.length) :=
  (List.finRange regions.length).insertionSort fun i j =>
    axis.start (regions.get i) ≤ axis.start (regions.get j)

/-- Where the regions are placed on an axis. -/
def placed : Fin regions.length → Int32 :=
  fill (axis.next roundScaled regions) [] (axis.order regions) fun _ => 0

end RegionAxis

/-- `pixel_origins`. -/
def pixelOrigins (roundScaled : RegionAxis.RoundScaled) (regions : List Region) :
    List (Int32 × Int32) :=
  List.ofFn fun i =>
    (xAxis.placed roundScaled regions i, yAxis.placed roundScaled regions i)

namespace RegionAxis

variable (axis : RegionAxis) {roundScaled : RoundScaled} {regions : List Region}

/-- The axis with the logical lengths. -/
def logical (regions : List Region) : Axis (Fin regions.length) ℤ where
  start i := (axis.start (regions.get i)).toInt
  stop i := (axis.start (regions.get i)).toInt + (axis.logicalLen (regions.get i)).toNat

/-- The axis with the lengths in pixels, for the origins of the regions. -/
def pixels (regions : List Region) (origin : Fin regions.length → Int32) :
    Axis (Fin regions.length) ℤ where
  start i := (origin i).toInt
  stop i := (origin i).toInt + (axis.pixelLen (regions.get i)).toNat

/-- The sums fit an `i32`: all logical ends, and the ends in pixels of the regions that
have another behind them. -/
structure Fits (regions : List Region) (origin : Fin regions.length → Int32) : Prop where
  logical : ∀ i, (axis.logical regions).stop i < 2 ^ 31
  pixels : ∀ i j, (axis.logical regions).Before j i → (axis.pixels regions origin).stop j < 2 ^ 31

end RegionAxis

/-! ## `i32` -/

/-- The cast keeps the number modulo 2^32. -/
theorem toInt_toInt32 (value : UInt32) :
    value.toInt32.toInt = (value.toNat : ℤ).bmod (2 ^ 32) := by
  rw [← Int32.toInt_toBitVec, UInt32.toBitVec_toInt32, BitVec.toInt_eq_toNat_bmod]
  rfl

/-- A sum that fits is computed without wrapping. -/
theorem toInt_add_toInt32 {start : Int32} {length : UInt32}
    (hfits : start.toInt + length.toNat < 2 ^ 31) :
    (start + length.toInt32).toInt = start.toInt + length.toNat := by
  have hlow := start.le_toInt
  rw [Int32.toInt_add, toInt_toInt32, Int.add_bmod_bmod]
  apply Int.bmod_eq_of_le <;> omega

/-- The greater of two numbers. -/
theorem max_eq_ite (a b : Int32) : max a b = if a ≤ b then b else a := rfl

instance lawfulOrderMaxInt32 : Std.LawfulOrderMax Int32 := by
  apply Std.LawfulOrderMax.of_max_le_iff
  · intro a b c
    rw [max_eq_ite]
    simp only [Int32.le_iff_toInt_le]
    split_ifs <;> omega
  · intro a b
    rw [max_eq_ite]
    split_ifs
    · exact .inr rfl
    · exact .inl rfl

/-! ## Placing -/

namespace RegionAxis

variable (axis : RegionAxis) (roundScaled : RoundScaled) {regions : List Region}

/-- A place depends on the places of the earlier regions only. -/
theorem next_congr (earlier : List (Fin regions.length)) (i : Fin regions.length)
    (table table' : Fin regions.length → Int32) (h : ∀ j ∈ earlier, table j = table' j) :
    axis.next roundScaled regions earlier i table =
      axis.next roundScaled regions earlier i table' := by
  unfold next
  simp only
  congr 2
  apply List.map_congr_left
  intro j hj
  rw [pixelEnd, pixelEnd, h j (List.mem_filter.mp hj).1]

/-- The regions are taken in the order of their starts. -/
theorem order_pairwise (regions : List Region) :
    (axis.order regions).Pairwise fun i j =>
      axis.start (regions.get i) ≤ axis.start (regions.get j) := by
  have htotal : Std.Total fun i j : Fin regions.length =>
      axis.start (regions.get i) ≤ axis.start (regions.get j) :=
    ⟨fun _ _ => Int32.le_total _ _⟩
  have htrans : IsTrans (Fin regions.length) fun i j =>
      axis.start (regions.get i) ≤ axis.start (regions.get j) :=
    ⟨fun _ _ _ => Int32.le_trans⟩
  exact List.pairwise_insertionSort _ _

/-- A region is placed behind those before it in the order, which are all that start
earlier. -/
theorem exists_placed_eq (i : Fin regions.length) :
    ∃ earlier, axis.placed roundScaled regions i =
        axis.next roundScaled regions earlier i (axis.placed roundScaled regions) ∧
      ∀ j, axis.start (regions.get j) < axis.start (regions.get i) → j ∈ earlier := by
  have hmem : ∀ j, j ∈ axis.order regions := fun j =>
    (List.mem_insertionSort _).mpr (List.mem_finRange j)
  have hnodup : (axis.order regions).Nodup :=
    (List.perm_insertionSort _ _).nodup_iff.mpr (List.nodup_finRange _)
  have hsorted := axis.order_pairwise regions
  obtain ⟨front, back, horder⟩ := List.append_of_mem (hmem i)
  rw [horder] at hnodup hsorted
  refine ⟨front, ?_, fun j hj => ?_⟩
  · unfold placed
    rw [horder]
    exact fill_eq_next _ (axis.next_congr roundScaled) hnodup _
  · have hplace := hmem j
    rw [horder, List.mem_append, List.mem_cons] at hplace
    have hbehind : ∀ k ∈ back, axis.start (regions.get i) ≤ axis.start (regions.get k) :=
      (List.pairwise_cons.mp (List.pairwise_append.mp hsorted).2.1).1
    rcases hplace with hfront | rfl | hback
    · exact hfront
    · exact absurd hj (Int32.lt_irrefl)
    · exact absurd (hbehind j hback) (Int32.not_le.mpr hj)

/-- Where an earlier region ends before it, a region is put at the greatest end of those. -/
theorem next_eq_max {earlier : List (Fin regions.length)} {i k : Fin regions.length}
    (table : Fin regions.length → Int32) (hk : k ∈ earlier)
    (hends : axis.EndsBefore regions k i) :
    (∃ j ∈ earlier, axis.EndsBefore regions j i ∧
        axis.next roundScaled regions earlier i table = axis.pixelEnd regions table j) ∧
      ∀ j ∈ earlier, axis.EndsBefore regions j i →
        axis.pixelEnd regions table j ≤ axis.next roundScaled regions earlier i table := by
  set before := (earlier.filter fun j => axis.EndsBefore regions j i).map
    (axis.pixelEnd regions table) with hbefore
  have hmem : ∀ j ∈ earlier, axis.EndsBefore regions j i →
      axis.pixelEnd regions table j ∈ before := fun j hj hends =>
    List.mem_map_of_mem (List.mem_filter.mpr ⟨hj, decide_eq_true hends⟩)
  obtain ⟨greatest, hmax⟩ : ∃ greatest, before.max? = some greatest := by
    apply Option.isSome_iff_exists.mp
    rw [List.isSome_max?_iff]
    exact List.ne_nil_of_mem (hmem k hk hends)
  have hnext : axis.next roundScaled regions earlier i table = greatest := by
    unfold next
    simp only [← hbefore, hmax, Option.getD_some]
  obtain ⟨hgreatest, hle⟩ := List.max?_eq_some_iff.mp hmax
  rw [hnext]
  refine ⟨?_, fun j hj hends => hle _ (hmem j hj hends)⟩
  obtain ⟨j, hj, rfl⟩ := List.mem_map.mp hgreatest
  obtain ⟨hjEarlier, hjEnds⟩ := List.mem_filter.mp hj
  exact ⟨j, hjEarlier, of_decide_eq_true hjEnds, rfl⟩

variable {axis roundScaled}

/-- A region with a length covers something of the axis. -/
theorem start_lt_stop {i : Fin regions.length}
    (hlength : 0 < (axis.logicalLen (regions.get i)).toNat) :
    (axis.logical regions).start i < (axis.logical regions).stop i :=
  Int.lt_add_of_pos_right _ (Int.natCast_pos.mpr hlength)

/-- The placing packs the logical segments of regions that have a length. -/
theorem packs_placed (hlength : ∀ i, 0 < (axis.logicalLen (regions.get i)).toNat)
    (hfits : axis.Fits regions (axis.placed roundScaled regions)) :
    (axis.logical regions).Packs (axis.pixels regions (axis.placed roundScaled regions)) := by
  have hends : ∀ j i, axis.EndsBefore regions j i ↔ (axis.logical regions).Before j i := by
    intro j i
    rw [EndsBefore, Int32.le_iff_toInt_le, toInt_add_toInt32 (hfits.logical j)]
    rfl
  have hpixels : ∀ j i, (axis.logical regions).Before j i →
      (axis.pixelEnd regions (axis.placed roundScaled regions) j).toInt =
        (axis.pixels regions (axis.placed roundScaled regions)).stop j :=
    fun j i hbefore => toInt_add_toInt32 (hfits.pixels i j hbefore)
  rintro i ⟨k, hk⟩
  obtain ⟨earlier, hplaced, hearlier⟩ := axis.exists_placed_eq roundScaled i
  have hmem : ∀ j, (axis.logical regions).Before j i → j ∈ earlier := by
    intro j hbefore
    apply hearlier
    rw [Int32.lt_iff_toInt_lt]
    exact (start_lt_stop (hlength j)).trans_le hbefore
  obtain ⟨⟨j, -, hjEnds, hj⟩, hle⟩ := axis.next_eq_max roundScaled
    (axis.placed roundScaled regions) (hmem k hk) ((hends k i).mpr hk)
  rw [← hplaced] at hj hle
  have hjBefore := (hends j i).mp hjEnds
  constructor
  · refine ⟨j, hjBefore, ?_⟩
    rw [← hpixels j i hjBefore, ← hj]
    rfl
  · rintro _ ⟨l, hl, rfl⟩
    rw [← hpixels l i hl]
    exact Int32.le_iff_toInt_le.mp (hle l (hmem l hl) ((hends l i).mpr hl))

end RegionAxis

/-- Screencopy announces the displays at these origins. -/
theorem layout_origins (roundScaled : RegionAxis.RoundScaled) (scalePercent : Region → UInt16)
    (outputs : List Output) :
    ((layout (pixelOrigins roundScaled) scalePercent outputs).1.map fun display =>
        (display.x, display.y)) =
      pixelOrigins roundScaled (layout (pixelOrigins roundScaled) scalePercent outputs).2 := by
  have hlength : (pixelOrigins roundScaled ((regionsFrom 0 outputs).map Prod.fst)).length =
      ((regionsFrom 0 outputs).map Prod.fst).length := List.length_ofFn
  have hnames : (((regionsFrom 0 outputs).map Prod.fst).zip
      (pixelOrigins roundScaled ((regionsFrom 0 outputs).map Prod.fst))).length ≤
        ((regionsFrom 0 outputs).map Prod.snd).length := by
    simp [List.length_zip]
  simp only [layout, List.map_map]
  calc _ = List.map Prod.snd (List.map Prod.fst ((((regionsFrom 0 outputs).map Prod.fst).zip
        (pixelOrigins roundScaled ((regionsFrom 0 outputs).map Prod.fst))).zip
          ((regionsFrom 0 outputs).map Prod.snd))) := by
        rw [List.map_map]
        rfl
    _ = _ := by rw [List.map_fst_zip hnames, List.map_snd_zip hlength.le]

/-! ## Both axes -/

section Origins

variable (roundScaled : RegionAxis.RoundScaled) (regions : List Region)

/-- The origin of a region on the horizontal axis. -/
def originX (origins : List (Int32 × Int32)) (i : Fin regions.length) : Int32 :=
  (origins.getD i (0, 0)).1

/-- The vertical origin of a region. -/
def originY (origins : List (Int32 × Int32)) (i : Fin regions.length) : Int32 :=
  (origins.getD i (0, 0)).2

/-- The logical rectangle of a region. -/
def logicalBox (i : Fin regions.length) : Set (ℤ × ℤ) :=
  (xAxis.logical regions).box (yAxis.logical regions) i

/-- The rectangle of a region in pixels. -/
def pixelBox (origins : List (Int32 × Int32)) (i : Fin regions.length) : Set (ℤ × ℤ) :=
  (xAxis.pixels regions (originX regions origins)).box
    (yAxis.pixels regions (originY regions origins)) i

/-- The horizontal origins are those of the axis. -/
theorem originX_pixelOrigins :
    originX regions (pixelOrigins roundScaled regions) = xAxis.placed roundScaled regions := by
  funext i
  simp [originX, pixelOrigins]

/-- The vertical origins are those of the axis. -/
theorem originY_pixelOrigins :
    originY regions (pixelOrigins roundScaled regions) = yAxis.placed roundScaled regions := by
  funext i
  simp [originY, pixelOrigins]

/-- Monitors that do not overlap logically do not overlap in pixels, and one that has
others entirely to its left, or above it, starts at the greatest end of those. -/
theorem pixelOrigins_apart
    (hlengths : ∀ region ∈ regions, 0 < region.width.toNat ∧ 0 < region.height.toNat)
    (hfitsX : xAxis.Fits regions (originX regions (pixelOrigins roundScaled regions)))
    (hfitsY : yAxis.Fits regions (originY regions (pixelOrigins roundScaled regions)))
    (hdisjoint : Pairwise fun i j => Disjoint (logicalBox regions i) (logicalBox regions j)) :
    (pixelOrigins roundScaled regions).length = regions.length ∧
      (Pairwise fun i j =>
        Disjoint (pixelBox regions (pixelOrigins roundScaled regions) i)
          (pixelBox regions (pixelOrigins roundScaled regions) j)) ∧
      (xAxis.logical regions).Packs
        (xAxis.pixels regions (originX regions (pixelOrigins roundScaled regions))) ∧
      (yAxis.logical regions).Packs
        (yAxis.pixels regions (originY regions (pixelOrigins roundScaled regions))) := by
  rw [originX_pixelOrigins] at hfitsX ⊢
  rw [originY_pixelOrigins] at hfitsY ⊢
  have hwidth : ∀ i, 0 < (xAxis.logicalLen (regions.get i)).toNat := fun i =>
    (hlengths _ (regions.get_mem i)).1
  have hheight : ∀ i, 0 < (yAxis.logicalLen (regions.get i)).toNat := fun i =>
    (hlengths _ (regions.get_mem i)).2
  have hpacksX := RegionAxis.packs_placed hwidth hfitsX
  have hpacksY := RegionAxis.packs_placed hheight hfitsY
  refine ⟨List.length_ofFn, fun i j hne => ?_, hpacksX, hpacksY⟩
  unfold pixelBox
  rw [originX_pixelOrigins, originY_pixelOrigins]
  exact hpacksX.disjoint_box hpacksY (RegionAxis.start_lt_stop (hwidth i))
    (RegionAxis.start_lt_stop (hwidth j)) (RegionAxis.start_lt_stop (hheight i))
    (RegionAxis.start_lt_stop (hheight j)) (hdisjoint hne)

end Origins

/-- A screen with a scale of 1.5 and one with a scale of 2 at its right. -/
def sideBySide : List Region :=
  [⟨0, 0, 0, 1280, 800, 1920, 1200⟩, ⟨1, 1280, 0, 960, 540, 1920, 1080⟩]

/-- Two monitors side by side are disjoint. -/
theorem sideBySide_disjoint :
    Pairwise fun i j => Disjoint (logicalBox sideBySide i) (logicalBox sideBySide j) := by
  have hapart : ∀ i j, i ≠ j →
      (xAxis.logical sideBySide).stop i ≤ (xAxis.logical sideBySide).start j ∨
        (xAxis.logical sideBySide).stop j ≤ (xAxis.logical sideBySide).start i := by decide
  intro i j hne
  apply Set.disjoint_prod.mpr
  rcases hapart i j hne with hbefore | hbefore
  · exact .inl (Axis.Before.disjoint hbefore)
  · exact .inl (Axis.Before.disjoint hbefore).symm

/-- Two monitors side by side. -/
theorem pixelOrigins_apart_sideBySide :
    Pairwise fun i j =>
      Disjoint (pixelBox sideBySide (pixelOrigins (fun start _ _ => start) sideBySide) i)
        (pixelBox sideBySide (pixelOrigins (fun start _ _ => start) sideBySide) j) := by
  have hx : ∀ j, (xAxis.pixels sideBySide (originX sideBySide
      (pixelOrigins (fun start _ _ => start) sideBySide))).stop j < 2 ^ 31 := by decide +kernel
  have hy : ∀ j, (yAxis.pixels sideBySide (originY sideBySide
      (pixelOrigins (fun start _ _ => start) sideBySide))).stop j < 2 ^ 31 := by decide +kernel
  exact (pixelOrigins_apart (fun start _ _ => start) sideBySide (by decide)
    ⟨by decide +kernel, fun _ j _ => hx j⟩ ⟨by decide +kernel, fun _ j _ => hy j⟩
    sideBySide_disjoint).2.1

end OmarchyConnect.Host
