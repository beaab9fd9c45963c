/-
# The desktop of the visible monitors

`paint_displays` lays the monitors that have no window of their own out on one desktop.
The origins and the sizes come from the host. The casts and sums are those of an `i32`,
and the client is a debug build: a difference that does not fit panics. The placement on
the canvas is done in `f32` and is not part of the layout.
-/

import OmarchyConnect.Protocol.Codec

namespace OmarchyConnect.Client

open OmarchyConnect.Protocol

/-- A display on one axis. -/
structure Span where
  start : Int32
  length : UInt32
  deriving DecidableEq

/-- The horizontal axis. -/
def Span.ofX (display : DisplayInfo) : Span := ⟨display.x, display.width⟩

/-- The vertical axis. -/
def Span.ofY (display : DisplayInfo) : Span := ⟨display.y, display.height⟩

/-- `as i32`. -/
def Span.lengthI32 (span : Span) : ℤ := span.length.toInt32.toInt

/-- `i32::saturating_add`. -/
def saturatingAdd (a b : ℤ) : ℤ := max (-2 ^ 31) (min (a + b) (2 ^ 31 - 1))

/-- A subtraction of two `i32`; `none` is the panic. -/
def subI32 (a b : ℤ) : Option ℤ :=
  if -2 ^ 31 ≤ a - b ∧ a - b < 2 ^ 31 then some (a - b) else none

/-- `min_x` and `min_y`. -/
def least (spans : List Span) : ℤ := (spans.map fun span => span.start.toInt).min?.getD 0

/-- `max_x` and `max_y`. -/
def greatest (spans : List Span) : ℤ :=
  (spans.map fun span => saturatingAdd span.start.toInt span.lengthI32).max?.getD 1

/-- `desk_w` and `desk_h`. -/
def deskLength (spans : List Span) : Option ℤ := do
  let length ← subI32 (greatest spans) (least spans)
  return max length 1

/-- A display and its offset from the corner of the desktop. -/
structure PaintedDisplay where
  display : DisplayInfo
  offsetX : ℤ
  offsetY : ℤ
  deriving DecidableEq

/-- The desktop with all displays. -/
structure Desktop where
  width : ℤ
  height : ℤ
  painted : List PaintedDisplay
  deriving DecidableEq

/-- The monitors without a window of their own. -/
def visible (displays : List DisplayInfo) (detached : Finset UInt32) : List DisplayInfo :=
  displays.filter fun display => display.id ∉ detached

/-- `offset_x` and `offset_y`; `none` is the panic. -/
def paintDisplay (minX minY : ℤ) (display : DisplayInfo) : Option PaintedDisplay := do
  let offsetX ← subI32 display.x.toInt minX
  let offsetY ← subI32 display.y.toInt minY
  return { display, offsetX, offsetY }

/-- The integers of `paint_displays`. Where no monitor is visible there is a text in
place of the desktop. -/
def paintDisplays (displays : List DisplayInfo) (detached : Finset UInt32) :
    Option (Option Desktop) :=
  let visible := visible displays detached
  if visible.isEmpty then some none
  else do
    let xs := visible.map Span.ofX
    let ys := visible.map Span.ofY
    let width ← deskLength xs
    let height ← deskLength ys
    let painted ← visible.mapM (paintDisplay (least xs) (least ys))
    return some { width, height, painted }

/-- The rectangle of the display is part of the desktop. -/
def Desktop.Contains (desktop : Desktop) (painted : PaintedDisplay) : Prop :=
  (0 ≤ painted.offsetX ∧ painted.offsetX + painted.display.width.toNat ≤ desktop.width) ∧
    0 ≤ painted.offsetY ∧ painted.offsetY + painted.display.height.toNat ≤ desktop.height

/-- No cast turns a size negative, no difference panics, and every display lies on the
desktop. -/
structure LayoutSound (displays : List DisplayInfo) (detached : Finset UInt32) : Prop where
  casts : ∀ display ∈ visible displays detached,
    0 ≤ (Span.ofX display).lengthI32 ∧ 0 ≤ (Span.ofY display).lengthI32
  contains : ∃ desktop, paintDisplays displays detached = some desktop ∧
    ∀ desk ∈ desktop, ∀ painted ∈ desk.painted, desk.Contains painted

/-- No display ends 2^31 or more behind the start of another, and each ends before 2^31,
unless all of them start at the last coordinate. -/
def Fits (spans : List Span) : Prop :=
  ∀ span ∈ spans,
    (∀ other ∈ spans, span.start.toInt + span.length.toNat - other.start.toInt < 2 ^ 31) ∧
      (span.start.toInt + span.length.toNat < 2 ^ 31 ∨
        span.length.toNat = 1 ∧ ∀ other ∈ spans, other.start.toInt = 2 ^ 31 - 1)

/-! ## One axis -/

/-- The size stays what it is below 2^31 and turns negative from there on. -/
theorem Span.lengthI32_eq (span : Span) :
    span.lengthI32 = (span.length.toNat : ℤ).bmod (2 ^ 32) := by
  rw [lengthI32, ← Int32.toInt_toBitVec, UInt32.toBitVec_toInt32, BitVec.toInt_eq_toNat_bmod,
    UInt32.toNat_toBitVec]

/-- A length below 2^31 is kept by the cast. -/
theorem Span.lengthI32_of_lt {span : Span} (h : span.length.toNat < 2 ^ 31) :
    span.lengthI32 = span.length.toNat := by
  rw [lengthI32_eq]
  exact Int.bmod_eq_of_le (by omega) (by omega)

/-- A subtraction does not panic just when its result fits. -/
theorem subI32_eq_some_iff {a b c : ℤ} :
    subI32 a b = some c ↔ (-2 ^ 31 ≤ a - b ∧ a - b < 2 ^ 31) ∧ a - b = c :=
  Option.ite_none_right_eq_some.trans (and_congr_right fun _ => Option.some_inj)

/-- The desktop starts where the first display does. -/
theorem isLeast_least {spans : List Span} (hne : spans ≠ []) :
    IsLeast (Set.image (fun span => span.start.toInt) {span | span ∈ spans}) (least spans) := by
  have hmap : (spans.map fun span => span.start.toInt) ≠ [] := by simpa using hne
  obtain ⟨value, hmin⟩ := Option.ne_none_iff_exists'.mp (mt List.min?_eq_none_iff.mp hmap)
  have hleast : least spans = value := by rw [least, hmin, Option.getD_some]
  obtain ⟨hmem, hle⟩ := List.min?_eq_some_iff.mp hmin
  rw [hleast]
  constructor
  · obtain ⟨span, hspan, hvalue⟩ := List.mem_map.mp hmem
    exact ⟨span, hspan, hvalue⟩
  · rintro _ ⟨span, hspan, rfl⟩
    exact hle _ (List.mem_map_of_mem hspan)

/-- The end of the desktop is the greatest of the ends of the displays. -/
theorem isGreatest_greatest {spans : List Span} (hne : spans ≠ []) :
    IsGreatest (Set.image (fun span => saturatingAdd span.start.toInt span.lengthI32)
      {span | span ∈ spans}) (greatest spans) := by
  have hmap : (spans.map fun span => saturatingAdd span.start.toInt span.lengthI32) ≠ [] := by
    simpa using hne
  obtain ⟨value, hmax⟩ := Option.ne_none_iff_exists'.mp (mt List.max?_eq_none_iff.mp hmap)
  have hgreatest : greatest spans = value := by rw [greatest, hmax, Option.getD_some]
  obtain ⟨hmem, hle⟩ := List.max?_eq_some_iff.mp hmax
  rw [hgreatest]
  constructor
  · obtain ⟨span, hspan, hvalue⟩ := List.mem_map.mp hmem
    exact ⟨span, hspan, hvalue⟩
  · rintro _ ⟨span, hspan, rfl⟩
    exact hle _ (List.mem_map_of_mem hspan)

/-- The length of the desktop does not panic just when the difference of its ends fits. -/
theorem deskLength_eq_some_iff {spans : List Span} {length : ℤ} :
    deskLength spans = some length ↔
      (-2 ^ 31 ≤ greatest spans - least spans ∧ greatest spans - least spans < 2 ^ 31) ∧
        max (greatest spans - least spans) 1 = length := by
  rw [deskLength, Option.bind_eq_bind, Option.bind_eq_some_iff]
  constructor
  · rintro ⟨_, hsub, hlength⟩
    obtain ⟨hfits, rfl⟩ := subI32_eq_some_iff.mp hsub
    exact ⟨hfits, Option.some.inj hlength⟩
  · rintro ⟨hfits, rfl⟩
    exact ⟨_, subI32_eq_some_iff.mpr ⟨hfits, rfl⟩, rfl⟩

/-- What the layout has to give on one axis. -/
structure AxisSound (spans : List Span) : Prop where
  casts : ∀ span ∈ spans, 0 ≤ span.lengthI32
  contains : ∃ length, deskLength spans = some length ∧ ∀ span ∈ spans, ∃ offset,
    subI32 span.start.toInt (least spans) = some offset ∧
      0 ≤ offset ∧ offset + span.length.toNat ≤ length

namespace AxisSound

variable {spans : List Span}

/-- An axis that is laid out fits. -/
theorem fits (hne : spans ≠ []) (h : AxisSound spans) : Fits spans := by
  obtain ⟨length, hlength, hcontains⟩ := h.contains
  obtain ⟨hfits, rfl⟩ := deskLength_eq_some_iff.mp hlength
  obtain ⟨last, -, hlast⟩ := (isGreatest_greatest hne).1
  have hend : greatest spans < 2 ^ 31 := by
    simp only [saturatingAdd] at hlast
    omega
  have hleast : ∀ span ∈ spans, least spans ≤ span.start.toInt :=
    fun span hmem => (isLeast_least hne).2 ⟨span, hmem, rfl⟩
  intro span hmem
  obtain ⟨offset, hoffset, -, hinside⟩ := hcontains span hmem
  obtain ⟨-, rfl⟩ := subI32_eq_some_iff.mp hoffset
  refine ⟨fun other hother => ?_, ?_⟩
  · have hfirst := hleast other hother
    omega
  -- Where the sum saturates the desktop is the one column behind the last coordinate.
  · by_cases hlt : span.start.toInt + span.length.toNat < 2 ^ 31
    · exact Or.inl hlt
    have hfirst : 2 ^ 31 - 1 ≤ least spans := by omega
    have hlastStart : ∀ other ∈ spans, other.start.toInt = 2 ^ 31 - 1 := by
      intro other hother
      have hlower := hleast other hother
      have hupper := other.start.toInt_lt
      omega
    have hlower := hleast span hmem
    have hstart := hlastStart span hmem
    exact Or.inr ⟨by omega, hlastStart⟩

/-- An axis that fits is laid out. -/
theorem of_fits (hne : spans ≠ []) (h : Fits spans) : AxisSound spans := by
  have hlt : ∀ span ∈ spans, span.length.toNat < 2 ^ 31 := by
    intro span hmem
    have hself := (h span hmem).1 span hmem
    omega
  have hcast : ∀ span ∈ spans, span.lengthI32 = span.length.toNat :=
    fun span hmem => Span.lengthI32_of_lt (hlt span hmem)
  obtain ⟨⟨first, hfirst, hleast⟩, hlower⟩ := isLeast_least hne
  obtain ⟨⟨last, hlast, hgreatest⟩, hupper⟩ := isGreatest_greatest hne
  have hends : ∀ span ∈ spans,
      min (span.start.toInt + span.length.toNat) (2 ^ 31 - 1) ≤ greatest spans := by
    intro span hmem
    have hle := hupper ⟨span, hmem, rfl⟩
    simp only [saturatingAdd, hcast span hmem] at hle
    omega
  have hlength : greatest spans - least spans < 2 ^ 31 := by
    have hspan := (h last hlast).1 first hfirst
    have hstart := last.start.le_toInt
    simp only [saturatingAdd, hcast last hlast] at hgreatest hleast
    omega
  have hnonneg : 0 ≤ greatest spans - least spans := by
    have hle := hends first hfirst
    have hstart := first.start.toInt_lt
    simp only at hleast
    omega
  refine ⟨fun span hmem => ?_, ?_⟩
  · rw [hcast span hmem]
    exact Int.natCast_nonneg _
  refine ⟨_, deskLength_eq_some_iff.mpr ⟨⟨by omega, hlength⟩, rfl⟩, fun span hmem => ?_⟩
  obtain ⟨hdistance, hend⟩ := h span hmem
  have hfromFirst := hdistance first hfirst
  have hoffset : 0 ≤ span.start.toInt - least spans := sub_nonneg.mpr (hlower ⟨span, hmem, rfl⟩)
  simp only at hleast
  refine ⟨_, subI32_eq_some_iff.mpr ⟨⟨by omega, by omega⟩, rfl⟩, hoffset, ?_⟩
  rcases hend with hend | ⟨hone, hstarts⟩
  · have hle := hends span hmem
    omega
  · have hstart := hstarts span hmem
    have hfirstStart := hstarts first hfirst
    omega

end AxisSound

/-- An axis is laid out just when it fits. -/
theorem axisSound_iff {spans : List Span} (hne : spans ≠ []) : AxisSound spans ↔ Fits spans :=
  ⟨AxisSound.fits hne, AxisSound.of_fits hne⟩

/-! ## The desktop -/

/-- A loop that may panic gives what it gives for each element. -/
theorem mapM_eq_some_forall_iff {α β : Type} {f : α → Option β} {P : β → Prop} {xs : List α} :
    (∃ ys, xs.mapM f = some ys ∧ ∀ y ∈ ys, P y) ↔ ∀ x ∈ xs, ∃ y, f x = some y ∧ P y := by
  induction xs with
  | nil => simp
  | cons x xs ih =>
      rw [List.forall_mem_cons, ← ih]
      constructor
      · rintro ⟨ys, hys, hall⟩
        obtain ⟨y, hy, rest, hrest, rfl⟩ : ∃ y, f x = some y ∧ ∃ rest, xs.mapM f = some rest ∧
            y :: rest = ys := by
          simpa [Option.bind_eq_some_iff] using hys
        rw [List.forall_mem_cons] at hall
        exact ⟨⟨y, hy, hall.1⟩, rest, hrest, hall.2⟩
      · rintro ⟨⟨y, hy, hP⟩, rest, hrest, hall⟩
        exact ⟨y :: rest, by simp [hy, hrest], List.forall_mem_cons.mpr ⟨hP, hall⟩⟩

/-- A display is painted just when both of its offsets fit. -/
theorem paintDisplay_eq_some_iff {minX minY : ℤ} {display : DisplayInfo}
    {painted : PaintedDisplay} :
    paintDisplay minX minY display = some painted ↔
      ∃ offsetX offsetY, subI32 display.x.toInt minX = some offsetX ∧
        subI32 display.y.toInt minY = some offsetY ∧ ⟨display, offsetX, offsetY⟩ = painted := by
  simp [paintDisplay, Option.bind_eq_some_iff]

/-- The desktop of the monitors that are shown. -/
theorem paintDisplays_eq_some_iff {displays : List DisplayInfo} {detached : Finset UInt32}
    (hne : visible displays detached ≠ []) {desktop : Option Desktop} :
    paintDisplays displays detached = some desktop ↔
      ∃ width height painted,
        deskLength ((visible displays detached).map Span.ofX) = some width ∧
        deskLength ((visible displays detached).map Span.ofY) = some height ∧
        (visible displays detached).mapM
            (paintDisplay (least ((visible displays detached).map Span.ofX))
              (least ((visible displays detached).map Span.ofY))) = some painted ∧
          some ⟨width, height, painted⟩ = desktop := by
  rw [paintDisplays, if_neg (by simpa using hne)]
  simp only [Option.bind_eq_bind, Option.bind_eq_some_iff, Option.pure_def, Option.some_inj,
    exists_and_left]

/-- The two axes do not concern each other. -/
theorem layoutSound_iff_axes {displays : List DisplayInfo} {detached : Finset UInt32}
    (hne : visible displays detached ≠ []) :
    LayoutSound displays detached ↔
      AxisSound ((visible displays detached).map Span.ofX) ∧
        AxisSound ((visible displays detached).map Span.ofY) := by
  have hrun := @paintDisplays_eq_some_iff displays detached hne
  set shown := visible displays detached with hshown
  constructor
  · rintro ⟨hcasts, desktop, hdesktop, hcontains⟩
    obtain ⟨width, height, painted, hwidth, hheight, hpainted, rfl⟩ := hrun.mp hdesktop
    have hall := mapM_eq_some_forall_iff.mp ⟨painted, hpainted, hcontains _ rfl⟩
    constructor
    · refine ⟨List.forall_mem_map.mpr fun display hmem => (hcasts display hmem).1, width, hwidth,
        List.forall_mem_map.mpr fun display hmem => ?_⟩
      obtain ⟨_, hpaint, hinside⟩ := hall display hmem
      obtain ⟨offsetX, offsetY, hx, hy, rfl⟩ := paintDisplay_eq_some_iff.mp hpaint
      exact ⟨offsetX, hx, hinside.1⟩
    · refine ⟨List.forall_mem_map.mpr fun display hmem => (hcasts display hmem).2, height, hheight,
        List.forall_mem_map.mpr fun display hmem => ?_⟩
      obtain ⟨_, hpaint, hinside⟩ := hall display hmem
      obtain ⟨offsetX, offsetY, hx, hy, rfl⟩ := paintDisplay_eq_some_iff.mp hpaint
      exact ⟨offsetY, hy, hinside.2⟩
  · rintro ⟨⟨hcastsX, width, hwidth, hinsideX⟩, hcastsY, height, hheight, hinsideY⟩
    refine ⟨fun display hmem => ⟨hcastsX _ (List.mem_map_of_mem hmem),
      hcastsY _ (List.mem_map_of_mem hmem)⟩, ?_⟩
    have hall : ∀ display ∈ shown, ∃ painted,
        paintDisplay (least (shown.map Span.ofX)) (least (shown.map Span.ofY)) display =
          some painted ∧ Desktop.Contains ⟨width, height, []⟩ painted := by
      intro display hmem
      obtain ⟨offsetX, hx, hinX⟩ := hinsideX _ (List.mem_map_of_mem hmem)
      obtain ⟨offsetY, hy, hinY⟩ := hinsideY _ (List.mem_map_of_mem hmem)
      exact ⟨_, paintDisplay_eq_some_iff.mpr ⟨offsetX, offsetY, hx, hy, rfl⟩, hinX, hinY⟩
    obtain ⟨painted, hpainted, hcontains⟩ := mapM_eq_some_forall_iff.mpr hall
    refine ⟨_, hrun.mpr ⟨width, height, painted, hwidth, hheight, hpainted, rfl⟩, ?_⟩
    intro desk hdesk
    obtain rfl := Option.mem_some_iff.mp hdesk
    exact hcontains

/-- The layout of a list of displays is sound exactly when the visible ones fit on both
axes. -/
theorem layoutSound_iff_fits (displays : List DisplayInfo) (detached : Finset UInt32) :
    LayoutSound displays detached ↔
      Fits ((visible displays detached).map Span.ofX) ∧
        Fits ((visible displays detached).map Span.ofY) := by
  by_cases hempty : visible displays detached = []
  · rw [hempty]
    refine iff_of_true ⟨by simp [hempty], none, by simp [paintDisplays, hempty], by simp⟩ ?_
    exact ⟨by simp [Fits], by simp [Fits]⟩
  · rw [layoutSound_iff_axes hempty, axisSound_iff (by simpa using hempty),
      axisSound_iff (by simpa using hempty)]

/-- Two monitors of one pixel at the two ends of the coordinates. -/
def farDisplays : List DisplayInfo :=
  [⟨0, -2147483648, 0, 1, 1, 100, ""⟩, ⟨1, 2147483646, 0, 1, 1, 100, ""⟩]

/-- The message with the two monitors is accepted, and the desktop is too wide for its
width. -/
theorem farDisplays_unsound :
    (∃ buffer, Message.decode buffer = .ok (.displays farDisplays)) ∧
      ¬ LayoutSound farDisplays ∅ := by
  refine ⟨⟨(Message.displays farDisplays).encode, by decide +kernel⟩, ?_⟩
  rintro ⟨-, desktop, hdesktop, -⟩
  have hpanic : paintDisplays farDisplays ∅ = none := by decide +kernel
  rw [hpanic] at hdesktop
  exact Option.some_ne_none _ hdesktop.symm

end OmarchyConnect.Client
