/-
# What a capture announces

A capture gives the displays that are announced to the client and the regions that the
pointer is mapped with. The portal knows one size for each stream; screencopy knows the
logical rectangle and the size of the buffer of each output.

`LiveCapture.Agrees` is what both give at the start: every announced display has a
region with the announced size.
-/

import OmarchyConnect.Host.Pointer

namespace OmarchyConnect.Host

open OmarchyConnect.Protocol

/-- `yuv::even`. -/
def even (value : UInt32) : UInt32 := value &&& 0xfffffffe

/-! ## The portal -/

/-- A stream of the ScreenCast portal. -/
structure PortalStream where
  nodeId : UInt32
  size : Option (Int32 × Int32)
  position : Option (Int32 × Int32)
  id : Option String

/-- Which stream a display is captured from. -/
structure StreamTarget where
  displayId : UInt32
  nodeId : UInt32

/-- `i32::saturating_add`. -/
def saturatingAdd (a b : Int32) : Int32 :=
  Int32.ofInt (max (-2 ^ 31) (min (a.toInt + b.toInt) (2 ^ 31 - 1)))

/-- The size of a display that the portal announces on one axis. -/
def portalLength (length : Int32) : UInt32 := max (even (max length 2).toUInt32) 2

/-- The loop of `displays_from_streams`, from a stream on. -/
def displaysFrom (index : ℕ) (cursorX : Int32) :
    List PortalStream → List (DisplayInfo × StreamTarget)
  | [] => []
  | stream :: streams =>
      let (lw, lh) := stream.size.getD (1280, 720)
      let width := portalLength lw
      let height := portalLength lh
      let (x, y) := stream.position.getD (cursorX, 0)
      let name := (stream.id.filter fun id => id ≠ "").getD "monitor"
      let display : DisplayInfo :=
        { id := UInt32.ofNat index, x, y, width, height, scalePercent := 100, name }
      (display, ⟨UInt32.ofNat index, stream.nodeId⟩) ::
        displaysFrom (index + 1) (saturatingAdd x width.toInt32) streams

/-- `displays_from_streams`. -/
def displaysFromStreams (streams : List PortalStream) : List DisplayInfo × List StreamTarget :=
  ((displaysFrom 0 0 streams).map Prod.fst, (displaysFrom 0 0 streams).map Prod.snd)

/-! ## Screencopy -/

/-- What the compositor has told about an output. `spec` is the size of its buffer. -/
structure Output where
  name : Option String
  geometry : Int32 × Int32
  mode : Option (Int32 × Int32)
  scale : Int32
  logicalPosition : Option (Int32 × Int32)
  logicalSize : Option (Int32 × Int32)
  spec : Option (UInt32 × UInt32)

/-- `logical_rect`. -/
def Output.logicalRect (output : Output) : Int32 × Int32 × UInt32 × UInt32 :=
  let (x, y) := output.logicalPosition.getD output.geometry
  let (w, h) := output.logicalSize.getD
    (let (w, h) := output.mode.getD (1920, 1080)
     let scale := max output.scale 1
     (w / scale, h / scale))
  (x, y, (max w 1).toUInt32, (max h 1).toUInt32)

/-- The region and the name of an output with a usable buffer. -/
def Output.region (output : Output) (index : ℕ) : Option (Region × String) :=
  match output.spec with
  | none => none
  | some (specWidth, specHeight) =>
      let pixelWidth := even specWidth
      let pixelHeight := even specHeight
      if pixelWidth < 2 ∨ pixelHeight < 2 then none
      else
        let (x, y, width, height) := output.logicalRect
        some
          ({ id := UInt32.ofNat index, x, y, width, height, pixelWidth, pixelHeight },
            output.name.getD ("monitor-" ++ toString index))

/-- The outputs with a usable buffer, from an output on. -/
def regionsFrom (index : ℕ) : List Output → List (Region × String)
  | [] => []
  | output :: outputs =>
      (output.region index).toList ++ regionsFrom (index + 1) outputs

/-- `Grabber::layout`. The origins in pixels and the scales are computed with floats and
are arguments. -/
def layout (pixelOrigins : List Region → List (Int32 × Int32)) (scalePercent : Region → UInt16)
    (outputs : List Output) : List DisplayInfo × List Region :=
  let regions := (regionsFrom 0 outputs).map Prod.fst
  let names := (regionsFrom 0 outputs).map Prod.snd
  (((regions.zip (pixelOrigins regions)).zip names).map fun ((region, x, y), name) =>
      { id := region.id, x, y, width := region.pixelWidth, height := region.pixelHeight,
        scalePercent := scalePercent region, name },
    regions)

/-! ## Both -/

/-- A capture that is open, with what it announces. -/
inductive LiveCapture
  | screencopy (displays : List DisplayInfo) (regions : List Region)
  | portal (displays : List DisplayInfo)

namespace LiveCapture

/-- The displays of the capture. -/
def displays : LiveCapture → List DisplayInfo
  | .screencopy displays _ => displays
  | .portal displays => displays

/-- The regions of the capture, for the pointer. -/
def regions : LiveCapture → List Region
  | .screencopy _ regions => regions
  | .portal displays => displays.map Region.unscaled

end LiveCapture

/-- The device maps the display with the size that it is announced with. -/
def UinputDevice.Maps (device : UinputDevice) (display : DisplayInfo) : Prop :=
  ∃ region, device.regions display.id = some region ∧
    region.pixelWidth = display.width ∧ region.pixelHeight = display.height

/-- At the start the announced sizes are those of the regions. -/
structure LiveCapture.Agrees (capture : LiveCapture) : Prop where
  maps : ∀ display ∈ capture.displays, (UinputDevice.ofRegions capture.regions).Maps display
  proper : ∀ region ∈ capture.regions, 0 < region.width.toNat ∧ 0 < region.height.toNat

/-- Regions with different ids are found under their ids. -/
theorem regions_ofRegions {regions : List Region} (hids : (regions.map Region.id).Nodup)
    {region : Region} (hmem : region ∈ regions) :
    (UinputDevice.ofRegions regions).regions region.id = some region := by
  show regions.reverse.find? (fun other => other.id = region.id) = some region
  cases hfind : regions.reverse.find? fun other => other.id = region.id with
  | none =>
      have hnone := List.find?_eq_none.mp hfind region (List.mem_reverse.mpr hmem)
      simp at hnone
  | some other =>
      have hother := List.mem_reverse.mp (List.mem_of_find?_eq_some hfind)
      have hid : other.id = region.id := by simpa using List.find?_some hfind
      rw [List.inj_on_of_nodup_map hids hother hmem hid]

/-- A capture whose regions have different ids and real sizes agrees when each display
has the size of a region with its id. -/
theorem agrees_of_regions {capture : LiveCapture}
    (hids : (capture.regions.map Region.id).Nodup)
    (hproper : ∀ region ∈ capture.regions, 0 < region.width.toNat ∧ 0 < region.height.toNat)
    (hdisplays : ∀ display ∈ capture.displays, ∃ region ∈ capture.regions,
      region.id = display.id ∧ region.pixelWidth = display.width ∧
        region.pixelHeight = display.height) : capture.Agrees := by
  refine ⟨fun display hmem => ?_, hproper⟩
  obtain ⟨region, hregion, hid, hwidth, hheight⟩ := hdisplays display hmem
  refine ⟨region, ?_, hwidth, hheight⟩
  rw [← hid]
  exact regions_ofRegions hids hregion

/-! ## The captures agree -/

/-- Numbers below 2^32 keep apart. -/
theorem toNat_ofNat_injOn {m n : ℕ} (hm : m < 2 ^ 32) (hn : n < 2 ^ 32)
    (h : UInt32.ofNat m = UInt32.ofNat n) : m = n := by
  have hnat := congrArg UInt32.toNat h
  rwa [UInt32.toNat_ofNat_of_lt' hm, UInt32.toNat_ofNat_of_lt' hn] at hnat

/-- A length that the portal announces is not zero. -/
theorem portalLength_pos (length : Int32) : 0 < (portalLength length).toNat := by
  have htwo : (2 : UInt32) ≤ portalLength length := by
    show 2 ≤ if even (max length 2).toUInt32 ≤ 2 then 2 else even (max length 2).toUInt32
    split_ifs with hle
    · exact UInt32.le_refl 2
    · exact UInt32.le_of_lt (UInt32.not_le.mp hle)
  have hnat := UInt32.le_iff_toNat_le.mp htwo
  rw [show (2 : UInt32).toNat = 2 from rfl] at hnat
  omega

/-- The displays of the portal have the numbers of their streams as ids, and real sizes. -/
theorem mem_displaysFrom {streams : List PortalStream} {index : ℕ} {cursorX : Int32}
    {display : DisplayInfo} {target : StreamTarget}
    (hmem : (display, target) ∈ displaysFrom index cursorX streams) :
    (∃ number, index ≤ number ∧ number < index + streams.length ∧
      display.id = UInt32.ofNat number) ∧
      0 < display.width.toNat ∧ 0 < display.height.toNat := by
  induction streams generalizing index cursorX with
  | nil => exact absurd hmem List.not_mem_nil
  | cons stream streams ih =>
      simp only [displaysFrom, List.mem_cons, Prod.mk.injEq] at hmem
      cases hmem with
      | inl hfirst =>
          obtain ⟨rfl, -⟩ := hfirst
          exact ⟨⟨index, le_refl _, by simp, rfl⟩, portalLength_pos _, portalLength_pos _⟩
      | inr hlater =>
          obtain ⟨⟨number, hle, hlt, hid⟩, hsizes⟩ := ih hlater
          exact ⟨⟨number, by omega, by rw [List.length_cons]; omega, hid⟩, hsizes⟩

/-- The ids of the portal's displays are distinct. -/
theorem nodup_displaysFrom {streams : List PortalStream} {index : ℕ} (cursorX : Int32)
    (hcount : index + streams.length ≤ 2 ^ 32) :
    ((displaysFrom index cursorX streams).map fun pair => pair.1.id).Nodup := by
  induction streams generalizing index cursorX with
  | nil => exact List.nodup_nil
  | cons stream streams ih =>
      rw [List.length_cons] at hcount
      simp only [displaysFrom, List.map_cons, List.nodup_cons]
      refine ⟨?_, ih _ (by omega)⟩
      intro hmem
      obtain ⟨pair, hpair, hid⟩ := List.mem_map.mp hmem
      obtain ⟨⟨number, hle, hlt, hnumber⟩, -⟩ := mem_displaysFrom hpair
      rw [hnumber] at hid
      have hsame := toNat_ofNat_injOn (by omega) (by omega) hid
      omega

/-- What the portal announces agrees with its regions. -/
theorem portal_agrees {streams : List PortalStream} (hcount : streams.length ≤ 2 ^ 32) :
    (LiveCapture.portal (displaysFromStreams streams).1).Agrees := by
  have hids := nodup_displaysFrom 0 ((Nat.zero_add streams.length).symm ▸ hcount)
  apply agrees_of_regions
  · simpa [LiveCapture.regions, displaysFromStreams, Region.unscaled, Function.comp_def] using hids
  · intro region hregion
    obtain ⟨display, hdisplay, rfl⟩ := List.mem_map.mp hregion
    obtain ⟨pair, hpair, rfl⟩ := List.mem_map.mp hdisplay
    exact (mem_displaysFrom hpair).2
  · intro display hdisplay
    exact ⟨Region.unscaled display, List.mem_map_of_mem hdisplay, rfl, rfl, rfl⟩

/-- A length is at least one. -/
theorem toUInt32_max_one_pos (value : Int32) : 0 < (max value 1).toUInt32.toNat := by
  have hone : (1 : Int32) ≤ max value 1 := by
    show 1 ≤ if value ≤ 1 then 1 else value
    split_ifs with hle
    · exact Int32.le_refl 1
    · exact Int32.le_of_lt (Int32.not_le.mp hle)
  have hint := Int32.le_iff_toInt_le.mp hone
  by_contra hzero
  have hnone : (max value 1).toUInt32 = 0 := UInt32.toNat_inj.mp (by simpa using hzero)
  have hback : max value 1 = 0 := by
    rw [← Int32.toInt32_toUInt32 (max value 1), hnone]
    rfl
  rw [hback] at hint
  exact absurd hint (by decide)

/-- What a region takes over from its output. -/
theorem region_of_output {output : Output} {index : ℕ} {region : Region} {name : String}
    (h : output.region index = some (region, name)) :
    region.id = UInt32.ofNat index ∧ 0 < region.width.toNat ∧ 0 < region.height.toNat := by
  unfold Output.region at h
  cases hspec : output.spec with
  | none =>
      rw [hspec] at h
      cases h
  | some spec =>
      rw [hspec] at h
      simp only at h
      split_ifs at h with hsmall
      cases h
      exact ⟨rfl, toUInt32_max_one_pos _, toUInt32_max_one_pos _⟩

/-- The regions are those of the outputs that have one, numbered as these are. -/
theorem mem_regionsFrom {outputs : List Output} {index : ℕ} {pair : Region × String}
    (hmem : pair ∈ regionsFrom index outputs) :
    (∃ number, index ≤ number ∧ number < index + outputs.length ∧
      pair.1.id = UInt32.ofNat number) ∧ 0 < pair.1.width.toNat ∧ 0 < pair.1.height.toNat := by
  induction outputs generalizing index with
  | nil => exact absurd hmem List.not_mem_nil
  | cons output outputs ih =>
      rw [regionsFrom, List.mem_append] at hmem
      cases hmem with
      | inl hfirst =>
          obtain ⟨hid, hsizes⟩ := region_of_output (Option.mem_toList.mp hfirst)
          exact ⟨⟨index, le_refl _, by simp, hid⟩, hsizes⟩
      | inr hlater =>
          obtain ⟨⟨number, hle, hlt, hid⟩, hsizes⟩ := ih hlater
          exact ⟨⟨number, by omega, by rw [List.length_cons]; omega, hid⟩, hsizes⟩

/-- The ids of the regions are distinct. -/
theorem nodup_regionsFrom {outputs : List Output} {index : ℕ}
    (hcount : index + outputs.length ≤ 2 ^ 32) :
    ((regionsFrom index outputs).map fun pair => pair.1.id).Nodup := by
  induction outputs generalizing index with
  | nil => exact List.nodup_nil
  | cons output outputs ih =>
      rw [List.length_cons] at hcount
      rw [regionsFrom, List.map_append, List.nodup_append]
      refine ⟨?_, ih (by omega), ?_⟩
      · cases output.region index <;> simp
      · intro first hfirst second hsecond hsame
        obtain ⟨pair, hpair, rfl⟩ := List.mem_map.mp hfirst
        obtain ⟨other, hother, rfl⟩ := List.mem_map.mp hsecond
        obtain ⟨hid, -⟩ := region_of_output (Option.mem_toList.mp hpair)
        obtain ⟨⟨number, hle, hlt, hnumber⟩, -⟩ := mem_regionsFrom hother
        rw [hid, hnumber] at hsame
        have hequal := toNat_ofNat_injOn (by omega) (by omega) hsame
        omega

/-- What screencopy announces agrees with its regions. -/
theorem screencopy_agrees (pixelOrigins : List Region → List (Int32 × Int32))
    (scalePercent : Region → UInt16) {outputs : List Output} (hcount : outputs.length ≤ 2 ^ 32) :
    (LiveCapture.screencopy (layout pixelOrigins scalePercent outputs).1
      (layout pixelOrigins scalePercent outputs).2).Agrees := by
  have hids := nodup_regionsFrom ((Nat.zero_add outputs.length).symm ▸ hcount)
  apply agrees_of_regions
  · simpa [LiveCapture.regions, layout, Function.comp_def] using hids
  · intro region hregion
    obtain ⟨pair, hpair, rfl⟩ := List.mem_map.mp hregion
    exact (mem_regionsFrom hpair).2
  · intro display hdisplay
    obtain ⟨⟨⟨region, x, y⟩, name⟩, hzip, rfl⟩ := List.mem_map.mp hdisplay
    have hregion := (List.of_mem_zip (List.of_mem_zip hzip).1).1
    exact ⟨region, hregion, rfl, rfl, rfl⟩

end OmarchyConnect.Host
