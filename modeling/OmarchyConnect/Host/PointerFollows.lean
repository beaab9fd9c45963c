/-
# The pointer and the announced sizes

The regions of the pointer device are built once, when the capture is opened. The
announced sizes change with the frames. As long as the frames have the sizes of the
regions, a pixel of an announced picture is put where it lies in its monitor.
-/

import OmarchyConnect.Host.ChannelSteps
import OmarchyConnect.Library.Runs

namespace OmarchyConnect.Host

open OmarchyConnect.Library.Wire OmarchyConnect.Library.Files OmarchyConnect.Library.Runs
open OmarchyConnect.Protocol

/-! ## The device -/

namespace UinputDevice

variable (device : UinputDevice)

/-- Where a pixel lies in a monitor, seen from the corner of the layout and rounded down
to a sub-pixel. -/
def pixelPosition (region : Region) (x y : UInt32) : ℤ × ℤ :=
  (region.x.toInt * subpixel + spread region.width region.pixelWidth x - device.minX,
    region.y.toInt * subpixel + spread region.height region.pixelHeight y - device.minY)

/-- Each pixel of a monitor has a position that an `i32` can hold. -/
def Addressable : Prop :=
  ∀ id region, device.regions id = some region → ∀ x y : UInt32,
    x.toNat < region.pixelWidth.toNat → y.toNat < region.pixelHeight.toNat →
      (device.pixelPosition region x y).1 < 2 ^ 31 ∧ (device.pixelPosition region x y).2 < 2 ^ 31

/-- Each display has a region of its size, and the device puts each pixel of it where it
lies in its monitor. -/
def Follows (displays : List DisplayInfo) : Prop :=
  ∀ display ∈ displays, ∃ region, device.regions display.id = some region ∧
    region.pixelWidth = display.width ∧ region.pixelHeight = display.height ∧
      ∀ x y : UInt32, x.toNat < display.width.toNat → y.toNat < display.height.toNat →
        device.position display.id x y = device.pixelPosition region x y

end UinputDevice

/-- A layout that is less than 2^31 sub-pixels wide and high can be addressed. -/
theorem addressable_of_extent {regions : List Region}
    (hproper : ∀ region ∈ regions, 0 < region.width.toNat ∧ 0 < region.height.toNat)
    (hwidth : (UinputDevice.ofRegions regions).maxX - (UinputDevice.ofRegions regions).minX <
      2 ^ 31)
    (hheight : (UinputDevice.ofRegions regions).maxY - (UinputDevice.ofRegions regions).minY <
      2 ^ 31) : (UinputDevice.ofRegions regions).Addressable := by
  intro id region hregion x y hx hy
  have hmem : region ∈ regions := List.mem_reverse.mp (List.mem_of_find?_eq_some hregion)
  obtain ⟨hproperX, hproperY⟩ := hproper region hmem
  have hright : (region.x.toInt + region.width.toNat) * subpixel - 1 ≤
      (UinputDevice.ofRegions regions).maxX :=
    le_max_of_le_left (le_max? (List.mem_map.mpr ⟨region, hmem, rfl⟩))
  have hbottom : (region.y.toInt + region.height.toNat) * subpixel - 1 ≤
      (UinputDevice.ofRegions regions).maxY :=
    le_max_of_le_left (le_max? (List.mem_map.mpr ⟨region, hmem, rfl⟩))
  have hspreadX := spread_lt hproperX hx
  have hspreadY := spread_lt hproperY hy
  simp only [UinputDevice.pixelPosition]
  unfold subpixel at *
  omega

/-- A capture that was opened: through the portal, or with screencopy. A display id is a
`u32`, and no more streams or outputs have one. -/
inductive LiveCapture.Opened : LiveCapture → Prop
  | portal {streams : List PortalStream} (hcount : streams.length ≤ 2 ^ 32) :
      Opened (.portal (displaysFromStreams streams).1)
  | screencopy (pixelOrigins : List Region → List (Int32 × Int32))
      (scalePercent : Region → UInt16) {outputs : List Output}
      (hcount : outputs.length ≤ 2 ^ 32) :
      Opened (.screencopy (layout pixelOrigins scalePercent outputs).1
        (layout pixelOrigins scalePercent outputs).2)

/-- The displays and the regions of an opened capture agree. -/
theorem LiveCapture.Opened.agrees {capture : LiveCapture} (h : capture.Opened) :
    capture.Agrees := by
  cases h with
  | portal hcount => exact portal_agrees hcount
  | screencopy pixelOrigins scalePercent hcount =>
      exact screencopy_agrees pixelOrigins scalePercent hcount

/-- The device of a capture follows the displays that the capture starts with. -/
theorem LiveCapture.Opened.follows {capture : LiveCapture} (h : capture.Opened)
    (haddressable : (UinputDevice.ofRegions capture.regions).Addressable) :
    (UinputDevice.ofRegions capture.regions).Follows capture.displays := by
  intro display hmem
  obtain ⟨region, hregion, hwidth, hheight⟩ := h.agrees.maps display hmem
  refine ⟨region, hregion, hwidth, hheight, fun x y hx hy => ?_⟩
  rw [← hwidth] at hx
  rw [← hheight] at hy
  have hlisted : region ∈ capture.regions :=
    List.mem_reverse.mp (List.mem_of_find?_eq_some hregion)
  obtain ⟨hproperX, hproperY⟩ := h.agrees.proper region hlisted
  exact (position_eq_iff hregion hproperX hproperY hx hy).mpr
    (haddressable display.id region hregion x y hx hy)

/-- The device of an injector has the regions that it was built with. -/
theorem buildInjector_uinput {mode : InputMode} {demo opens : Bool} {regions : List Region}
    {device : UinputDevice} (h : buildInjector mode demo opens regions = .uinput device) :
    device = UinputDevice.ofRegions regions := by
  unfold buildInjector at h
  cases mode with
  | none => cases h
  | auto =>
      simp only at h
      split_ifs at h
      cases h
      rfl
  | uinput =>
      simp only at h
      split_ifs at h
      cases h
      rfl

/-! ## The session -/

namespace Channels

/-- The sizes that the client was told last are those that the pointer is mapped with. -/
def PointerFollows (state : Channels) : Prop :=
  ∀ device, state.injector = some (.uinput device) →
    ∀ displays, lastDisplays state.queued = some displays → device.Follows displays

/-- Every capture that is opened has a layout that an `i32` can address, and every frame
has the size of the region of its display. -/
def Steady (state : Channels) : ChannelEvent → Prop
  | .opened capture _ =>
      capture.Opened ∧ (UinputDevice.ofRegions capture.regions).Addressable
  | .session (.drive (.frame (some frame) _)) =>
      ∀ device region, state.injector = some (.uinput device) →
        device.regions frame.displayId = some region →
          frame.width = region.pixelWidth ∧ frame.height = region.pixelHeight
  | _ => True

/-- The session's list of displays is followed as well, and before the capture is opened
nothing was announced. -/
structure Mapped (state : Channels) : Prop where
  plain : state.session.Plain
  early : state.session.drive = .openingCapture → lastDisplays state.queued = none
  displays : ∀ device, state.injector = some (.uinput device) →
    device.Follows state.session.displays
  follows : state.PointerFollows

end Channels

namespace Session

variable {session : Session}

/-- Behind frames the capture is not being opened. -/
theorem FramesSent.ne_openingCapture {next : Session} (h : FramesSent session next) :
    next.drive ≠ .openingCapture := by
  intro hdrive
  rcases h.place with hplace | ⟨_, hplace⟩ | ⟨_, _, _, hplace⟩ <;> cases hplace.symm.trans hdrive

/-- The capture is opened once. -/
theorem openingCapture_of_step (sha256 : Bytes → Digest) (hplain : session.Plain)
    {event : SessionEvent} (h : (session.step sha256 event).drive = .openingCapture) :
    session.drive = .openingCapture := by
  rcases step_keeps sha256 hplain.replies event with ⟨driven, rfl⟩ | ⟨hsame, -⟩
  · have hmove := driveMove sha256 session driven
    simp only [step] at h
    generalize session.stepDrive sha256 driven = next at h hmove
    cases hmove with
    | stays => exact h
    | opened => cases h
    | starts => cases h
    | @offers _ _ _ _ _ _ msgs => cases msgs <;> cases h
    | @offersMore _ _ _ msgs =>
        generalize msgs.tail = rest at h
        cases rest <;> cases h
    | resized => cases h
    | packet => cases h
    | leaves hleaves =>
        obtain ⟨drive, cancelled, xfer, reader, rfl, hleaving, -⟩ := hleaves.next_eq
        cases h
        exact absurd hleaving id
    | _ => exact absurd h (framesSent _ _ session _).ne_openingCapture
  · rw [← hsame.drive]
    exact h

/-- Only a frame of another size changes the displays behind the opening. -/
theorem displays_step (sha256 : Bytes → Digest) (hplain : session.Plain) {event : SessionEvent}
    (hopened : ∀ displays, event ≠ .drive (.captureOpened (some displays)))
    (hsize : ∀ frame backend, event = .drive (.frame (some frame) backend) → ∀ display,
      session.displays.find? (fun display => display.id == frame.displayId) = some display →
        display.width = frame.width ∧ display.height = frame.height) :
    (session.step sha256 event).displays = session.displays := by
  rcases step_keeps sha256 hplain.replies event with ⟨driven, rfl⟩ | ⟨hsame, -⟩
  · have hmove := driveMove sha256 session driven
    simp only [step]
    generalize session.stepDrive sha256 driven = next at hmove
    cases hmove with
    | stays => rfl
    | opened => exact absurd rfl (hopened _)
    | starts => rfl
    | @offers _ _ _ _ _ _ msgs => cases msgs <;> rfl
    | @offersMore _ _ _ msgs => cases msgs.tail <;> rfl
    | resized _ hfind hother => exact absurd (hsize _ _ rfl _ hfind) hother
    | packet => rfl
    | leaves hleaves =>
        obtain ⟨drive, cancelled, xfer, reader, rfl, -⟩ := hleaves.next_eq
        rfl
    | _ => exact (framesSent _ _ session _).displays
  · exact hsame.displays

/-- What waits to be sent on `ctrl` is a file message or the session's displays. -/
theorem Plain.displays_of_sendsCtrl (h : session.Plain) {msg : Message}
    (hmsg : session.sendsCtrl = some msg) {displays : List DisplayInfo}
    (hannounces : announcement msg = some displays) : displays = session.displays := by
  unfold Session.sendsCtrl at hmsg
  cases hdrive : session.drive with
  | sendingOffer msgs =>
      rw [hdrive] at hmsg
      have hsilent := h.offer msgs hdrive msg (List.mem_of_mem_head? hmsg)
      exact absurd (hsilent.symm.trans hannounces) (by simp)
  | _ =>
      rw [hdrive] at hmsg
      cases hmsg <;> cases hannounces <;> rfl

end Session

namespace Channels

variable {state : Channels}

/-- At first there is no device. -/
theorem mapped_start {config : HostConfig} (hlive : config.demo = false) (input : InputMode)
    (opens : Bool) (demoDisplays : List DisplayInfo) (disk : Disk UInt8) :
    (start config input opens demoDisplays disk).Mapped := by
  have hnone : (start config input opens demoDisplays disk).injector = none := by
    simp [start, hlive]
  constructor
  case plain => exact Session.plain_start config demoDisplays disk
  case early => exact fun _ => rfl
  case displays => exact fun _ hdevice => absurd (hnone.symm.trans hdevice) (by simp)
  case follows => exact fun _ hdevice => absurd (hnone.symm.trans hdevice) (by simp)

/-- A frame of the size of its region is no frame of another size. -/
theorem Mapped.size_kept (h : state.Mapped) {device : UinputDevice}
    (hdevice : state.injector = some (.uinput device)) {event : SessionEvent}
    (hsteady : state.Steady (.session event)) (frame : RawFrame) (backend : RawFrame → Backend)
    (hevent : event = .drive (.frame (some frame) backend)) (display : DisplayInfo)
    (hfind : state.session.displays.find? (fun display => display.id == frame.displayId) =
      some display) : display.width = frame.width ∧ display.height = frame.height := by
  subst hevent
  have hid : display.id = frame.displayId := by simpa using List.find?_some hfind
  obtain ⟨region, hregion, hwidth, hheight, -⟩ :=
    h.displays device hdevice display (List.mem_of_find?_eq_some hfind)
  rw [hid] at hregion
  obtain ⟨hframeWidth, hframeHeight⟩ := hsteady device region hdevice hregion
  exact ⟨hwidth.symm.trans hframeWidth.symm, hheight.symm.trans hframeHeight.symm⟩

/-- A step of the session that leaves the queue as it was, or adds what it sends. -/
theorem Mapped.advance (h : state.Mapped) (sha256 : Bytes → Digest) {event : SessionEvent}
    (hsteady : state.Steady (.session event))
    (hopened : ∀ displays, event ≠ .drive (.captureOpened (some displays)))
    {next : Channels} (hsession : next.session = state.session.step sha256 event)
    (hinjector : next.injector = state.injector)
    (hqueued : next.queued = state.queued ∨
      ∃ msg, state.SendsCtrl msg event ∧ next.queued = state.queued ++ [msg]) : next.Mapped := by
  have hplain := h.plain.step sha256 event
  have hdisplays : ∀ device, state.injector = some (.uinput device) →
      next.session.displays = state.session.displays := by
    intro device hdevice
    rw [hsession]
    exact Session.displays_step sha256 h.plain hopened (h.size_kept hdevice hsteady)
  have hlast : lastDisplays next.queued = lastDisplays state.queued ∨
      state.session.drive ≠ .openingCapture ∧
        lastDisplays next.queued = some state.session.displays := by
    rcases hqueued with hqueued | ⟨msg, hsends, hqueued⟩
    · exact Or.inl (by rw [hqueued])
    · rw [hqueued, lastDisplays_concat]
      cases hannounces : announcement msg with
      | none => exact Or.inl (Option.none_or ..)
      | some displays =>
          cases hsends with
          | drive hmsg =>
              refine Or.inr ⟨fun hdrive => ?_, ?_⟩
              · rw [Session.sendsCtrl, hdrive] at hmsg
                cases hmsg
              · rw [h.plain.displays_of_sendsCtrl hmsg hannounces]
                rfl
          | reader hmsg =>
              exact absurd ((h.plain.readerSends hmsg).symm.trans hannounces) (by simp)
  constructor
  case plain =>
    rw [hsession]
    exact hplain
  case early =>
    intro hdrive
    rw [hsession] at hdrive
    have hbefore := Session.openingCapture_of_step sha256 h.plain hdrive
    rcases hlast with hsame | ⟨hlater, -⟩
    · rw [hsame]
      exact h.early hbefore
    · exact absurd hbefore hlater
  case displays =>
    intro device hdevice
    rw [hinjector] at hdevice
    rw [hdisplays device hdevice]
    exact h.displays device hdevice
  case follows =>
    intro device hdevice displays hannounced
    rw [hinjector] at hdevice
    rcases hlast with hsame | ⟨-, hsame⟩
    · exact h.follows device hdevice displays (hsame ▸ hannounced)
    · cases hsame.symm.trans hannounced
      exact h.displays device hdevice

/-- A step of the session keeps the pointer mapped. -/
theorem Mapped.stepSession (h : state.Mapped) (sha256 : Bytes → Digest) {event : SessionEvent}
    (hsteady : state.Steady (.session event)) : (state.stepSession sha256 event).Mapped := by
  have hstep := sessionStep sha256 state event
  generalize state.stepSession sha256 event = next at hstep
  cases hstep with
  | waits => exact h
  | moves hquiet hopened => exact h.advance sha256 hsteady hopened rfl rfl (Or.inl rfl)
  | ctrl hsends =>
      refine h.advance sha256 hsteady ?_ rfl rfl (Or.inr ⟨_, hsends, rfl⟩)
      cases hsends <;> rintro _ ⟨⟩
  | video hopen hmsg hctrl hevent =>
      refine h.advance sha256 hsteady ?_ rfl rfl (Or.inl rfl)
      obtain ⟨io, counter, backend, rfl⟩ := hevent
      rintro _ ⟨⟩

/-- An opened capture gives a device that is mapped. -/
theorem Mapped.openCapture (h : state.Mapped) (sha256 : Bytes → Digest) {capture : LiveCapture}
    {opens : Bool} (hsteady : state.Steady (.opened capture opens)) :
    (state.openCapture sha256 capture opens).Mapped := by
  unfold Channels.openCapture
  split
  next hdrive =>
      have hplain := h.plain.step sha256 (.drive (.captureOpened (some capture.displays)))
      have hsession : state.session.step sha256 (.drive (.captureOpened (some capture.displays))) =
          { state.session with displays := capture.displays, drive := .sendingDisplays } := by
        simp [Session.step, Session.stepDrive, hdrive]
      have hearly := h.early hdrive
      have hfollows := hsteady.1.follows hsteady.2
      constructor
      case plain => exact hplain
      case early => exact fun _ => hearly
      case displays =>
        intro device hdevice
        rw [buildInjector_uinput (Option.some.inj hdevice)]
        simp only [Channels.advance, hsession]
        exact hfollows
      case follows =>
        intro device hdevice displays hannounced
        exact absurd (hearly.symm.trans hannounced) (by simp)
  next => exact h

/-- The writer leaves the pointer alone. -/
theorem Mapped.stepWriter (h : state.Mapped) (event : WriterEvent) :
    (state.stepWriter event).Mapped := by
  have hstep := writerStep state event
  generalize state.stepWriter event = next at hstep
  cases hstep <;> exact ⟨h.plain, h.early, h.displays, h.follows⟩

/-- A step keeps the pointer mapped. -/
theorem Mapped.step (h : state.Mapped) (sha256 : Bytes → Digest) {event : ChannelEvent}
    (hsteady : state.Steady event) : (state.step sha256 event).Mapped := by
  cases event with
  | opened capture opens => exact h.openCapture sha256 hsteady
  | session event => exact h.stepSession sha256 hsteady
  | writer event => exact h.stepWriter event

/-- In every run of a live session whose frames have the sizes of their regions, the
pointer follows the announced sizes in every state. -/
theorem pointer_follows (sha256 : Bytes → Digest) {config : HostConfig}
    (hlive : config.demo = false) (input : InputMode) (opens : Bool)
    (demoDisplays : List DisplayInfo) (disk : Disk UInt8) (events : List ChannelEvent)
    (hsteady : Along (step sha256) Steady (start config input opens demoDisplays disk) events) :
    (run (step sha256) (start config input opens demoDisplays disk) events).PointerFollows :=
  (invariant_run (step sha256) Mapped (fun _ _ h hok => h.step sha256 hok)
    (mapped_start hlive input opens demoDisplays disk) hsteady).follows

/-! ## A scaled monitor -/

/-- A monitor of 1920x1080 pixels at scale 1.5, as the portal describes it. -/
def scaledStreams : List PortalStream :=
  [{ nodeId := 42, size := some (1280, 720), position := some (0, 0), id := none }]

/-- The capture of the scaled monitor. -/
def scaledCapture : LiveCapture := .portal (displaysFromStreams scaledStreams).1

/-- A picture of the given size. -/
def greyPicture (width height : UInt32) : RawFrame where
  displayId := 0
  width
  height
  i420 := List.replicate (i420Size width height) 128

/-- A host that captures its monitors. -/
def grabConfig : HostConfig where
  demo := false
  fps := 30
  bitrateKbps := 8000
  downloadDir := ["downloads"]
  offerFile := none

/-- The session at its start. -/
def grabStart : Channels := start grabConfig .auto true [] { files := fun _ => none }

/-- A packet with a keyframe in it. -/
def keyframePacket (_ : RawFrame) : Backend where
  opens := .ok ()
  encodes := .ok [{ keyframe := true, data := [0, 0, 0, 1] }]

/-- The capture is opened and announced, and the first picture comes. -/
def firstGrab (frame : RawFrame) : List ChannelEvent :=
  [.opened scaledCapture true, .session (.drive (.sent true quietIo 0 keyframePacket)),
    .session (.drive (.frame (some frame) keyframePacket)),
    .session (.drive (.sent true quietIo 0 keyframePacket))]

/-- The scaled capture was opened. -/
theorem opened_scaledCapture : scaledCapture.Opened :=
  .portal (by decide)

/-- The scaled monitor can be addressed. -/
theorem addressable_scaledCapture :
    (UinputDevice.ofRegions scaledCapture.regions).Addressable :=
  addressable_of_extent opened_scaledCapture.agrees.proper (by decide) (by decide)

/-- The first frame has the size of its region. -/
theorem steady_firstGrab :
    Along (step sampleSha256) Steady grabStart (firstGrab (greyPicture 1280 720)) := by
  refine ⟨⟨opened_scaledCapture, addressable_scaledCapture⟩, trivial, ?_, trivial, trivial⟩
  intro device region hdevice hregion
  cases hdevice
  cases hregion
  exact ⟨rfl, rfl⟩

/-- The pointer behind the first frame. -/
theorem pointer_follows_firstGrab :
    (run (step sampleSha256) grabStart (firstGrab (greyPicture 1280 720))).PointerFollows :=
  pointer_follows sampleSha256 rfl .auto true [] { files := fun _ => none }
    (firstGrab (greyPicture 1280 720)) steady_firstGrab

/-- The pictures have all pixels of the monitor: the client is told of 1920x1080 pixels
and the pointer is mapped with 1280x720. -/
theorem scaled_not_followed :
    scaledCapture.Opened ∧ (UinputDevice.ofRegions scaledCapture.regions).Addressable ∧
      ¬ (run (step sampleSha256) grabStart (firstGrab (greyPicture 1920 1080))).PointerFollows := by
  refine ⟨opened_scaledCapture, addressable_scaledCapture, fun hfollows => ?_⟩
  have hdisplays := hfollows (UinputDevice.ofRegions scaledCapture.regions) rfl _ rfl
  obtain ⟨region, hregion, hwidth, -⟩ := hdisplays _ List.mem_cons_self
  cases hregion
  exact absurd hwidth (by decide)

end Channels

end OmarchyConnect.Host
