/-
# Displays before video on the wire

The frame loop announces a size before it sends pictures of that size, but over another
channel than the pictures, and the writer prefers the pictures. The order on the wire is
kept in a run exactly when no picture overtakes an announcement that matters for it.
-/

import OmarchyConnect.Host.AnnouncedSizes

namespace OmarchyConnect.Host

open OmarchyConnect.Library.Wire OmarchyConnect.Library.Files OmarchyConnect.Library.Runs
open OmarchyConnect.Protocol

/-! ## The order -/

/-- The displays that something on the wire announces. -/
def Outgoing.announcement : Outgoing → Option (List DisplayInfo)
  | .ctrl msg => Host.announcement msg
  | .video _ => none

/-- The displays that were announced last on the wire. -/
def lastWritten (wire : List Outgoing) : Option (List DisplayInfo) :=
  (wire.filterMap Outgoing.announcement).getLast?

/-- The displays that were announced last on the wire give the packet's display the size
that the packet was encoded at. -/
def Packet.Follows (packet : Packet) (wire : List Outgoing) : Prop :=
  ∃ displayId encoder, displayOf packet.message = some displayId ∧
    packet.encoder = some encoder ∧
      announcedSize (lastWritten wire) displayId = some (encoder.width, encoder.height)

/-- Each packet on the wire follows what was written before it. -/
def InOrder (wire : List Outgoing) : Prop :=
  ∀ front packet, front ++ [.video packet] <+: wire → packet.Follows front

/-- Nothing is out of order on an empty wire. -/
theorem inOrder_nil : InOrder [] := by simp [InOrder]

/-- One more packet is in order if it follows what is written. -/
theorem inOrder_concat {wire : List Outgoing} {out : Outgoing} :
    InOrder (wire ++ [out]) ↔
      InOrder wire ∧ ∀ packet, out = .video packet → packet.Follows wire := by
  constructor
  · intro h
    refine ⟨fun front packet hfront => h front packet (hfront.trans (List.prefix_append ..)), ?_⟩
    rintro packet rfl
    exact h wire packet (List.prefix_refl _)
  · intro h front packet hfront
    rw [List.prefix_concat_iff] at hfront
    cases hfront with
    | inl hlast =>
        obtain ⟨rfl, hout⟩ := List.append_inj' hlast rfl
        exact h.2 packet (List.singleton_inj.mp hout).symm
    | inr hearlier => exact h.1 front packet hearlier

/-- The packet was encoded at the size that was announced last when it was sent. -/
def Packet.Sized (packet : Packet) : Prop :=
  ∃ displayId encoder, displayOf packet.message = some displayId ∧
    packet.encoder = some encoder ∧
      announcedSize packet.announced displayId = some (encoder.width, encoder.height)

namespace Channels

/-- What the capture promises of an event. -/
def Captured (state : Channels) : ChannelEvent → Prop
  | .session (.drive event) => state.session.Captured event
  | _ => True

/-- The writer writes a packet while the displays that were announced last on the wire do
not give its display the size that was announced last before the packet. -/
def Overtakes (state : Channels) (event : ChannelEvent) : Prop :=
  event = .writer (.wrote true) ∧ ∃ packet displayId,
    state.writer = .writing (.video packet) ∧ displayOf packet.message = some displayId ∧
      announcedSize (lastWritten state.wire) displayId ≠ announcedSize packet.announced displayId

/-- What holds in whatever order the writer writes: the sizes are those that were queued
last, and each packet on its way has the size that was announced when it was sent. -/
structure Announcing (state : Channels) : Prop where
  sized : state.session.Sized
  plain : state.session.Plain
  announced : state.closed = false → state.session.Announced state.queued
  video : ∀ packet, state.video = some packet → packet.Sized
  writing : ∀ packet, state.writer = .writing (.video packet) → packet.Sized

/-- Pictures carry the sizes that were announced when they were sent, at every place. -/
structure Inv (state : Channels) : Prop extends Announcing state where
  wire : InOrder state.wire

/-- At first nothing is announced and nothing is captured. -/
theorem announcing_start (config : HostConfig) (input : InputMode) (opens : Bool)
    (demoDisplays : List DisplayInfo) (disk : Disk UInt8) :
    (start config input opens demoDisplays disk).Announcing := by
  constructor
  case sized => exact Session.sized_start config demoDisplays disk
  case plain => exact Session.plain_start config demoDisplays disk
  case announced =>
    intro _
    simp only [start, Session.start]
    split_ifs <;> trivial
  case video => rintro _ ⟨⟩
  case writing => rintro _ ⟨⟩

variable {state : Channels}

/-- The displays are announced behind an event that sends on `ctrl`. -/
theorem Announcing.announced_ctrl (h : state.Announcing) (sha256 : Bytes → Digest) {msg : Message}
    {event : SessionEvent} (hsends : state.SendsCtrl msg event) (hopen : state.closed = false) :
    (state.session.step sha256 event).Announced (state.queued ++ [msg]) := by
  have hannounced := h.announced hopen
  cases hsends with
  | drive hmsg =>
      refine (hannounced.sendsCtrl h.plain hmsg).step sha256 h.plain (by rintro _ ⟨⟩) ?_
      intro _ _ _ _ _ displays hdisplays
      cases hmsg.symm.trans hdisplays
      rw [lastDisplays_concat]
      rfl
  | reader hmsg =>
      refine (hannounced.concat (h.plain.readerSends hmsg)).step sha256 h.plain ?_ ?_
      · rintro _ ⟨⟩
      · rintro _ _ _ _ ⟨⟩

/-- A packet is of the size that the queue announces. -/
theorem Announcing.sized_packet (h : state.Announcing) (hopen : state.closed = false)
    {msg : Message}
    (hmsg : state.session.sendsVideo = some msg) :
    Packet.Sized
      { message := msg
        encoder := (displayOf msg).bind state.session.encoders
        announced := lastDisplays state.queued } := by
  have hannounced := h.announced hopen
  have hplace := h.sized.place
  unfold Session.sendsVideo at hmsg
  split at hmsg
  next packets frames ptsStep hdrive =>
      rw [hdrive] at hplace
      unfold Session.Announced at hannounced
      rw [hdrive] at hannounced
      obtain ⟨displayId, encoder, hdisplay, hencoder⟩ :=
        hplace.1 msg (List.mem_of_mem_head? hmsg)
      refine ⟨displayId, encoder, hdisplay, ?_, ?_⟩
      · simp only [hdisplay]
        exact hencoder
      · simp only [hannounced]
        exact h.sized.encoders displayId encoder hencoder
  next => cases hmsg

/-- A step of the session keeps what is announced with what is captured. -/
theorem Announcing.stepSession (h : state.Announcing) (sha256 : Bytes → Digest)
    {event : SessionEvent} (hcaptured : state.Captured (.session event)) :
    (state.stepSession sha256 event).Announcing := by
  have hstep := sessionStep sha256 state event
  have hsized : (state.session.step sha256 event).Sized := by
    refine h.sized.step h.plain sha256 ?_
    rintro driven rfl
    exact hcaptured
  have hplain := h.plain.step sha256 event
  generalize state.stepSession sha256 event = next at hstep
  cases hstep with
  | waits => exact h
  | moves hquiet hopened =>
      refine ⟨hsized, hplain, fun hopen => ?_, h.video, h.writing⟩
      refine (h.announced hopen).step sha256 h.plain hopened ?_
      intro ok io counter backend heq displays hdisplays
      rcases hquiet ok io counter backend heq with hclosed | ⟨hnone, -⟩
      · exact absurd (hclosed.symm.trans hopen) (by simp)
      · exact absurd (hnone.symm.trans hdisplays) (by simp)
  | ctrl hsends =>
      exact ⟨hsized, hplain, fun hopen => h.announced_ctrl sha256 hsends hopen, h.video, h.writing⟩
  | video hopen hmsg hctrl =>
      refine ⟨hsized, hplain, fun _ => ?_, ?_, h.writing⟩
      · obtain ⟨io, counter, backend, rfl⟩ := ‹∃ _, _›
        refine (h.announced hopen).step sha256 h.plain (by rintro _ ⟨⟩) ?_
        intro _ _ _ _ _ displays hdisplays
        exact absurd (hctrl.symm.trans hdisplays) (by simp)
      · rintro packet ⟨⟩
        exact h.sized_packet hopen hmsg

/-- So does a capture that opens. -/
theorem Announcing.openCapture (h : state.Announcing) (sha256 : Bytes → Digest)
    (capture : LiveCapture) (opens : Bool) :
    (state.openCapture sha256 capture opens).Announcing := by
  unfold Channels.openCapture
  split
  next hdrive =>
      have hnext : (state.session.step sha256
          (.drive (.captureOpened (some capture.displays)))).drive = .sendingDisplays := by
        simp [Session.step, Session.stepDrive, hdrive]
      have hsized : (state.session.step sha256
          (.drive (.captureOpened (some capture.displays)))).Sized := by
        refine h.sized.step h.plain sha256 ?_
        rintro _ ⟨⟩
        trivial
      have hplain := h.plain.step sha256 (.drive (.captureOpened (some capture.displays)))
      constructor
      case sized => exact hsized
      case plain => exact hplain
      case announced =>
        intro _
        simp only [advance, Session.Announced, hnext]
      case video => exact h.video
      case writing => exact h.writing
  next => exact h

/-- So does a step of the writer. -/
theorem Announcing.stepWriter (h : state.Announcing) (event : WriterEvent) :
    (state.stepWriter event).Announcing := by
  have hstep := writerStep state event
  generalize state.stepWriter event = next at hstep
  cases hstep with
  | stays => exact h
  | moves hopen hwriter =>
      refine ⟨h.sized, h.plain, fun _ => h.announced hopen, h.video, ?_⟩
      intro packet hwriting
      exact absurd hwriting (hwriter _)
  | takesVideo hopen hvideo =>
      refine ⟨h.sized, h.plain, fun _ => h.announced hopen, by rintro _ ⟨⟩, ?_⟩
      rintro _ ⟨⟩
      exact h.video _ hvideo
  | takesCtrl hopen =>
      exact ⟨h.sized, h.plain, fun _ => h.announced hopen, h.video, by rintro _ ⟨⟩⟩
  | wrote hwriter =>
      have hopen : state.closed = false := by simp [closed, hwriter]
      exact ⟨h.sized, h.plain, fun _ => h.announced hopen, h.video, by rintro _ ⟨⟩⟩

/-- So does each step. -/
theorem Announcing.step (h : state.Announcing) (sha256 : Bytes → Digest) {event : ChannelEvent}
    (hcaptured : state.Captured event) : (state.step sha256 event).Announcing := by
  cases event with
  | opened capture opens => exact h.openCapture sha256 capture opens
  | session event => exact h.stepSession sha256 hcaptured
  | writer event => exact h.stepWriter event

/-! ## The order on the wire -/

/-- At first the wire is empty. -/
theorem inv_start (config : HostConfig) (input : InputMode) (opens : Bool)
    (demoDisplays : List DisplayInfo) (disk : Disk UInt8) :
    (start config input opens demoDisplays disk).Inv :=
  ⟨announcing_start config input opens demoDisplays disk, inOrder_nil⟩

/-- Only the writer writes. -/
theorem wire_stepSession (sha256 : Bytes → Digest) (state : Channels) (event : SessionEvent) :
    (state.stepSession sha256 event).wire = state.wire := by
  have hstep := sessionStep sha256 state event
  generalize state.stepSession sha256 event = next at hstep
  cases hstep <;> rfl

/-- To open the capture writes nothing to the client. -/
theorem wire_openCapture (sha256 : Bytes → Digest) (state : Channels) (capture : LiveCapture)
    (opens : Bool) : (state.openCapture sha256 capture opens).wire = state.wire := by
  unfold Channels.openCapture
  split <;> rfl

/-- A packet that is written follows what was written before just when it overtakes
nothing. -/
theorem Inv.follows_iff (h : state.Inv) {packet : Packet}
    (hwriter : state.writer = .writing (.video packet)) :
    packet.Follows state.wire ↔ ¬ state.Overtakes (.writer (.wrote true)) := by
  obtain ⟨displayId, encoder, hdisplay, hencoder, hsize⟩ := h.writing packet hwriter
  constructor
  · rintro ⟨other, same, hother, hsame, hlast⟩ ⟨-, written, third, hwritten, hthird, hne⟩
    cases hwriter.symm.trans hwritten
    cases hdisplay.symm.trans hother
    cases hdisplay.symm.trans hthird
    cases hencoder.symm.trans hsame
    exact hne (hlast.trans hsize.symm)
  · intro hgood
    refine ⟨displayId, encoder, hdisplay, hencoder, ?_⟩
    by_contra hne
    rw [← hsize] at hne
    exact hgood ⟨rfl, packet, displayId, hwriter, hdisplay, hne⟩

/-- The writer keeps the wire in order while it overtakes no announcement. -/
theorem Inv.inOrder_stepWriter (h : state.Inv) {event : WriterEvent}
    (hgood : ¬ state.Overtakes (.writer event)) : InOrder (state.stepWriter event).wire := by
  have hstep := writerStep state event
  generalize state.stepWriter event = next at hstep
  cases hstep with
  | wrote hwriter =>
      refine inOrder_concat.mpr ⟨h.wire, ?_⟩
      rintro packet rfl
      exact (h.follows_iff hwriter).mpr hgood
  | _ => exact h.wire

/-- A step that overtakes nothing keeps the wire in order. -/
theorem Inv.step (h : state.Inv) (sha256 : Bytes → Digest) {event : ChannelEvent}
    (hcaptured : state.Captured event) (hgood : ¬ state.Overtakes event) :
    (state.step sha256 event).Inv := by
  refine ⟨h.toAnnouncing.step sha256 hcaptured, ?_⟩
  cases event with
  | opened capture opens =>
      rw [Channels.step, wire_openCapture]
      exact h.wire
  | session event =>
      rw [Channels.step, wire_stepSession]
      exact h.wire
  | writer event => exact h.inOrder_stepWriter hgood

/-- A packet that overtakes an announcement breaks the order. -/
theorem Inv.not_inOrder (h : state.Inv) (sha256 : Bytes → Digest) {event : ChannelEvent}
    (hbad : state.Overtakes event) : ¬ InOrder (state.step sha256 event).wire := by
  obtain ⟨rfl, packet, -, hwriter, -⟩ := id hbad
  have hwire : (state.step sha256 (.writer (.wrote true))).wire =
      state.wire ++ [.video packet] := by
    simp [Channels.step, Channels.stepWriter, hwriter]
  rw [hwire, inOrder_concat]
  rintro ⟨-, hfollows⟩
  exact (h.follows_iff hwriter).mp (hfollows packet rfl) hbad

/-- In every run of a client, with the frames that its capture gives, each picture on the
wire comes behind an announcement of the size that it was encoded at, exactly when no
picture overtakes one that changes the size of its display. -/
theorem displays_before_video (sha256 : Bytes → Digest) (config : HostConfig) (input : InputMode)
    (opens : Bool) (demoDisplays : List DisplayInfo) (disk : Disk UInt8)
    (events : List ChannelEvent)
    (hcaptured : Along (step sha256) Captured (start config input opens demoDisplays disk) events) :
    (∀ front, front <+: events →
        InOrder (run (step sha256) (start config input opens demoDisplays disk) front).wire) ↔
      Along (step sha256) (fun state event => ¬ state.Overtakes event)
        (start config input opens demoDisplays disk) events := by
  have hstart := inv_start config input opens demoDisplays disk
  exact @prefixes_iff_along_of_ok _ _ (step sha256) Inv (fun state => InOrder state.wire) Captured
    Overtakes (fun _ _ h hok hgood => h.step sha256 hok hgood) (fun _ h => h.wire)
    (fun _ _ h _ hbad => h.not_inOrder sha256 hbad) _ hstart events hcaptured

/-! ## The first picture -/

/-- One small monitor behind the portal. -/
def oneMonitor : LiveCapture :=
  .portal (displaysFromStreams
    [{ nodeId := 42, size := some (2, 2), position := some (0, 0), id := none }]).1

/-- A black picture of it. -/
def onePicture : RawFrame where
  displayId := 0
  width := 2
  height := 2
  i420 := [16, 16, 16, 16, 128, 128]

/-- An encoder that answers with one packet. -/
def onePacket (_ : RawFrame) : Backend where
  opens := .ok ()
  encodes := .ok [{ keyframe := true, data := [0, 0, 0, 1] }]

/-- A live host with a portal. -/
def portalConfig : HostConfig where
  demo := false
  fps := 30
  bitrateKbps := 8000
  downloadDir := ["downloads"]
  offerFile := none

/-- The host before its capture is opened. -/
def portalStart : Channels := start portalConfig .auto true [] { files := fun _ => none }

/-- The writer is first polled when the displays and the first picture are both queued. -/
def lateWriter : List ChannelEvent :=
  [.opened oneMonitor true, .session (.drive (.sent true quietIo 0 onePacket)),
    .session (.drive (.frame (some onePicture) onePacket)),
    .session (.drive (.sent true quietIo 0 onePacket)), .writer .pollCancel, .writer .pollVideo,
    .writer (.wrote true)]

/-- The run captures displays that were announced. -/
theorem captured_lateWriter : Along (step sampleSha256) Captured portalStart lateWriter := by
  refine ⟨trivial, trivial, ?_, trivial, trivial, trivial, trivial, trivial⟩
  exact Option.some_ne_none ((2 : UInt32), (2 : UInt32))

/-- The wire of the run is in order exactly while nothing is overtaken. -/
theorem displays_before_video_lateWriter :
    (∀ front, front <+: lateWriter →
        InOrder (run (step sampleSha256) portalStart front).wire) ↔
      Along (step sampleSha256) (fun state event => ¬ state.Overtakes event) portalStart
        lateWriter :=
  displays_before_video sampleSha256 portalConfig .auto true [] { files := fun _ => none }
    lateWriter captured_lateWriter

/-- The first picture is written and no display was announced on the wire. -/
theorem lateWriter_overtakes :
    Along (step sampleSha256) Captured portalStart lateWriter ∧
      ¬ InOrder (run (step sampleSha256) portalStart lateWriter).wire := by
  refine ⟨captured_lateWriter, fun horder => ?_⟩
  have hwire : ∃ packet, (run (step sampleSha256) portalStart lateWriter).wire =
      [.video packet] := ⟨_, rfl⟩
  obtain ⟨packet, hwire⟩ := hwire
  rw [hwire] at horder
  obtain ⟨displayId, encoder, -, -, hlast⟩ := horder [] packet (List.prefix_refl _)
  cases hlast

end Channels

end OmarchyConnect.Host
