/-
# Each picture at its own size

In a live session a frame of another size replaces the encoder of its display and is
announced first. So the encoder that takes a frame has the size of the frame, whatever
sizes the capture gives, and the displays that were queued last have it too. Nothing can
be queued once the writer task is gone, and then nothing is sent either.
-/

import OmarchyConnect.Host.EncodeCalls
import OmarchyConnect.Host.WireOrder

namespace OmarchyConnect.Host

open OmarchyConnect.Library.Wire OmarchyConnect.Library.Files OmarchyConnect.Library.Runs
open OmarchyConnect.Protocol

/-- A frame as the captures make them: of an even size and with all its bytes. -/
structure RawFrame.Regular (frame : RawFrame) : Prop where
  width : 2 ≤ frame.width ∧ frame.width % 2 = 0
  height : 2 ≤ frame.height ∧ frame.height % 2 = 0
  i420 : frame.i420.length = i420Size frame.width frame.height

namespace Session

/-- The live frame that `drive_session` deals with in a step. -/
def handledFrame (session : Session) (event : DriveEvent) : Option RawFrame :=
  match session.drive, event with
  | .selecting, .frame frame _ => if session.config.demo then none else frame
  | .sendingUpdate frame, .sent _ _ _ _ => some frame
  | _, _ => none

/-- A live frame waits alone, and it is regular. -/
def Whole (session : Session) : Prop :=
  match session.drive with
  | .sendingUpdate frame => frame.Regular
  | .sendingVideo _ frames _ => frames = []
  | _ => True

variable {session : Session} {event : DriveEvent}

/-! ## What sending frames leaves alone -/

/-- Only the encoders of the frames that are sent are opened. -/
theorem encoders_sendFrames (backend : RawFrame → Backend) (ptsStep : UInt64)
    {frames : List RawFrame} {displayId : UInt32}
    (hother : ∀ frame ∈ frames, frame.displayId ≠ displayId) :
    (sendFrames backend ptsStep session frames).encoders displayId =
      session.encoders displayId := by
  induction frames generalizing session with
  | nil => rfl
  | cons frame frames ih =>
      have hne := hother frame List.mem_cons_self
      have hrest : ∀ other ∈ frames, other.displayId ≠ displayId := fun other hmem =>
        hother other (List.mem_cons_of_mem frame hmem)
      cases hused : usedEncoder session.config (backend frame) session.encoders frame with
      | none =>
          obtain ⟨err, hsend⟩ := @sendFrame_of_not_used _ _ _ _ session.pts hused
          simp only [sendFrames, hsend]
      | some encoder =>
          have hkept : Function.update session.encoders frame.displayId (some encoder) displayId =
              session.encoders displayId := Function.update_of_ne hne.symm _ _
          rw [sendFrames, sendFrame_of_used hused]
          cases encoder.encode (backend frame) frame.i420 with
          | error err => exact hkept
          | ok encoded =>
              cases encoded with
              | nil => exact (ih hrest).trans hkept
              | cons packet packets => exact hkept

/-- At most one frame is sent at a time. -/
theorem whole_sendFrames (backend : RawFrame → Backend) (ptsStep : UInt64)
    {frames : List RawFrame} (hone : frames.length ≤ 1) :
    (sendFrames backend ptsStep session frames).Whole := by
  cases frames with
  | nil => trivial
  | cons frame frames =>
      obtain rfl : frames = [] :=
        List.eq_nil_of_length_eq_zero (Nat.le_zero.mp (Nat.le_of_succ_le_succ hone))
      rw [sendFrames]
      split
      next => trivial
      next => trivial
      next => rfl

/-! ## One step of the session -/

/-- A step of the frame loop keeps the pictures whole. -/
theorem Whole.stepDrive (h : session.Whole) (sha256 : Bytes → Digest)
    (hlive : session.config.demo = false)
    (hregular : ∀ frame backend, event = .frame (some frame) backend → frame.Regular) :
    (session.stepDrive sha256 event).Whole := by
  have hmove := driveMove sha256 session event
  unfold Whole at h
  generalize session.stepDrive sha256 event = next at hmove
  cases hmove with
  | stays => exact h
  | opened => trivial
  | starts => trivial
  | @offers _ _ _ _ _ _ msgs => cases msgs <;> trivial
  | @offersMore _ _ _ msgs => cases msgs.tail <;> trivial
  | ticked _ hdemo => exact absurd (hlive.symm.trans hdemo) Bool.false_ne_true
  | framed => exact whole_sendFrames _ _ le_rfl
  | resized => exact hregular _ _ rfl
  | updated => exact whole_sendFrames _ _ le_rfl
  | packet hdrive =>
      rw [hdrive] at h
      exact h
  | frameDone hdrive =>
      rw [hdrive] at h
      obtain rfl := h
      exact whole_sendFrames _ _ (Nat.zero_le 1)
  | leaves hleaves =>
      obtain ⟨drive, _, _, _, rfl, hleaving, -⟩ := hleaves.next_eq
      cases drive <;> trivial

/-- A step of the session keeps the pictures whole. -/
theorem Whole.step (h : session.Whole) (sha256 : Bytes → Digest) (hplain : session.Plain)
    (hlive : session.config.demo = false) {event : SessionEvent}
    (hregular : ∀ frame backend, event = .drive (.frame (some frame) backend) → frame.Regular) :
    (session.step sha256 event).Whole := by
  rcases step_keeps sha256 hplain.replies event with ⟨driven, rfl⟩ | ⟨hsame, -⟩
  · refine h.stepDrive sha256 hlive ?_
    rintro frame backend rfl
    exact hregular frame backend rfl
  · unfold Whole at h ⊢
    rw [hsame.drive]
    exact h

/-- A step touches the encoder of no display but that of its frame. -/
theorem encoders_stepDrive (h : session.Whole) (sha256 : Bytes → Digest)
    (hlive : session.config.demo = false) {displayId : UInt32}
    (hother : ∀ frame, session.handledFrame event = some frame → frame.displayId ≠ displayId) :
    (session.stepDrive sha256 event).encoders displayId = session.encoders displayId := by
  have hmove := driveMove sha256 session event
  unfold Whole at h
  unfold handledFrame at hother
  generalize session.stepDrive sha256 event = next at hmove
  cases hmove with
  | stays => rfl
  | opened => rfl
  | starts => rfl
  | @offers _ _ _ _ _ _ msgs => cases msgs <;> rfl
  | @offersMore _ _ _ msgs => cases msgs.tail <;> rfl
  | ticked _ hdemo => exact absurd (hlive.symm.trans hdemo) Bool.false_ne_true
  | @framed frame _ hdrive =>
      have hne := hother frame (by simp [hdrive, hlive])
      exact encoders_sendFrames _ _ fun other hmem => List.mem_singleton.mp hmem ▸ hne
  | @resized frame _ _ hdrive =>
      have hne := hother frame (by simp [hdrive, hlive])
      exact Function.update_of_ne hne.symm _ _
  | @updated frame _ _ _ _ hdrive =>
      have hne := hother frame (by simp [hdrive])
      exact encoders_sendFrames _ _ fun other hmem => List.mem_singleton.mp hmem ▸ hne
  | packet => rfl
  | frameDone hdrive =>
      rw [hdrive] at h
      obtain rfl := h
      exact encoders_sendFrames _ _ fun _ hmem => absurd hmem List.not_mem_nil
  | leaves hleaves =>
      obtain ⟨_, _, _, _, rfl, -⟩ := hleaves.next_eq
      rfl

/-- What a live step goes on to encode has the announced size. -/
theorem fits_of_sendsFrames (hsized : session.Sized) (hwhole : session.Whole)
    (hlive : session.config.demo = false)
    (hlisted : ∀ frame backend, event = .frame (some frame) backend →
      sizeIn session.displays frame.displayId ≠ none ∧ frame.Regular)
    {frames : List RawFrame} {backend : RawFrame → Backend} {ptsStep : UInt64}
    (hsends : session.sendsFrames event = some (frames, backend, ptsStep)) {frame : RawFrame}
    (hframe : frame ∈ frames) : session.Fits frame ∧ frame.Regular := by
  have hplace := hsized.place
  unfold Whole at hwhole
  unfold sendsFrames at hsends
  split at hsends
  next hdrive =>
    rw [hlive] at hsends
    cases hsends
  next other _ hdrive =>
    rw [hlive] at hsends
    obtain ⟨hframes, hsize⟩ : frames = [other] ∧ ∀ display,
        session.displays.find? (fun display => display.id == other.displayId) = some display →
          display.width = other.width ∧ display.height = other.height := by
      cases hfind : session.displays.find? fun display => display.id == other.displayId with
      | none =>
          rw [hfind] at hsends
          cases hsends
          exact ⟨rfl, fun _ hnone => absurd hnone.symm (Option.some_ne_none _)⟩
      | some display =>
          rw [hfind] at hsends
          simp only [Bool.false_eq_true, if_false] at hsends
          split_ifs at hsends with hsize
          cases hsends
          refine ⟨rfl, ?_⟩
          rintro _ ⟨⟩
          rwa [not_or, not_not, not_not] at hsize
    rw [hframes, List.mem_singleton] at hframe
    subst hframe
    exact (hlisted frame _ rfl).imp_left fun hknown => fits_of_find hknown hsize
  next other _ _ _ _ hdrive =>
    rw [hdrive] at hplace hwhole
    cases hsends
    rw [List.mem_singleton] at hframe
    subst hframe
    exact ⟨hplace, hwhole⟩
  next packets rest _ ok _ _ _ hdrive =>
    rw [hdrive] at hwhole
    obtain ⟨-, hsome⟩ := Option.ite_none_right_eq_some.mp hsends
    cases hsome
    rw [hwhole] at hframe
    exact absurd hframe List.not_mem_nil
  next => cases hsends

/-- The encoder of a call has the size of its frame. -/
theorem size_of_call {frames : List RawFrame} {backend : RawFrame → Backend} {call : EncodeCall}
    (hsized : session.Sized) (hfits : ∀ frame ∈ frames, session.Fits frame)
    (hcall : call ∈ callsFor session.config backend session.pts session.encoders frames) :
    call.encoder.width = call.frame.width ∧ call.encoder.height = call.frame.height := by
  have hfrom := mem_callsFor hcall
  have hframe := hfits call.frame hfrom.frame
  rcases hfrom.encoder with hopen | ⟨opened, hmem, hid, hwidth, hheight⟩
  · have hsize := (hsized.encoders _ _ hopen).symm.trans hframe
    exact Prod.mk.inj (Option.some.inj hsize)
  · have hsame := hfits opened hmem
    unfold Fits at hsame hframe
    rw [hid, hframe, Option.some_inj, Prod.mk.injEq] at hsame
    exact ⟨hwidth.trans hsame.1.symm, hheight.trans hsame.2.symm⟩

end Session

/-! ## The whole session -/

namespace Channels

/-- What a live capture promises of a frame: its display is in the list, and it is
regular. -/
def LiveFrame (state : Channels) : ChannelEvent → Prop
  | .session (.drive (.frame (some frame) _)) =>
      sizeIn state.session.displays frame.displayId ≠ none ∧ frame.Regular
  | _ => True

/-- The end of a send has not come yet: the channel is full, or there is no error to
return. -/
def waits (state : Channels) : DriveEvent → Bool
  | .sent ok _ _ _ =>
      match state.session.sendsCtrl, state.session.sendsVideo with
      | some _, _ => if ok then state.closed || 32 ≤ state.ctrl.length else !state.closed
      | none, some _ => if ok then state.closed || state.video.isSome else !state.closed
      | none, none => false
  | _ => false

/-- The calls of the encoders in a step. -/
def encodeCalls (state : Channels) : ChannelEvent → List EncodeCall
  | .session (.drive event) =>
      if state.waits event then [] else state.session.encodeCalls event
  | _ => []

/-- The live frame that the session deals with in a step. -/
def handledFrame (state : Channels) : ChannelEvent → Option RawFrame
  | .session (.drive event) => state.session.handledFrame event
  | _ => none

variable (sha256 : Bytes → Digest)

/-- A step encodes frames with encoders of their sizes, so that none is too short or too
long, and touches the encoder of no other display. While there is a writer, the displays
that were queued last have the size of the frame too. -/
structure OwnSize (state : Channels) (event : ChannelEvent) : Prop where
  encoder : ∀ call ∈ state.encodeCalls event,
    call.encoder.width = call.frame.width ∧ call.encoder.height = call.frame.height ∧
      ∀ backend, call.encoder.encode backend call.frame.i420 = backend.encodes
  others : ∀ displayId,
    (∀ frame, state.handledFrame event = some frame → frame.displayId ≠ displayId) →
      (state.step sha256 event).session.encoders displayId = state.session.encoders displayId
  announced : state.closed = false → ∀ call ∈ state.encodeCalls event,
    announcedSize (lastDisplays (state.step sha256 event).queued) call.frame.displayId =
      some (call.frame.width, call.frame.height)

/-- What a live session keeps. -/
structure Live (state : Channels) : Prop where
  announcing : state.Announcing
  live : state.session.config.demo = false
  whole : state.session.Whole

variable {state : Channels} {event : ChannelEvent}

/-- An event of the session is taken as it is, or not at all. -/
theorem session_stepSession (state : Channels) (event : SessionEvent) :
    (state.stepSession sha256 event).session = state.session ∨
      (state.stepSession sha256 event).session = state.session.step sha256 event := by
  have hstep := sessionStep sha256 state event
  generalize state.stepSession sha256 event = next at hstep
  cases hstep with
  | waits => exact Or.inl rfl
  | _ => exact Or.inr rfl

/-- A live session has no ticks. -/
theorem stepDrive_tick (hlive : state.session.config.demo = false) (frames : List RawFrame)
    (backend : RawFrame → Backend) :
    state.session.stepDrive sha256 (.tick frames backend) = state.session := by
  unfold Session.stepDrive
  split <;> simp_all

/-- Without a demo a tick does nothing. -/
theorem step_tick (hlive : state.session.config.demo = false) (frames : List RawFrame)
    (backend : RawFrame → Backend) :
    state.step sha256 (.session (.drive (.tick frames backend))) = state := by
  simp [step, stepSession, advance, Session.step, stepDrive_tick sha256 hlive,
    Session.abortsWriter]

/-- A live frame is one of the capture. -/
theorem captured_of_liveFrame (hframe : state.LiveFrame event)
    (htick : ∀ frames backend, event ≠ .session (.drive (.tick frames backend))) :
    state.Captured event := by
  unfold Captured
  split
  next driven =>
    cases driven with
    | tick frames backend => exact absurd rfl (htick frames backend)
    | frame frame backend =>
        cases frame with
        | none => trivial
        | some frame => exact hframe.1
    | _ => trivial
  next => trivial

/-- The writer leaves the session alone. -/
theorem session_stepWriter (state : Channels) (event : WriterEvent) :
    (state.stepWriter event).session = state.session := by
  have hstep := writerStep state event
  generalize state.stepWriter event = next at hstep
  cases hstep <;> rfl

/-- Opening the capture is a step of the session, or none. -/
theorem session_openCapture (state : Channels) (capture : LiveCapture) (opens : Bool) :
    (state.openCapture sha256 capture opens).session = state.session ∨
      (state.openCapture sha256 capture opens).session =
        state.session.step sha256 (.drive (.captureOpened (some capture.displays))) := by
  unfold openCapture
  split
  · exact Or.inr rfl
  · exact Or.inl rfl

/-- A step of the session keeps what a live session keeps of it. -/
theorem Live.advance (h : state.Live) {event : SessionEvent} {next : Session}
    (hregular : ∀ frame backend, event = .drive (.frame (some frame) backend) → frame.Regular)
    (hnext : next = state.session ∨ next = state.session.step sha256 event) :
    next.config.demo = false ∧ next.Whole := by
  rcases hnext with rfl | rfl
  · exact ⟨h.live, h.whole⟩
  · rw [Session.config_step sha256 h.announcing.plain]
    exact ⟨h.live, h.whole.step sha256 h.announcing.plain h.live hregular⟩

/-- A step keeps a live session. -/
theorem Live.step (h : state.Live) (hframe : state.LiveFrame event) :
    (state.step sha256 event).Live := by
  by_cases htick : ∃ frames backend, event = .session (.drive (.tick frames backend))
  · obtain ⟨frames, backend, rfl⟩ := htick
    rw [step_tick sha256 h.live]
    exact h
  · have hannouncing := h.announcing.step sha256 (captured_of_liveFrame hframe
      fun frames backend heq => htick ⟨frames, backend, heq⟩)
    cases event with
    | opened capture opens =>
        obtain ⟨hlive, hwhole⟩ := h.advance sha256 (by rintro _ _ ⟨⟩)
          (session_openCapture sha256 state capture opens)
        exact ⟨hannouncing, hlive, hwhole⟩
    | session event =>
        have hregular : ∀ frame backend, event = .drive (.frame (some frame) backend) →
            frame.Regular := by
          rintro frame backend rfl
          exact hframe.2
        obtain ⟨hlive, hwhole⟩ := h.advance sha256 hregular
          (session_stepSession sha256 state event)
        exact ⟨hannouncing, hlive, hwhole⟩
    | writer event =>
        have hsame := session_stepWriter state event
        refine ⟨hannouncing, ?_, ?_⟩
        · rw [Channels.step, hsame]
          exact h.live
        · rw [Channels.step, hsame]
          exact h.whole

/-- A live session starts so. -/
theorem live_start {config : HostConfig} (hlive : config.demo = false) (input : InputMode)
    (opens : Bool) (demoDisplays : List DisplayInfo) (disk : Disk UInt8) :
    (start config input opens demoDisplays disk).Live where
  announcing := announcing_start config input opens demoDisplays disk
  live := by simp [start, Session.start, hlive]
  whole := by simp [start, Session.start, hlive, Session.Whole]

/-! ## What a step encodes -/

/-- The calls of a step are those of its session. -/
theorem mem_encodeCalls {call : EncodeCall} (hcall : call ∈ state.encodeCalls event) :
    ∃ driven, event = .session (.drive driven) ∧ state.waits driven = false ∧
      call ∈ state.session.encodeCalls driven := by
  unfold encodeCalls at hcall
  split at hcall
  next driven =>
    split_ifs at hcall with hwaits
    · exact absurd hcall List.not_mem_nil
    · exact ⟨driven, rfl, Bool.eq_false_iff.mpr hwaits, hcall⟩
  next => exact absurd hcall List.not_mem_nil

/-- The encoder of a call has the size of its frame. -/
theorem Live.encoder (h : state.Live) (hframe : state.LiveFrame event) {call : EncodeCall}
    (hcall : call ∈ state.encodeCalls event) :
    state.session.Fits call.frame ∧ call.encoder.width = call.frame.width ∧
      call.encoder.height = call.frame.height ∧
        ∀ backend, call.encoder.encode backend call.frame.i420 = backend.encodes := by
  obtain ⟨driven, rfl, -, hmem⟩ := mem_encodeCalls hcall
  obtain ⟨frames, backend, ptsStep, hsends, hfor⟩ := Session.mem_encodeCalls hmem
  have hcaptured : ∀ frame ∈ frames, state.session.Fits frame ∧ frame.Regular := by
    intro frame hmem
    refine Session.fits_of_sendsFrames h.announcing.sized h.whole h.live ?_ hsends hmem
    rintro frame backend rfl
    exact hframe
  have hfrom := mem_callsFor hfor
  obtain ⟨hfits, hregular⟩ := hcaptured call.frame hfrom.frame
  obtain ⟨hwidth, hheight⟩ := Session.size_of_call h.announcing.sized
    (fun frame hmem => (hcaptured frame hmem).1) hfor
  refine ⟨hfits, hwidth, hheight, fun backend => ?_⟩
  rw [Encoder.encode, hwidth, hheight, hregular.i420]
  exact if_neg (Nat.lt_irrefl _)

/-- A step leaves the encoders of the other displays alone. -/
theorem Live.others (h : state.Live) {displayId : UInt32}
    (hother : ∀ frame, state.handledFrame event = some frame → frame.displayId ≠ displayId) :
    (state.step sha256 event).session.encoders displayId = state.session.encoders displayId := by
  have hstep : ∀ sessionEvent, (∀ driven, sessionEvent = .drive driven →
      ∀ frame, state.session.handledFrame driven = some frame → frame.displayId ≠ displayId) →
        (state.session.step sha256 sessionEvent).encoders displayId =
          state.session.encoders displayId := by
    intro sessionEvent hdriven
    rcases Session.step_keeps sha256 h.announcing.plain.replies sessionEvent with
      ⟨driven, rfl⟩ | ⟨hsame, -⟩
    · exact Session.encoders_stepDrive h.whole sha256 h.live (hdriven driven rfl)
    · rw [hsame.encoders]
  cases event with
  | opened capture opens =>
      rw [Channels.step]
      rcases session_openCapture sha256 state capture opens with hsame | hnext
      · rw [hsame]
      · rw [hnext]
        refine hstep _ ?_
        rintro _ ⟨⟩ frame hframe
        cases hdrive : state.session.drive <;> simp [Session.handledFrame, hdrive] at hframe
  | session event =>
      rw [Channels.step]
      rcases session_stepSession sha256 state event with hsame | hnext
      · rw [hsame]
      · rw [hnext]
        refine hstep event ?_
        rintro driven rfl
        exact hother
  | writer event => rw [Channels.step, session_stepWriter]

/-- A frame that is encoded was announced before, or with the step. -/
theorem Live.lastDisplays_step (h : state.Live) (hopen : state.closed = false)
    {call : EncodeCall} (hcall : call ∈ state.encodeCalls event) :
    lastDisplays (state.step sha256 event).queued = some state.session.displays := by
  obtain ⟨driven, rfl, hwaits, hmem⟩ := mem_encodeCalls hcall
  obtain ⟨frames, backend, ptsStep, hsends, hfor⟩ := Session.mem_encodeCalls hmem
  have hannounced := h.announcing.announced hopen
  have hwhole := h.whole
  unfold Session.Announced at hannounced
  unfold Session.Whole at hwhole
  unfold Session.sendsFrames at hsends
  split at hsends
  next hdrive =>
    rw [h.live] at hsends
    cases hsends
  next hdrive =>
    rw [hdrive] at hannounced
    exact hannounced
  next frame ok io counter _ hdrive =>
    have hctrl : state.session.sendsCtrl = some (.displays state.session.displays) := by
      rw [Session.sendsCtrl, hdrive]
    rw [waits.eq_def, hctrl] at hwaits
    cases ok with
    | false =>
        have hclosed : (!state.closed) = false := hwaits
        rw [hopen] at hclosed
        cases hclosed
    | true =>
        have hfull : (state.closed || decide (32 ≤ state.ctrl.length)) = false := hwaits
        have hroom : state.ctrl.length < 32 := by simpa [hopen] using hfull
        simp only [Channels.step, stepSession, hctrl, sendCtrl, hopen, hroom, and_self, if_true]
        rw [lastDisplays_concat]
        rfl
  next packets rest _ ok _ _ _ hdrive =>
    rw [hdrive] at hwhole
    obtain ⟨-, hsome⟩ := Option.ite_none_right_eq_some.mp hsends
    cases hsome
    rw [hwhole, callsFor] at hfor
    exact absurd hfor List.not_mem_nil
  next => cases hsends

/-- A step uses encoders of the right size. -/
theorem Live.ownSize (h : state.Live) (hframe : state.LiveFrame event) :
    state.OwnSize sha256 event where
  encoder _ hcall := (h.encoder hframe hcall).2
  others _ hother := h.others sha256 hother
  announced hopen call hcall := by
    rw [h.lastDisplays_step sha256 hopen hcall]
    exact (h.encoder hframe hcall).1

/-- In every live session, whatever sizes its frames take, each picture is encoded at its
own size. -/
theorem pictures_own_size {config : HostConfig} (hlive : config.demo = false)
    (input : InputMode) (opens : Bool) (demoDisplays : List DisplayInfo) (disk : Disk UInt8)
    (events : List ChannelEvent)
    (hframes : Along (step sha256) LiveFrame (start config input opens demoDisplays disk)
      events) :
    Along (step sha256) (OwnSize sha256) (start config input opens demoDisplays disk) events :=
  along_of_along (step sha256) Live (fun _ _ h hframe => h.step sha256 hframe)
    (fun _ _ h hframe => h.ownSize sha256 hframe)
    (live_start hlive input opens demoDisplays disk) hframes

/-! ## A monitor that grows -/

/-- A picture of the monitor at twice its width. -/
def widePicture : RawFrame where
  displayId := 0
  width := 4
  height := 2
  i420 := [16, 16, 16, 16, 16, 16, 16, 16, 128, 128, 128, 128]

/-- The first picture is regular. -/
theorem regular_onePicture : onePicture.Regular := ⟨by decide, by decide, by decide⟩

/-- The wider picture is regular. -/
theorem regular_widePicture : widePicture.Regular := ⟨by decide, by decide, by decide⟩

/-- The monitor is widened after its first picture. -/
def widened : List ChannelEvent :=
  [.opened oneMonitor true, .session (.drive (.sent true quietIo 0 onePacket)),
    .session (.drive (.frame (some onePicture) onePacket)),
    .session (.drive (.sent true quietIo 0 onePacket)),
    .session (.drive (.frame (some widePicture) onePacket)),
    .session (.drive (.sent true quietIo 0 onePacket))]

/-- A monitor that becomes wider. -/
theorem pictures_own_size_widened :
    Along (step sampleSha256) (OwnSize sampleSha256) portalStart widened := by
  refine @pictures_own_size sampleSha256 portalConfig rfl .auto true []
    { files := fun _ => none } widened ?_
  refine ⟨trivial, trivial, ⟨?_, regular_onePicture⟩, trivial, ⟨?_, regular_widePicture⟩, trivial,
    trivial⟩
  · exact Option.some_ne_none ((2 : UInt32), (2 : UInt32))
  · exact Option.some_ne_none ((2 : UInt32), (2 : UInt32))

/-- The writer fails to write the displays and ends, and then the monitor is widened. -/
def widenedLate : List ChannelEvent :=
  [.opened oneMonitor true, .session (.drive (.sent true quietIo 0 onePacket)),
    .writer .pollCancel, .writer .pollVideo, .writer .pollCtrl, .writer (.wrote false),
    .writer .shutDown, .session (.drive (.frame (some widePicture) onePacket)),
    .session (.drive (.sent false quietIo 0 onePacket))]

/-- Behind the writer's end a picture is encoded whose size was never queued. -/
theorem widenedLate_unannounced :
    ¬ ∀ events, Along (step sampleSha256) LiveFrame portalStart events →
      Along (step sampleSha256)
        (fun state event => ∀ call ∈ state.encodeCalls event,
          announcedSize (lastDisplays (state.step sampleSha256 event).queued)
            call.frame.displayId = some (call.frame.width, call.frame.height))
        portalStart events := by
  intro hclaim
  have hframes : Along (step sampleSha256) LiveFrame portalStart widenedLate := by
    refine ⟨trivial, trivial, trivial, trivial, trivial, trivial, trivial,
      ⟨?_, regular_widePicture⟩, trivial, trivial⟩
    exact Option.some_ne_none ((2 : UInt32), (2 : UInt32))
  obtain ⟨-, -, -, -, -, -, -, -, hlast, -⟩ := hclaim widenedLate hframes
  have hsize := hlast _ List.mem_cons_self
  exact absurd hsize (by decide)

end Channels

end OmarchyConnect.Host
