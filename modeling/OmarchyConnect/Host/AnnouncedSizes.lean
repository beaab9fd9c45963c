/-
# The sizes of the frame loop

`drive_session` keeps a list of displays that a frame of another size changes. The open
encoders have the sizes of that list, and where pictures are sent the list is what was
queued last.
-/

import OmarchyConnect.Host.ChannelSteps

namespace OmarchyConnect.Host

open OmarchyConnect.Library.Wire OmarchyConnect.Library.Files OmarchyConnect.Library.Runs
open OmarchyConnect.Protocol

/-! ## Announced sizes -/

/-- The size that a message gives a display. -/
def sizeIn (displays : List DisplayInfo) (displayId : UInt32) : Option (UInt32 × UInt32) :=
  (displays.find? fun display => display.id == displayId).map fun display =>
    (display.width, display.height)

/-- The size that an announcement gives a display, if there was one. -/
def announcedSize (announced : Option (List DisplayInfo)) (displayId : UInt32) :
    Option (UInt32 × UInt32) :=
  announced.bind fun displays => sizeIn displays displayId

/-- The size of a display is that of the first with its id. -/
theorem sizeIn_cons (display : DisplayInfo) (displays : List DisplayInfo) (displayId : UInt32) :
    sizeIn (display :: displays) displayId =
      if display.id = displayId then some (display.width, display.height)
      else sizeIn displays displayId := by
  rw [sizeIn, List.find?_cons]
  split_ifs with hid
  · simp [hid]
  · have hne : (display.id == displayId) = false := by simpa using hid
    rw [hne, sizeIn]

/-- A resize gives the display its new size and leaves the others theirs. -/
theorem sizeIn_modify {displays : List DisplayInfo} {displayId : UInt32} (width height : UInt32)
    (hknown : sizeIn displays displayId ≠ none) (other : UInt32) :
    sizeIn (displays.modify (displays.findIdx fun display => display.id == displayId)
        fun display => { display with width, height }) other =
      if other = displayId then some (width, height) else sizeIn displays other := by
  induction displays with
  | nil => exact absurd rfl hknown
  | cons display displays ih =>
      by_cases hid : display.id = displayId
      · have hindex :
            (display :: displays).findIdx (fun display => display.id == displayId) = 0 := by
          simp [List.findIdx_cons, hid]
        rw [hindex, List.modify_zero_cons, sizeIn_cons, sizeIn_cons, hid]
        simp only [eq_comm]
        split_ifs <;> rfl
      · have hne : (display.id == displayId) = false := by simpa using hid
        have hindex : (display :: displays).findIdx (fun display => display.id == displayId) =
            displays.findIdx (fun display => display.id == displayId) + 1 := by
          rw [List.findIdx_cons, hne, cond_false]
        rw [sizeIn_cons, if_neg hid] at hknown
        rw [hindex, List.modify_succ_cons, sizeIn_cons, sizeIn_cons, ih hknown]
        split_ifs with hfirst hsame
        · exact absurd (hfirst.trans hsame) hid
        all_goals rfl

/-! ## The sizes of the frame loop -/

namespace Session

variable (session : Session)

/-- The frame has the size that its display has in the session's list. -/
def Fits (frame : RawFrame) : Prop :=
  sizeIn session.displays frame.displayId = some (frame.width, frame.height)

/-- The message is a picture of a display with an open encoder. -/
def Encoded (msg : Message) : Prop :=
  ∃ displayId encoder, displayOf msg = some displayId ∧ session.encoders displayId = some encoder

/-- What is known where `drive_session` waits. -/
def SizedAt : Drive → Prop
  | .openingCapture => ∀ displayId, session.encoders displayId = none
  | .sendingDisplays => ∀ displayId, session.encoders displayId = none
  | .sendingUpdate frame => session.Fits frame
  | .sendingVideo packets frames _ =>
      (∀ msg ∈ packets, session.Encoded msg) ∧ ∀ frame ∈ frames, session.Fits frame
  | _ => True

/-- The open encoders have the sizes of the session's list. -/
structure Sized : Prop where
  encoders : ∀ displayId encoder, session.encoders displayId = some encoder →
    sizeIn session.displays displayId = some (encoder.width, encoder.height)
  place : session.SizedAt session.drive

end Session

namespace Session

variable {session : Session}

/-- At first nothing is encoded. -/
theorem sized_start (config : HostConfig) (demoDisplays : List DisplayInfo) (disk : Disk UInt8) :
    (start config demoDisplays disk).Sized := by
  unfold start
  split_ifs
  · exact ⟨by rintro _ _ ⟨⟩, fun _ => rfl⟩
  · exact ⟨by rintro _ _ ⟨⟩, fun _ => rfl⟩

/-- An opened encoder has the size that it was opened with. -/
theorem openSize_ok {backend : Backend} {width height fps bitrateKbps : UInt32} {encoder : Encoder}
    (h : Encoder.openSize backend width height fps bitrateKbps = .ok encoder) :
    encoder.width = width ∧ encoder.height = height := by
  unfold Encoder.openSize at h
  split_ifs at h with hsize
  split at h
  next => cases h
  next =>
      cases h
      exact ⟨rfl, rfl⟩

/-- `send_frame` opens an encoder in the size of the frame, and answers with pictures of
the frame's display. -/
theorem sendFrame_sized {config : HostConfig} {backend : Backend} {encoders after : Encoders}
    {frame : RawFrame} {pts : UInt64} {result : Except String (List Message)}
    (h : sendFrame config backend encoders frame pts = (result, after)) :
    (after = encoders ∨ ∃ encoder, after = Function.update encoders frame.displayId (some encoder) ∧
        encoder.width = frame.width ∧ encoder.height = frame.height) ∧
      ∀ msgs, result = .ok msgs → after frame.displayId ≠ none ∧
        ∀ msg ∈ msgs, displayOf msg = some frame.displayId := by
  unfold sendFrame at h
  cases hopen : encoders frame.displayId with
  | some encoder =>
      simp only [hopen] at h
      split at h
      next =>
          cases h
          exact ⟨Or.inl rfl, by rintro _ ⟨⟩⟩
      next =>
          cases h
          refine ⟨Or.inl rfl, ?_⟩
          rintro _ ⟨⟩
          refine ⟨by simp [hopen], fun msg hmsg => ?_⟩
          obtain ⟨_, -, rfl⟩ := List.mem_map.mp hmsg
          rfl
  | none =>
      simp only [hopen] at h
      cases hsize : Encoder.openSize backend frame.width frame.height config.fps
          config.bitrateKbps with
      | error err =>
          simp only [hsize] at h
          cases h
          exact ⟨Or.inl rfl, by rintro _ ⟨⟩⟩
      | ok encoder =>
          simp only [hsize] at h
          have hupdate : ∃ other,
              Function.update encoders frame.displayId (some encoder) =
                Function.update encoders frame.displayId (some other) ∧
              other.width = frame.width ∧ other.height = frame.height :=
            ⟨encoder, rfl, openSize_ok hsize⟩
          split at h
          next =>
              cases h
              exact ⟨Or.inr hupdate, by rintro _ ⟨⟩⟩
          next =>
              cases h
              refine ⟨Or.inr hupdate, ?_⟩
              rintro _ ⟨⟩
              refine ⟨by simp, fun msg hmsg => ?_⟩
              obtain ⟨_, -, rfl⟩ := List.mem_map.mp hmsg
              rfl

/-- Frames of the listed sizes leave encoders of the listed sizes. -/
theorem sized_sendFrames (backend : RawFrame → Backend) (ptsStep : UInt64)
    (hencoders : ∀ displayId encoder, session.encoders displayId = some encoder →
      sizeIn session.displays displayId = some (encoder.width, encoder.height))
    {frames : List RawFrame} (hfits : ∀ frame ∈ frames, session.Fits frame) :
    (sendFrames backend ptsStep session frames).Sized := by
  induction frames generalizing session with
  | nil => exact ⟨hencoders, trivial⟩
  | cons frame frames ih =>
      have hframe := hfits frame List.mem_cons_self
      have hrest : ∀ other ∈ frames, session.Fits other :=
        fun other hother => hfits other (List.mem_cons_of_mem frame hother)
      cases hsend : sendFrame session.config (backend frame) session.encoders frame session.pts with
      | mk result encoders =>
          obtain ⟨hafter, hmsgs⟩ := sendFrame_sized hsend
          have hkept : ∀ displayId encoder, encoders displayId = some encoder →
              sizeIn session.displays displayId = some (encoder.width, encoder.height) := by
            intro displayId encoder hencoder
            rcases hafter with rfl | ⟨opened, rfl, hwidth, hheight⟩
            · exact hencoders displayId encoder hencoder
            · by_cases hid : displayId = frame.displayId
              · subst hid
                rw [Function.update_self] at hencoder
                cases hencoder
                rw [hwidth, hheight]
                exact hframe
              · rw [Function.update_of_ne hid] at hencoder
                exact hencoders displayId encoder hencoder
          cases result with
          | error err =>
              simp only [sendFrames, hsend]
              exact ⟨hkept, trivial⟩
          | ok packets =>
              obtain ⟨hopen, hdisplays⟩ := hmsgs packets rfl
              cases packets with
              | nil =>
                  simp only [sendFrames, hsend]
                  exact @ih { session with encoders } hkept hrest
              | cons packet packets =>
                  simp only [sendFrames, hsend]
                  refine ⟨hkept, fun msg hmsg => ?_, hrest⟩
                  obtain ⟨encoder, hencoder⟩ := Option.ne_none_iff_exists'.mp hopen
                  exact ⟨frame.displayId, encoder, hdisplays msg hmsg, hencoder⟩

/-- What the capture promises of an event: a live frame is of an announced display, and
the demo draws each display in its size. -/
def Captured (session : Session) : DriveEvent → Prop
  | .frame (some frame) _ => sizeIn session.displays frame.displayId ≠ none
  | .tick frames _ => ∀ frame ∈ frames, session.Fits frame
  | _ => True

/-- A frame of the size of its display fits. -/
theorem fits_of_find {frame : RawFrame}
    (hknown : sizeIn session.displays frame.displayId ≠ none)
    (hsize : ∀ display,
      session.displays.find? (fun display => display.id == frame.displayId) = some display →
        display.width = frame.width ∧ display.height = frame.height) : session.Fits frame := by
  unfold Fits sizeIn at *
  cases hfind : session.displays.find? fun display => display.id == frame.displayId with
  | none => exact absurd (by rw [hfind]; rfl) hknown
  | some display =>
      obtain ⟨hwidth, hheight⟩ := hsize display hfind
      rw [Option.map_some, hwidth, hheight]

/-- A session that is resized stays sized. -/
theorem sized_resize (h : session.Sized) {frame : RawFrame}
    (hknown : sizeIn session.displays frame.displayId ≠ none) : (session.resize frame).Sized := by
  constructor
  case encoders =>
    intro displayId encoder hencoder
    have hsizes := sizeIn_modify frame.width frame.height hknown displayId
    simp only [resize] at hencoder ⊢
    by_cases hid : displayId = frame.displayId
    · subst hid
      rw [Function.update_self] at hencoder
      cases hencoder
    · rw [Function.update_of_ne hid] at hencoder
      rw [hsizes, if_neg hid]
      exact h.encoders displayId encoder hencoder
  case place =>
    have hsizes := sizeIn_modify frame.width frame.height hknown frame.displayId
    rw [if_pos rfl] at hsizes
    exact hsizes

/-- A step of the frame loop keeps the session sized. -/
theorem Sized.stepDrive (h : session.Sized) (sha256 : Bytes → Digest) {event : DriveEvent}
    (hcaptured : session.Captured event) : (session.stepDrive sha256 event).Sized := by
  have hmove := driveMove sha256 session event
  have hplace := h.place
  generalize session.stepDrive sha256 event = next at hmove
  cases hmove with
  | stays => exact h
  | opened hdrive =>
      rw [hdrive] at hplace
      exact ⟨fun displayId _ hopen => by simp [hplace displayId] at hopen, hplace⟩
  | starts => exact ⟨h.encoders, trivial⟩
  | @offers _ _ _ _ _ _ msgs =>
      cases msgs with
      | nil => exact ⟨h.encoders, trivial⟩
      | cons => exact ⟨h.encoders, trivial⟩
  | @offersMore _ _ _ msgs =>
      cases msgs.tail with
      | nil => exact ⟨h.encoders, trivial⟩
      | cons => exact ⟨h.encoders, trivial⟩
  | ticked hdrive => exact sized_sendFrames _ _ h.encoders hcaptured
  | framed _ _ hsize =>
      have hfits := fits_of_find hcaptured hsize
      exact sized_sendFrames _ _ h.encoders fun frame hframe => List.mem_singleton.mp hframe ▸ hfits
  | resized => exact sized_resize h hcaptured
  | updated hdrive =>
      rw [hdrive] at hplace
      exact sized_sendFrames _ _ h.encoders fun frame hframe =>
        List.mem_singleton.mp hframe ▸ hplace
  | packet hdrive =>
      rw [hdrive] at hplace
      exact ⟨h.encoders, fun msg hmsg => hplace.1 msg (List.mem_of_mem_tail hmsg), hplace.2⟩
  | frameDone hdrive =>
      rw [hdrive] at hplace
      exact sized_sendFrames _ _ h.encoders hplace.2
  | leaves hleaves =>
      obtain ⟨drive, cancelled, xfer, reader, rfl, hleaving, -⟩ := hleaves.next_eq
      refine ⟨h.encoders, ?_⟩
      cases drive <;> trivial

/-- Whatever leaves the displays alone keeps the session sized. -/
theorem Sized.congr (h : session.Sized) {next : Session} (hsame : SameDrive session next) :
    next.Sized := by
  have hplace := h.place
  constructor
  case encoders =>
    rw [hsame.encoders, hsame.displays]
    exact h.encoders
  case place =>
    unfold SizedAt Encoded Fits at hplace ⊢
    rw [hsame.drive, hsame.encoders, hsame.displays]
    exact hplace

/-- The displays that were queued last are those of the session, where it has sent them. -/
def Announced (session : Session) (queued : List Message) : Prop :=
  match session.drive with
  | .sendingOffer _ | .selecting | .sendingVideo _ _ _ =>
      lastDisplays queued = some session.displays
  | _ => True

/-- Displays that were announced last are announced. -/
theorem announced_of_last {queued : List Message}
    (h : lastDisplays queued = some session.displays) : session.Announced queued := by
  unfold Announced
  split <;> trivial

/-- Frames that are sent leave the displays announced. -/
theorem Announced.sendFrames {queued : List Message}
    (h : lastDisplays queued = some session.displays) (backend : RawFrame → Backend)
    (ptsStep : UInt64) (frames : List RawFrame) :
    (Session.sendFrames backend ptsStep session frames).Announced queued := by
  have hsent := framesSent backend ptsStep session frames
  exact announced_of_last (by rw [hsent.displays]; exact h)

/-- An offer leaves the displays announced. -/
theorem Announced.sendOffer {queued : List Message}
    (h : lastDisplays queued = some session.displays) (msgs : List Message) :
    (session.sendOffer msgs).Announced queued := by
  cases msgs with
  | nil => exact announced_of_last h
  | cons => exact announced_of_last h

/-- A step of `drive_session` behind which the queue holds what it has sent. -/
theorem Announced.stepDrive (sha256 : Bytes → Digest) {event : DriveEvent}
    {queued : List Message} (h : session.Announced queued)
    (hopened : ∀ displays, event ≠ .captureOpened (some displays))
    (hsent : ∀ ok io counter backend, event = .sent ok io counter backend →
      ∀ displays, session.sendsCtrl = some (.displays displays) →
        lastDisplays queued = some displays) :
    (session.stepDrive sha256 event).Announced queued := by
  have hmove := driveMove sha256 session event
  generalize session.stepDrive sha256 event = next at hmove
  unfold Announced at h
  cases hmove with
  | stays => exact h
  | opened => exact absurd rfl (hopened _)
  | starts hdrive =>
      have hlast := hsent _ _ _ _ rfl session.displays (by rw [sendsCtrl, hdrive])
      exact Announced.sendOffer hlast []
  | @offers _ _ _ _ _ xfer msgs hdrive =>
      have hlast := hsent _ _ _ _ rfl session.displays (by rw [sendsCtrl, hdrive])
      exact @Announced.sendOffer { session with xfer } queued hlast msgs
  | offersMore hdrive =>
      rw [hdrive] at h
      exact Announced.sendOffer h _
  | ticked hdrive =>
      rw [hdrive] at h
      exact Announced.sendFrames h ..
  | framed hdrive =>
      rw [hdrive] at h
      exact Announced.sendFrames h ..
  | resized => trivial
  | updated hdrive =>
      have hlast := hsent _ _ _ _ rfl session.displays (by rw [sendsCtrl, hdrive])
      exact Announced.sendFrames hlast ..
  | packet hdrive =>
      rw [hdrive] at h
      exact announced_of_last h
  | frameDone hdrive =>
      rw [hdrive] at h
      exact Announced.sendFrames h ..
  | leaves hleaves =>
      obtain ⟨drive, cancelled, xfer, reader, rfl, hleaving, -⟩ := hleaves.next_eq
      cases drive <;> trivial

/-- Whatever leaves the displays alone leaves them announced. -/
theorem Announced.congr {queued : List Message} (h : session.Announced queued) {next : Session}
    (hsame : SameDrive session next) : next.Announced queued := by
  unfold Announced at h ⊢
  rw [hsame.drive, hsame.displays]
  exact h

/-- A step keeps the session sized. -/
theorem Sized.step (h : session.Sized) (hplain : session.Plain) (sha256 : Bytes → Digest)
    {event : SessionEvent} (hcaptured : ∀ driven, event = .drive driven → session.Captured driven) :
    (session.step sha256 event).Sized := by
  rcases step_keeps sha256 hplain.replies event with ⟨driven, rfl⟩ | ⟨hsame, -⟩
  · exact h.stepDrive sha256 (hcaptured driven rfl)
  · exact h.congr hsame

/-- A step keeps the displays announced. -/
theorem Announced.step (sha256 : Bytes → Digest) {event : SessionEvent} {queued : List Message}
    (h : session.Announced queued) (hplain : session.Plain)
    (hopened : ∀ displays, event ≠ .drive (.captureOpened (some displays)))
    (hsent : ∀ ok io counter backend, event = .drive (.sent ok io counter backend) →
      ∀ displays, session.sendsCtrl = some (.displays displays) →
        lastDisplays queued = some displays) :
    (session.step sha256 event).Announced queued := by
  rcases step_keeps sha256 hplain.replies event with ⟨driven, rfl⟩ | ⟨hsame, -⟩
  · refine h.stepDrive sha256 ?_ ?_
    · rintro displays rfl
      exact hopened displays rfl
    · rintro ok io counter backend rfl
      exact hsent ok io counter backend rfl
  · exact h.congr hsame

/-- Another message behind the announcement does no harm. -/
theorem Announced.concat {queued : List Message} (h : session.Announced queued) {msg : Message}
    (hmsg : announcement msg = none) : session.Announced (queued ++ [msg]) := by
  have hlast : lastDisplays (queued ++ [msg]) = lastDisplays queued := by
    rw [lastDisplays_concat, hmsg, Option.none_or]
  unfold Announced at h ⊢
  rwa [hlast]

/-- Where the displays are announced already, only file messages wait to be sent. -/
theorem Announced.sendsCtrl {queued : List Message} (h : session.Announced queued)
    (hplain : session.Plain) {msg : Message} (hmsg : session.sendsCtrl = some msg) :
    session.Announced (queued ++ [msg]) := by
  unfold Session.sendsCtrl at hmsg
  cases hdrive : session.drive with
  | sendingOffer msgs =>
      rw [hdrive] at hmsg
      exact h.concat (hplain.offer msgs hdrive msg (List.mem_of_mem_head? hmsg))
  | sendingDisplays =>
      unfold Announced
      rw [hdrive]
      trivial
  | sendingUpdate =>
      unfold Announced
      rw [hdrive]
      trivial
  | _ =>
      rw [hdrive] at hmsg
      cases hmsg

end Session

end OmarchyConnect.Host
