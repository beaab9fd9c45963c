/-
# The calls of the encoders

`sendFrame` hides which encoder it takes. `EncodeCall` is one call of `Encoder::encode`,
with the frame, the encoder and the value of the counter that go into it, and
`Session.encodeCalls` lists the calls that a step of `drive_session` makes.
-/

import OmarchyConnect.Host.AnnouncedSizes

namespace OmarchyConnect.Host

open OmarchyConnect.Library.Wire OmarchyConnect.Library.Files OmarchyConnect.Protocol

/-- A call of `Encoder::encode`, and the messages that are made of its answer. -/
structure EncodeCall where
  frame : RawFrame
  encoder : Encoder
  pts : UInt64
  msgs : List Message

/-! ## One frame -/

/-- The encoder that `send_frame` takes: the open one, or else one it opens. -/
def usedEncoder (config : HostConfig) (backend : Backend) (encoders : Encoders)
    (frame : RawFrame) : Option Encoder :=
  match encoders frame.displayId with
  | some encoder => some encoder
  | none =>
      match Encoder.openSize backend frame.width frame.height config.fps config.bitrateKbps with
      | .ok encoder => some encoder
      | .error _ => none

/-- The messages that carry the packets of a frame. -/
def videoMessages (frame : RawFrame) (pts : UInt64) (encoded : List EncodedFrame) :
    List Message :=
  encoded.map fun packet => .video frame.displayId (ptsMs pts) packet.keyframe packet.data

variable {config : HostConfig} {backend : Backend} {encoders : Encoders} {frame : RawFrame}
  {encoder : Encoder} {pts : UInt64}

/-- `send_frame` encodes with the encoder that it takes, and leaves it open. -/
theorem sendFrame_of_used (hused : usedEncoder config backend encoders frame = some encoder) :
    sendFrame config backend encoders frame pts =
      ((encoder.encode backend frame.i420).map (videoMessages frame pts),
        Function.update encoders frame.displayId (some encoder)) := by
  unfold usedEncoder at hused
  unfold sendFrame
  cases hopen : encoders frame.displayId with
  | some open_ =>
      rw [hopen] at hused
      obtain rfl := Option.some.inj hused
      have hkept : Function.update encoders frame.displayId (some open_) = encoders := by
        rw [← hopen, Function.update_eq_self]
      simp only [hkept]
      cases open_.encode backend frame.i420 <;> rfl
  | none =>
      rw [hopen] at hused
      cases hsize : Encoder.openSize backend frame.width frame.height config.fps
          config.bitrateKbps with
      | error err =>
          rw [hsize] at hused
          cases hused
      | ok opened =>
          rw [hsize] at hused
          obtain rfl := Option.some.inj hused
          simp only
          cases opened.encode backend frame.i420 <;> rfl

/-- Without an encoder `send_frame` fails and changes nothing. -/
theorem sendFrame_of_not_used (hused : usedEncoder config backend encoders frame = none) :
    ∃ err, sendFrame config backend encoders frame pts = (.error err, encoders) := by
  unfold usedEncoder at hused
  unfold sendFrame
  cases hopen : encoders frame.displayId with
  | some open_ =>
      rw [hopen] at hused
      cases hused
  | none =>
      rw [hopen] at hused
      cases hsize : Encoder.openSize backend frame.width frame.height config.fps
          config.bitrateKbps with
      | error err => exact ⟨err, rfl⟩
      | ok opened =>
          rw [hsize] at hused
          cases hused

/-- An encoder that `send_frame` takes was open, or has the size of the frame. -/
theorem usedEncoder_eq_some (hused : usedEncoder config backend encoders frame = some encoder) :
    encoders frame.displayId = some encoder ∨
      encoder.width = frame.width ∧ encoder.height = frame.height := by
  unfold usedEncoder at hused
  cases hopen : encoders frame.displayId with
  | some open_ =>
      rw [hopen] at hused
      exact Or.inl hused
  | none =>
      rw [hopen] at hused
      simp only at hused
      split at hused
      next opened hsize =>
        obtain rfl := Option.some.inj hused
        exact Or.inr (Session.openSize_ok hsize)
      next => cases hused

/-! ## The frames of one step -/

/-- The calls that sending the frames makes, up to the first answer that has to be sent
or that is an error. -/
def callsFor (config : HostConfig) (backend : RawFrame → Backend) (pts : UInt64) :
    Encoders → List RawFrame → List EncodeCall
  | _, [] => []
  | encoders, frame :: frames =>
      match usedEncoder config (backend frame) encoders frame with
      | none => []
      | some encoder =>
          match encoder.encode (backend frame) frame.i420 with
          | .error _ => [{ frame, encoder, pts, msgs := [] }]
          | .ok [] =>
              { frame, encoder, pts, msgs := [] } ::
                callsFor config backend pts
                  (Function.update encoders frame.displayId (some encoder)) frames
          | .ok encoded => [{ frame, encoder, pts, msgs := videoMessages frame pts encoded }]

/-- What holds of each call that sending the frames makes: it is of a frame that is sent,
with an encoder that was open for its display or is of its size. -/
structure EncodeCall.From (encoders : Encoders) (frames : List RawFrame) (pts : UInt64)
    (call : EncodeCall) : Prop where
  frame : call.frame ∈ frames
  counter : call.pts = pts
  encoder : encoders call.frame.displayId = some call.encoder ∨
    ∃ opened ∈ frames, opened.displayId = call.frame.displayId ∧
      call.encoder.width = opened.width ∧ call.encoder.height = opened.height
  msgs : ∃ encoded, call.msgs = videoMessages call.frame pts encoded

/-- A call comes from the encoder that was used. -/
theorem EncodeCall.from_of_used {backend : RawFrame → Backend} {frames : List RawFrame}
    (hused : usedEncoder config (backend frame) encoders frame = some encoder)
    (encoded : List EncodedFrame) :
    EncodeCall.From encoders (frame :: frames) pts
      { frame, encoder, pts, msgs := videoMessages frame pts encoded } where
  frame := List.mem_cons_self
  counter := rfl
  encoder := (usedEncoder_eq_some hused).imp_right fun hsize =>
    ⟨frame, List.mem_cons_self, rfl, hsize⟩
  msgs := ⟨encoded, rfl⟩

/-- What was open once the first frame was encoded. -/
theorem EncodeCall.From.tail {backend : RawFrame → Backend} {frames : List RawFrame}
    {call : EncodeCall} (hused : usedEncoder config (backend frame) encoders frame = some encoder)
    (h : call.From (Function.update encoders frame.displayId (some encoder)) frames pts) :
    call.From encoders (frame :: frames) pts where
  frame := List.mem_cons_of_mem frame h.frame
  counter := h.counter
  msgs := h.msgs
  encoder := by
    rcases h.encoder with hopen | ⟨opened, hmem, hid, hsize⟩
    · by_cases hid : call.frame.displayId = frame.displayId
      · rw [hid, Function.update_self] at hopen
        obtain rfl := Option.some.inj hopen
        rw [hid]
        exact (usedEncoder_eq_some hused).imp_right fun hsize =>
          ⟨frame, List.mem_cons_self, rfl, hsize⟩
      · rw [Function.update_of_ne hid] at hopen
        exact Or.inl hopen
    · exact Or.inr ⟨opened, List.mem_cons_of_mem frame hmem, hid, hsize⟩

/-- The calls for frames come from the encoders that they have. -/
theorem mem_callsFor {backend : RawFrame → Backend} {frames : List RawFrame} {call : EncodeCall}
    (hcall : call ∈ callsFor config backend pts encoders frames) :
    call.From encoders frames pts := by
  induction frames generalizing encoders with
  | nil => exact absurd hcall List.not_mem_nil
  | cons frame frames ih =>
      rw [callsFor] at hcall
      cases hused : usedEncoder config (backend frame) encoders frame with
      | none =>
          rw [hused] at hcall
          exact absurd hcall List.not_mem_nil
      | some encoder =>
          rw [hused] at hcall
          simp only at hcall
          split at hcall
          next =>
            obtain rfl := List.mem_singleton.mp hcall
            exact EncodeCall.from_of_used hused []
          next =>
            rcases List.mem_cons.mp hcall with rfl | hlater
            · exact EncodeCall.from_of_used hused []
            · exact (ih hlater).tail hused
          next encoded _ _ =>
            obtain rfl := List.mem_singleton.mp hcall
            exact EncodeCall.from_of_used hused encoded

namespace Session

/-- The frames that a step of `drive_session` goes on to encode, with what the libraries
answer and what is added to the counter behind them. -/
def sendsFrames (session : Session) (event : DriveEvent) :
    Option (List RawFrame × (RawFrame → Backend) × UInt64) :=
  match session.drive, event with
  | .selecting, .tick frames backend =>
      if session.config.demo then some (frames, backend, session.tickMillis) else none
  | .selecting, .frame (some frame) backend =>
      if session.config.demo then none
      else
        match session.displays.find? fun display => display.id == frame.displayId with
        | none => some ([frame], backend, 1)
        | some display =>
            if display.width ≠ frame.width ∨ display.height ≠ frame.height then none
            else some ([frame], backend, 1)
  | .sendingUpdate frame, .sent _ _ _ backend => some ([frame], backend, 1)
  | .sendingVideo packets frames ptsStep, .sent ok _ _ backend =>
      if (if ok then packets.tail else []).isEmpty then some (frames, backend, ptsStep) else none
  | _, _ => none

/-- The calls of the encoders in a step of `drive_session`. -/
def encodeCalls (session : Session) (event : DriveEvent) : List EncodeCall :=
  match session.sendsFrames event with
  | none => []
  | some (frames, backend, _) =>
      callsFor session.config backend session.pts session.encoders frames

variable {session : Session} {event : DriveEvent} {frames : List RawFrame}
  {backend : RawFrame → Backend} {ptsStep : UInt64}

/-- The calls of a step are those for its frames. -/
theorem mem_encodeCalls {call : EncodeCall} (hcall : call ∈ session.encodeCalls event) :
    ∃ frames backend ptsStep, session.sendsFrames event = some (frames, backend, ptsStep) ∧
      call ∈ callsFor session.config backend session.pts session.encoders frames := by
  unfold encodeCalls at hcall
  split at hcall
  next => exact absurd hcall List.not_mem_nil
  next frames backend ptsStep hsends => exact ⟨frames, backend, ptsStep, hsends, hcall⟩

/-- Such a step is a call of `send_frame` for each of the frames. -/
theorem stepDrive_of_sendsFrames (sha256 : Bytes → Digest)
    (hsends : session.sendsFrames event = some (frames, backend, ptsStep)) :
    session.stepDrive sha256 event = sendFrames backend ptsStep session frames := by
  unfold sendsFrames at hsends
  split at hsends
  next hdrive =>
    obtain ⟨hdemo, hsome⟩ := Option.ite_none_right_eq_some.mp hsends
    cases hsome
    simp [stepDrive, hdrive, hdemo]
  next hdrive =>
    split_ifs at hsends with hdemo
    split at hsends
    next hfind =>
      cases hsends
      simp [stepDrive, hdrive, hdemo, takeFrame, hfind]
    next display hfind =>
      split_ifs at hsends with hsize
      cases hsends
      simp [stepDrive, hdrive, hdemo, takeFrame, hfind, hsize]
  next hdrive =>
    cases hsends
    simp [stepDrive, hdrive]
  next packets _ _ ok _ _ _ hdrive =>
    obtain ⟨hlast, hsome⟩ := Option.ite_none_right_eq_some.mp hsends
    cases hsome
    rw [List.isEmpty_iff] at hlast
    simp [stepDrive, hdrive, hlast]
  next => cases hsends

end Session

end OmarchyConnect.Host
