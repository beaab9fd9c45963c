/-
# The counter of the frame loop

`drive_session` starts a timer with the period of a frame and counts on by that period
for each drawn picture, or by one for each live frame. The encoders and the client get
the value of the counter. A frame rate above a thousand has a period of no milliseconds,
which the timer refuses.
-/

import OmarchyConnect.Host.EncodeCalls
import OmarchyConnect.Host.RunHost

namespace OmarchyConnect.Host

open OmarchyConnect.Library.Wire OmarchyConnect.Library.Files OmarchyConnect.Library.Runs
open OmarchyConnect.Protocol

/-- The size of a display of the demo. -/
def demoWidth : UInt32 := 960
def demoHeight : UInt32 := 540

/-- The displays of the demo. -/
def demoDisplays : List DisplayInfo :=
  [{ id := 0, x := 0, y := 0, width := demoWidth, height := demoHeight, scalePercent := 100
     name := "eDP-1" },
    { id := 1, x := 960, y := 0, width := demoWidth, height := demoHeight, scalePercent := 150
      name := "HDMI-A-1" }]

/-- The period of the timer in milliseconds. -/
def HostConfig.tickPeriod (config : HostConfig) : UInt64 :=
  1000 / (max config.fps 1).toUInt64

namespace Session

/-- What the counter goes on by behind each picture of the demo or each live frame. -/
def increment (session : Session) : UInt64 :=
  if session.config.demo then session.config.tickPeriod else 1

/-- The packets of the frame that is being sent. -/
def waiting (session : Session) : List Message :=
  match session.drive with
  | .sendingVideo packets _ _ => packets
  | _ => []

/-- The packet that a step puts into the video channel. -/
def sendsPacket (session : Session) (event : DriveEvent) : List Message :=
  match event with
  | .sent true _ _ _ => session.waiting.take 1
  | _ => []

end Session

/-! ## The history -/

/-- A session with all calls of its encoders and all packets that were sent so far. -/
structure Clocked where
  session : Session
  calls : List EncodeCall := []
  sent : List Message := []

namespace Clocked

/-- A session that has encoded and sent nothing. -/
def start (config : HostConfig) (disk : Disk UInt8) : Clocked where
  session := Session.start config demoDisplays disk

/-- A step, with the calls of the encoders and the packets that are sent. -/
def step (sha256 : Bytes → Digest) (clocked : Clocked) (event : SessionEvent) : Clocked where
  session := clocked.session.step sha256 event
  calls := clocked.calls ++
    match event with
    | .drive driven => clocked.session.encodeCalls driven
    | _ => []
  sent := clocked.sent ++
    match event with
    | .drive driven => clocked.session.sendsPacket driven
    | _ => []

/-- The demo draws each of its displays once. -/
def Drawn (event : SessionEvent) : Prop :=
  ∀ frames backend, event = .drive (.tick frames backend) →
    frames.map RawFrame.displayId = demoDisplays.map DisplayInfo.id

/-- The counter does not wrap around. -/
def Unwrapped (clocked : Clocked) : Prop :=
  clocked.session.pts.toNat + clocked.session.increment.toNat < 2 ^ 64

end Clocked

/-- The values that an encoder gets increase. An encoder belongs to one display. -/
def Increasing (calls : List EncodeCall) : Prop :=
  calls.Pairwise fun earlier later =>
    earlier.frame.displayId = later.frame.displayId → earlier.pts < later.pts

/-- The times that are sent for a display do not go back. -/
def NeverBack (msgs : List Message) : Prop :=
  msgs.Pairwise fun earlier later => ∀ displayId first second keyframe keyframe' data data',
    earlier = .video displayId first keyframe data →
      later = .video displayId second keyframe' data' → first ≤ second

/-- The timer starts, and in each run in which the counter does not wrap around the
values are in order. -/
structure TimingSound (sha256 : Bytes → Digest) (config : HostConfig) : Prop where
  period : config.tickPeriod ≠ 0
  values : ∀ disk events,
    Along (Clocked.step sha256) (fun clocked event => Clocked.Drawn event ∧ clocked.Unwrapped)
        (.start config disk) events →
      Increasing (run (Clocked.step sha256) (.start config disk) events).calls ∧
        NeverBack (run (Clocked.step sha256) (.start config disk) events).sent

/-! ## The period -/

/-- A rate of zero counts as one. -/
theorem toNat_max_uint32_one (fps : UInt32) : (max fps 1).toNat = max fps.toNat 1 := by
  show (if fps ≤ 1 then 1 else fps).toNat = _
  split_ifs with hone
  · have hle := UInt32.le_iff_toNat_le.mp hone
    rw [UInt32.toNat_one] at hle ⊢
    omega
  · have hlt := UInt32.le_iff_toNat_le.not.mp hone
    rw [UInt32.toNat_one] at hlt
    omega

/-- The period in milliseconds. -/
theorem toNat_tickPeriod (config : HostConfig) :
    config.tickPeriod.toNat = 1000 / max config.fps.toNat 1 := by
  rw [HostConfig.tickPeriod, UInt64.toNat_div, UInt32.toNat_toUInt64, toNat_max_uint32_one]
  rfl

/-- The period is at least a millisecond just up to a thousand frames a second. -/
theorem tickPeriod_ne_zero_iff (config : HostConfig) :
    config.tickPeriod ≠ 0 ↔ config.fps ≤ 1000 := by
  have hthousand : (1000 : UInt32).toNat = 1000 := rfl
  rw [ne_eq, ← UInt64.toNat_inj, toNat_tickPeriod, UInt64.toNat_zero, Nat.div_eq_zero_iff,
    UInt32.le_iff_toNat_le, hthousand]
  omega

/-- A saved rate is at most 60. -/
theorem fps_video_le (settings : Settings) : settings.video.1 ≤ 60 := by
  show (if 1 ≤ (if settings.fps ≤ 60 then settings.fps else 60) then
    (if settings.fps ≤ 60 then settings.fps else 60) else 1) ≤ (60 : UInt32)
  split_ifs with hle _
  · exact hle
  · decide
  · decide
  · decide

/-- Only a flag can ask for more: the saved rate is clamped. -/
theorem fps_withSavedVideo_le_iff (json : SettingsJson) (config : RunHostConfig)
    (exists_ : Bool) (file : Option Bytes) :
    (config.withSavedVideo json exists_ file).fps ≤ 1000 ↔
      config.fps ≤ 1000 ∨ config.settingsPath.isSome ∧ exists_ = true ∧
        ∃ settings, Settings.load json file = .ok settings := by
  have hclamped : ∀ settings : Settings, settings.video.1 ≤ 1000 := fun settings =>
    UInt32.le_trans (fps_video_le settings) (by decide)
  rw [RunHostConfig.withSavedVideo]
  cases config.settingsPath with
  | none => simp
  | some path =>
      cases exists_ with
      | false => simp
      | true =>
          cases Settings.load json file with
          | error err => simp
          | ok settings => simp [hclamped settings]

/-! ## Messages -/

/-- The time that is sent does not go back where the counter does not. -/
theorem ptsMs_le {first second : UInt64} (hle : first ≤ second) : ptsMs first ≤ ptsMs second := by
  rw [UInt64.le_iff_toNat_le] at hle
  have hlast : (0xffffffff : UInt32).toNat = 2 ^ 32 - 1 := rfl
  unfold ptsMs
  split_ifs with hfirst hsecond hsecond
  · rw [UInt32.le_iff_toNat_le, UInt64.toNat_toUInt32, UInt64.toNat_toUInt32,
      Nat.mod_eq_of_lt hfirst, Nat.mod_eq_of_lt hsecond]
    exact hle
  · rw [UInt32.le_iff_toNat_le, hlast]
    have hlt := first.toUInt32.toNat_lt
    omega
  · omega
  · exact UInt32.le_refl _

/-- The messages of calls whose values increase do not go back. -/
theorem Increasing.neverBack {calls : List EncodeCall} (h : Increasing calls)
    (hmade : ∀ call ∈ calls, ∃ encoded, call.msgs = videoMessages call.frame call.pts encoded) :
    NeverBack (calls.flatMap EncodeCall.msgs) := by
  have hvideo : ∀ call ∈ calls, ∀ msg ∈ call.msgs, ∃ keyframe data,
      msg = .video call.frame.displayId (ptsMs call.pts) keyframe data := by
    intro call hcall msg hmsg
    obtain ⟨encoded, hmsgs⟩ := hmade call hcall
    rw [hmsgs, videoMessages, List.mem_map] at hmsg
    obtain ⟨packet, -, rfl⟩ := hmsg
    exact ⟨packet.keyframe, packet.data, rfl⟩
  refine List.pairwise_flatMap.mpr ⟨fun call hcall => ?_, ?_⟩
  · refine List.pairwise_of_forall_mem_list fun msg hmsg other hother => ?_
    obtain ⟨_, _, rfl⟩ := hvideo call hcall msg hmsg
    obtain ⟨_, _, rfl⟩ := hvideo call hcall other hother
    rintro _ _ _ _ _ _ _ ⟨⟩ ⟨⟩
    exact UInt32.le_refl _
  · refine h.imp_of_mem fun {earlier later} hearlier hlater hlt msg hmsg other hother => ?_
    obtain ⟨_, _, rfl⟩ := hvideo earlier hearlier msg hmsg
    obtain ⟨_, _, rfl⟩ := hvideo later hlater other hother
    intro displayId _ _ _ _ _ _ hmsg hother
    cases hmsg
    simp only [Message.video.injEq] at hother
    obtain ⟨hid, rfl, -⟩ := hother
    exact ptsMs_le (UInt64.le_of_lt (hlt hid.symm))

/-! ## The frames of one turn -/

namespace Session

/-- The frames are of different displays, and none of these was encoded at this value of
the counter. -/
structure Fresh (session : Session) (calls : List EncodeCall) (frames : List RawFrame) :
    Prop where
  nodup : (frames.map RawFrame.displayId).Nodup
  unseen : ∀ call ∈ calls, call.pts = session.pts →
    call.frame.displayId ∉ frames.map RawFrame.displayId

/-- What is known of the counter where `drive_session` waits. -/
def ClockedAt (session : Session) (calls : List EncodeCall) : Prop :=
  match session.drive with
  | .sendingVideo _ frames ptsStep =>
      (ptsStep ≠ 0 ∧ ptsStep ≤ session.increment) ∧ session.Fresh calls frames
  | .cancelling | .abortingReader | .returning _ | .listening => True
  | _ => ∀ call ∈ calls, call.pts < session.pts

/-- What sending frames makes of the calls before it. -/
structure TurnSent (calls made : List EncodeCall) (next : Session) : Prop where
  increasing : Increasing (calls ++ made)
  bound : ∀ call ∈ calls ++ made, call.pts ≤ next.pts
  place : next.ClockedAt (calls ++ made)
  waiting : next.waiting.Sublist (made.flatMap EncodeCall.msgs)

variable {session : Session} {calls : List EncodeCall} {frames : List RawFrame}

/-- Displays that are drawn once are fresh. -/
theorem Fresh.of_lt (hnodup : (frames.map RawFrame.displayId).Nodup)
    (hlt : ∀ call ∈ calls, call.pts < session.pts) : session.Fresh calls frames :=
  ⟨hnodup, fun call hcall heq => absurd (heq ▸ hlt call hcall) (UInt64.lt_irrefl _)⟩

/-- The first of the frames may be encoded. -/
theorem Fresh.concat {frame : RawFrame} (h : session.Fresh calls (frame :: frames))
    (hincreasing : Increasing calls) (hbound : ∀ call ∈ calls, call.pts ≤ session.pts)
    {call : EncodeCall} (hframe : call.frame = frame) (hpts : call.pts = session.pts) :
    Increasing (calls ++ [call]) ∧ (∀ other ∈ calls ++ [call], other.pts ≤ session.pts) ∧
      session.Fresh (calls ++ [call]) frames := by
  have hnodup := List.nodup_cons.mp h.nodup
  refine ⟨List.pairwise_append.mpr ⟨hincreasing, List.pairwise_singleton _ _, ?_⟩, ?_, hnodup.2, ?_⟩
  · intro earlier hearlier later hlater hid
    obtain rfl := List.mem_singleton.mp hlater
    have hle := hbound earlier hearlier
    rw [hpts]
    refine UInt64.lt_of_le_of_ne hle fun heq => h.unseen earlier hearlier heq ?_
    rw [hid, hframe]
    exact List.mem_cons_self
  · intro other hother
    rcases List.mem_append.mp hother with hmem | hmem
    · exact hbound other hmem
    · rw [List.mem_singleton.mp hmem, hpts]
      exact UInt64.le_refl _
  · intro other hother heq hmem
    rcases List.mem_append.mp hother with hearlier | hlast
    · exact h.unseen other hearlier heq (List.mem_cons_of_mem _ hmem)
    · rw [List.mem_singleton.mp hlast, hframe] at hmem
      exact hnodup.1 hmem

/-- Counting on leads to a later value. -/
theorem pts_lt_counted {ptsStep : UInt64} (hstep : ptsStep ≠ 0 ∧ ptsStep ≤ session.increment)
    (hwrap : session.pts.toNat + session.increment.toNat < 2 ^ 64) :
    session.pts < session.pts + ptsStep := by
  have hnat : ptsStep.toNat ≠ 0 := fun hzero => hstep.1 (UInt64.toNat_inj.mp hzero)
  have hle := UInt64.le_iff_toNat_le.mp hstep.2
  rw [UInt64.lt_iff_toNat_lt, UInt64.toNat_add, Nat.mod_eq_of_lt (by omega)]
  omega

/-- Sending frames keeps the order. The induction is on the frames that are left. -/
theorem turnSent (backend : RawFrame → Backend) {ptsStep : UInt64}
    (hincreasing : Increasing calls) (hbound : ∀ call ∈ calls, call.pts ≤ session.pts)
    (hfresh : session.Fresh calls frames) (hstep : ptsStep ≠ 0 ∧ ptsStep ≤ session.increment)
    (hwrap : session.pts.toNat + session.increment.toNat < 2 ^ 64) :
    TurnSent calls (callsFor session.config backend session.pts session.encoders frames)
      (sendFrames backend ptsStep session frames) := by
  induction frames generalizing session calls with
  | nil =>
      have hlt := pts_lt_counted hstep hwrap
      rw [callsFor, sendFrames]
      constructor
      case increasing => rwa [List.append_nil]
      case bound =>
        rw [List.append_nil]
        exact fun call hcall => UInt64.le_of_lt (UInt64.lt_of_le_of_lt (hbound call hcall) hlt)
      case place =>
        rw [List.append_nil]
        exact fun call hcall => UInt64.lt_of_le_of_lt (hbound call hcall) hlt
      case waiting => exact List.nil_sublist _
  | cons frame frames ih =>
      rw [callsFor, sendFrames]
      cases hused : usedEncoder session.config (backend frame) session.encoders frame with
      | none =>
          obtain ⟨err, hsend⟩ := @sendFrame_of_not_used _ _ _ _ session.pts hused
          rw [hsend]
          rw [← List.append_nil calls] at hincreasing hbound
          exact ⟨hincreasing, hbound, trivial, List.nil_sublist _⟩
      | some encoder =>
          rw [sendFrame_of_used hused]
          simp only
          have hconcat := fun msgs => @Fresh.concat session calls frames frame hfresh hincreasing
            hbound ⟨frame, encoder, session.pts, msgs⟩ rfl rfl
          cases encoder.encode (backend frame) frame.i420 with
          | error err =>
              obtain ⟨hnext, hlast, -⟩ := hconcat []
              exact ⟨hnext, hlast, trivial, List.nil_sublist _⟩
          | ok encoded =>
              cases encoded with
              | nil =>
                  obtain ⟨hnext, hlast, hrest⟩ := hconcat []
                  have hturn := @ih { session with
                    encoders := Function.update session.encoders frame.displayId (some encoder) }
                    (calls ++ [⟨frame, encoder, session.pts, []⟩]) hnext hlast
                    ⟨hrest.nodup, hrest.unseen⟩ hstep hwrap
                  have happend := List.append_assoc calls [⟨frame, encoder, session.pts, []⟩]
                    (callsFor session.config backend session.pts
                      (Function.update session.encoders frame.displayId (some encoder)) frames)
                  refine ⟨happend ▸ hturn.increasing, happend ▸ hturn.bound,
                    happend ▸ hturn.place, hturn.waiting⟩
              | cons packet packets =>
                  obtain ⟨hnext, hlast, hrest⟩ := hconcat
                    (videoMessages frame session.pts (packet :: packets))
                  refine ⟨hnext, hlast, ⟨hstep, hrest.nodup, hrest.unseen⟩, ?_⟩
                  rw [List.flatMap_singleton]
                  exact List.Sublist.refl _

/-! ## The other steps -/

/-- What a step that encodes nothing does to the counter and to the packets. -/
structure Idles (session : Session) (calls : List EncodeCall) (event : DriveEvent)
    (next : Session) : Prop where
  pts : next.pts = session.pts
  place : next.ClockedAt calls
  waiting : (session.sendsPacket event ++ next.waiting).Sublist session.waiting

/-- Nothing waits where no packet is being sent. -/
theorem waiting_of_not_sending (h : ¬ session.drive.Sending) : session.waiting = [] := by
  unfold waiting
  split
  next hdrive =>
    rw [hdrive] at h
    exact absurd trivial h
  next => rfl

/-- The packet that is sent is one of those that wait. -/
theorem sendsPacket_sublist (session : Session) (event : DriveEvent) :
    (session.sendsPacket event).Sublist session.waiting := by
  unfold sendsPacket
  split
  next => exact List.take_sublist 1 _
  next => exact List.nil_sublist _

/-- An offer leaves the counter alone. -/
theorem clockedAt_sendOffer (hlt : ∀ call ∈ calls, call.pts < session.pts) (msgs : List Message) :
    (session.sendOffer msgs).ClockedAt calls := by
  cases msgs <;> exact hlt

/-- No packet waits behind an offer. -/
theorem waiting_sendOffer (session : Session) (msgs : List Message) :
    (session.sendOffer msgs).waiting = [] := by
  cases msgs <;> rfl

/-- A step that sends no frames leaves the counter alone. -/
theorem idles (sha256 : Bytes → Digest) {event : DriveEvent} (hplace : session.ClockedAt calls)
    (hsends : session.sendsFrames event = none) :
    session.Idles calls event (session.stepDrive sha256 event) := by
  have hmove := driveMove sha256 session event
  have hpacket := sendsPacket_sublist session event
  unfold sendsFrames at hsends
  unfold ClockedAt at hplace
  generalize session.stepDrive sha256 event = next at hmove
  cases hmove with
  | stays hignores =>
      refine ⟨rfl, hplace, ?_⟩
      unfold sendsPacket at hpacket ⊢
      split
      next =>
        rw [waiting_of_not_sending hignores]
        exact List.Sublist.refl _
      next => exact List.Sublist.refl _
  | opened hdrive =>
      rw [hdrive] at hplace
      exact ⟨rfl, hplace, List.nil_sublist _⟩
  | starts hdrive =>
      rw [hdrive] at hplace
      exact ⟨rfl, clockedAt_sendOffer hplace [], (List.append_nil _).symm ▸ hpacket⟩
  | @offers _ _ _ _ _ xfer msgs hdrive =>
      rw [hdrive] at hplace
      refine
        ⟨by cases msgs <;> rfl, @clockedAt_sendOffer { session with xfer } calls hplace msgs, ?_⟩
      rw [waiting_sendOffer, List.append_nil]
      exact hpacket
  | @offersMore _ _ _ msgs hdrive =>
      rw [hdrive] at hplace
      refine ⟨by cases msgs.tail <;> rfl, clockedAt_sendOffer hplace _, ?_⟩
      rw [waiting_sendOffer, List.append_nil]
      exact hpacket
  | ticked hdrive hdemo => simp [hdrive, hdemo] at hsends
  | @framed frame _ hdrive hlive hsize =>
      cases hfind : session.displays.find? fun display => display.id == frame.displayId with
      | none => simp [hdrive, hlive, hfind] at hsends
      | some display => simp [hdrive, hlive, hfind, hsize display hfind] at hsends
  | resized hdrive =>
      rw [hdrive] at hplace
      exact ⟨rfl, hplace, List.nil_sublist _⟩
  | updated hdrive => simp [hdrive] at hsends
  | @packet packets frames ptsStep _ _ _ hdrive =>
      rw [hdrive] at hplace
      refine ⟨rfl, ⟨hplace.1, hplace.2.nodup, hplace.2.unseen⟩, ?_⟩
      have hwaiting : session.waiting = packets := by rw [waiting, hdrive]
      rw [sendsPacket, hwaiting]
      show (packets.take 1 ++ packets.tail).Sublist packets
      rw [← List.drop_one, List.take_append_drop]
  | frameDone hdrive hlast => simp [hdrive, hlast] at hsends
  | leaves hleaves =>
      obtain ⟨drive, _, _, _, rfl, hleaving, -⟩ := hleaves.next_eq
      cases drive <;> first
        | exact ⟨rfl, trivial, (List.append_nil _).symm ▸ hpacket⟩
        | exact absurd hleaving id

/-- The counter counts on by one at least. -/
theorem one_le_increment (hrate : session.config.tickPeriod ≠ 0) : 1 ≤ session.increment := by
  unfold increment
  split_ifs
  · have hnat : session.config.tickPeriod.toNat ≠ 0 := fun hzero =>
      hrate (UInt64.toNat_inj.mp hzero)
    rw [UInt64.le_iff_toNat_le, UInt64.toNat_one]
    omega
  · exact UInt64.le_refl 1

/-- Where frames are sent, they may be encoded at the value that the counter has. -/
theorem fresh_of_sendsFrames {event : DriveEvent} {backend : RawFrame → Backend}
    {ptsStep : UInt64} (hrate : session.config.tickPeriod ≠ 0)
    (hdrawn : ∀ frames backend, event = .tick frames backend →
      frames.map RawFrame.displayId = demoDisplays.map DisplayInfo.id)
    (hplace : session.ClockedAt calls)
    (hsends : session.sendsFrames event = some (frames, backend, ptsStep)) :
    session.Fresh calls frames ∧ ptsStep ≠ 0 ∧ ptsStep ≤ session.increment := by
  have hone : (1 : UInt64) ≠ 0 ∧ 1 ≤ session.increment := ⟨by decide, one_le_increment hrate⟩
  have hsingle : ∀ frame : RawFrame, ([frame].map RawFrame.displayId).Nodup := fun frame =>
    List.nodup_singleton _
  unfold ClockedAt at hplace
  unfold sendsFrames at hsends
  split at hsends
  next hdrive =>
    rw [hdrive] at hplace
    obtain ⟨hdemo, hsome⟩ := Option.ite_none_right_eq_some.mp hsends
    cases hsome
    refine ⟨Fresh.of_lt ?_ hplace, hrate, ?_⟩
    · rw [hdrawn _ _ rfl]
      decide
    · rw [increment, if_pos hdemo]
      exact UInt64.le_refl _
  next hdrive =>
    rw [hdrive] at hplace
    split_ifs at hsends
    split at hsends
    next =>
      cases hsends
      exact ⟨Fresh.of_lt (hsingle _) hplace, hone⟩
    next =>
      split_ifs at hsends
      cases hsends
      exact ⟨Fresh.of_lt (hsingle _) hplace, hone⟩
  next hdrive =>
    rw [hdrive] at hplace
    cases hsends
    exact ⟨Fresh.of_lt (hsingle _) hplace, hone⟩
  next hdrive =>
    rw [hdrive] at hplace
    obtain ⟨-, hsome⟩ := Option.ite_none_right_eq_some.mp hsends
    cases hsome
    exact ⟨hplace.2, hplace.1⟩
  next => cases hsends

/-! ## The steps of the others -/

/-- Replies leave the counter alone. -/
theorem pts_sendReplies (session : Session) (reader : Reader) (replies : List Message) :
    (session.sendReplies reader replies).pts = session.pts := by
  cases replies <;> rfl

/-- Taking a message leaves the counter alone. -/
theorem pts_takeMessage (sha256 : Bytes → Digest) (session : Session) (io : Io)
    (reader : Reader) (msg : Message) :
    (session.takeMessage sha256 io reader msg).pts = session.pts := by
  have hinput : ∀ msg, (session.applyInput msg).pts = session.pts := by
    intro msg
    unfold applyInput
    split <;> rfl
  unfold takeMessage
  split
  next => rfl
  next =>
    simp only
    split
    next => exact (pts_sendReplies _ _ _).trans (hinput _)
    next => exact hinput _

/-- Only `drive_session` moves the counter. -/
theorem pts_step (sha256 : Bytes → Digest) (session : Session) {event : SessionEvent}
    (hother : ∀ driven, event ≠ .drive driven) :
    (session.step sha256 event).pts = session.pts := by
  cases event with
  | drive driven => exact absurd rfl (hother driven)
  | reader moved =>
      simp only [step]
      cases session.reader with
      | none => rfl
      | some reader =>
          have hmove := readerMove sha256 session reader moved
          simp only
          generalize session.stepReader sha256 reader moved = next at hmove
          cases hmove with
          | takes => exact pts_takeMessage sha256 session _ reader _
          | replied => exact pts_sendReplies session reader _
          | _ => rfl
  | disconnect =>
      simp only [step]
      split <;> rfl
  | shutdown => rfl

end Session

/-! ## Whole runs -/

namespace Clocked

/-- What holds between two steps. -/
structure Clock (clocked : Clocked) : Prop where
  plain : clocked.session.Plain
  rate : clocked.session.config.tickPeriod ≠ 0
  increasing : Increasing clocked.calls
  bound : ∀ call ∈ clocked.calls, call.pts ≤ clocked.session.pts
  made : ∀ call ∈ clocked.calls,
    ∃ encoded, call.msgs = videoMessages call.frame call.pts encoded
  place : clocked.session.ClockedAt clocked.calls
  order : (clocked.sent ++ clocked.session.waiting).Sublist
    (clocked.calls.flatMap EncodeCall.msgs)

/-- At first the clock is right. -/
theorem clock_start {config : HostConfig} (hrate : config.tickPeriod ≠ 0) (disk : Disk UInt8) :
    (start config disk).Clock where
  plain := Session.plain_start config demoDisplays disk
  rate := by
    simp only [start, Session.start]
    split_ifs <;> exact hrate
  increasing := List.Pairwise.nil
  bound := fun _ hcall => absurd hcall List.not_mem_nil
  made := fun _ hcall => absurd hcall List.not_mem_nil
  place := by
    simp only [start, Session.start]
    split_ifs <;> exact fun _ hcall => absurd hcall List.not_mem_nil
  order := by
    simp only [start, Session.start]
    split_ifs <;> exact List.nil_sublist _

variable {clocked : Clocked}

/-- A step keeps the rate. -/
theorem Clock.drive_rate (h : clocked.Clock) (sha256 : Bytes → Digest) (event : DriveEvent) :
    (clocked.session.stepDrive sha256 event).config.tickPeriod ≠ 0 := by
  rw [Session.config_stepDrive sha256 clocked.session event]
  exact h.rate

/-- A turn of the frame loop that encodes nothing. -/
theorem Clock.driveIdle (h : clocked.Clock) (sha256 : Bytes → Digest) {event : DriveEvent}
    (hsends : clocked.session.sendsFrames event = none) :
    (clocked.step sha256 (.drive event)).Clock := by
  have hidle := Session.idles sha256 h.place hsends
  have hcalls : clocked.calls ++ clocked.session.encodeCalls event = clocked.calls := by
    rw [Session.encodeCalls, hsends, List.append_nil]
  constructor
  case plain => exact h.plain.step sha256 (.drive event)
  case rate => exact h.drive_rate sha256 event
  case increasing =>
    simp only [step, hcalls]
    exact h.increasing
  case bound =>
    simp only [step, Session.step, hcalls, hidle.pts]
    exact h.bound
  case made =>
    simp only [step, hcalls]
    exact h.made
  case place =>
    simp only [step, hcalls]
    exact hidle.place
  case order =>
    simp only [step, hcalls, List.append_assoc]
    exact (hidle.waiting.append_left clocked.sent).trans h.order

/-- A turn of the frame loop that sends frames. -/
theorem Clock.driveSends (h : clocked.Clock) (sha256 : Bytes → Digest) {event : DriveEvent}
    {frames : List RawFrame} {backend : RawFrame → Backend} {ptsStep : UInt64}
    (hdrawn : Drawn (.drive event)) (hwrap : clocked.Unwrapped)
    (hsends : clocked.session.sendsFrames event = some (frames, backend, ptsStep)) :
    (clocked.step sha256 (.drive event)).Clock := by
  obtain ⟨hfresh, hptsStep⟩ := Session.fresh_of_sendsFrames h.rate
    (fun frames backend heq => hdrawn frames backend (heq ▸ rfl)) h.place hsends
  have hturn := Session.turnSent backend h.increasing h.bound hfresh hptsStep hwrap
  have hcalls : clocked.session.encodeCalls event =
      callsFor clocked.session.config backend clocked.session.pts clocked.session.encoders
        frames := by
    rw [Session.encodeCalls, hsends]
  rw [← hcalls, ← Session.stepDrive_of_sendsFrames sha256 hsends] at hturn
  constructor
  case plain => exact h.plain.step sha256 (.drive event)
  case rate => exact h.drive_rate sha256 event
  case increasing => exact hturn.increasing
  case bound => exact hturn.bound
  case place => exact hturn.place
  case made =>
    intro call hcall
    rcases List.mem_append.mp hcall with hearlier | hnew
    · exact h.made call hearlier
    · simp only [hcalls] at hnew
      have hfrom := mem_callsFor hnew
      rw [hfrom.counter]
      exact hfrom.msgs
  case order =>
    simp only [step]
    rw [List.flatMap_append]
    refine List.Sublist.append ?_ hturn.waiting
    exact ((Session.sendsPacket_sublist clocked.session event).append_left _).trans h.order

/-- A step of the frame loop keeps the clock right. -/
theorem Clock.stepDrive (h : clocked.Clock) (sha256 : Bytes → Digest) {event : DriveEvent}
    (hdrawn : Drawn (.drive event)) (hwrap : clocked.Unwrapped) :
    (clocked.step sha256 (.drive event)).Clock := by
  cases hsends : clocked.session.sendsFrames event with
  | none => exact h.driveIdle sha256 hsends
  | some turn => exact h.driveSends sha256 hdrawn hwrap hsends

/-- A step of the others leaves the frame loop alone. -/
theorem Clock.congr (h : clocked.Clock) {next : Session} (hplain : next.Plain)
    (hsame : Session.SameDrive clocked.session next) (hpts : next.pts = clocked.session.pts) :
    Clock { clocked with session := next } := by
  have hincrement : next.increment = clocked.session.increment := by
    rw [Session.increment, hsame.config, Session.increment]
  constructor
  case plain => exact hplain
  case rate =>
    simp only [hsame.config]
    exact h.rate
  case increasing => exact h.increasing
  case bound =>
    simp only [hpts]
    exact h.bound
  case made => exact h.made
  case place =>
    have hplace := h.place
    unfold Session.ClockedAt at hplace ⊢
    simp only [hsame.drive, hpts, hincrement]
    cases hdrive : clocked.session.drive with
    | sendingVideo packets frames ptsStep =>
        rw [hdrive] at hplace
        exact ⟨hplace.1, hplace.2.nodup, hpts ▸ hplace.2.unseen⟩
    | _ =>
        rw [hdrive] at hplace
        exact hplace
  case order =>
    have hwaiting : next.waiting = clocked.session.waiting := by
      rw [Session.waiting, hsame.drive, Session.waiting]
    simp only [hwaiting]
    exact h.order

/-- Another step leaves the clock alone. -/
theorem Clock.others (h : clocked.Clock) (sha256 : Bytes → Digest) (event : SessionEvent)
    (hother : ∀ driven, event ≠ .drive driven) :
    Clock { clocked with session := clocked.session.step sha256 event } := by
  rcases Session.step_keeps sha256 h.plain.replies event with ⟨driven, heq⟩ | ⟨hsame, -⟩
  · exact absurd heq (hother driven)
  · exact h.congr (h.plain.step sha256 event) hsame
      (Session.pts_step sha256 clocked.session hother)

/-- A step keeps the clock right. -/
theorem Clock.step (h : clocked.Clock) (sha256 : Bytes → Digest) {event : SessionEvent}
    (hdrawn : Drawn event) (hwrap : clocked.Unwrapped) : (clocked.step sha256 event).Clock := by
  cases event with
  | drive driven => exact h.stepDrive sha256 hdrawn hwrap
  | reader moved => simpa [Clocked.step] using h.others sha256 (.reader moved) (by rintro _ ⟨⟩)
  | disconnect => simpa [Clocked.step] using h.others sha256 .disconnect (by rintro _ ⟨⟩)
  | shutdown => simpa [Clocked.step] using h.others sha256 .shutdown (by rintro _ ⟨⟩)

end Clocked

/-- The timing of a session is sound exactly when the frame rate that it runs with is a
flag of at most a thousand, or comes from a settings file. -/
theorem timing_sound_iff (sha256 : Bytes → Digest) (json : SettingsJson)
    (config : RunHostConfig) (exists_ : Bool) (file : Option Bytes) :
    TimingSound sha256 (config.withSavedVideo json exists_ file).toHostConfig ↔
      config.fps ≤ 1000 ∨ config.settingsPath.isSome ∧ exists_ = true ∧
        ∃ settings, Settings.load json file = .ok settings := by
  rw [← fps_withSavedVideo_le_iff, ← tickPeriod_ne_zero_iff]
  constructor
  · exact TimingSound.period
  · intro hrate
    refine ⟨hrate, fun disk events hevents => ?_⟩
    have hclock := invariant_run (Clocked.step sha256) Clocked.Clock
      (fun _ _ h hevent => h.step sha256 hevent.1 hevent.2) (Clocked.clock_start hrate disk)
      hevents
    refine ⟨hclock.increasing, ?_⟩
    exact (hclock.increasing.neverBack hclock.made).sublist
      ((List.sublist_append_left _ _).trans hclock.order)

/-- A host that is to draw two thousand pictures a second. -/
def fastConfig : RunHostConfig where
  demo := true
  fps := 2000
  bitrateKbps := 4000
  downloadDir := ["Downloads"]
  offerFile := none
  pin := none
  settingsPath := none

/-- `run_host` takes the rate, and the timer has no period. -/
theorem fastConfig_unsound :
    fastConfig.check = .ok () ∧ fastConfig.toHostConfig.tickPeriod = 0 ∧
      ¬ TimingSound sampleSha256 fastConfig.toHostConfig :=
  ⟨rfl, by decide, fun hsound => hsound.period (by decide)⟩

end OmarchyConnect.Host
