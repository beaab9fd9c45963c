/-
# What the steps of a session do

`DriveMove` says all that `drive_session` can do from one await to the next, and
`ReaderMove` all that the reader can do. What a step keeps is read off them.
-/

import OmarchyConnect.Host.Session

namespace OmarchyConnect.Host

open OmarchyConnect.Library.Wire OmarchyConnect.Library.Files OmarchyConnect.Protocol

/-- How far the session is, as far as the reader is concerned. -/
inductive Stage
  | before
  | during
  | returning
  | ended
  deriving DecidableEq

/-- The part of `drive_session` that a place is in. -/
def Drive.stage : Drive → Stage
  | .openingCapture => .before
  | .sendingDisplays => .before
  | .sendingOffer _ => .before
  | .returning _ => .returning
  | .listening => .ended
  | _ => .during

/-- The session awaits a send. -/
def Drive.Sending : Drive → Prop
  | .sendingDisplays | .sendingOffer _ | .sendingUpdate _ | .sendingVideo _ _ _ => True
  | _ => False

namespace Session

/-- The session behind its loop. -/
def Leaving : Drive → Prop
  | .cancelling | .abortingReader | .returning _ | .listening => True
  | _ => False

/-- A frame of another size: it is announced before it is encoded. -/
def resize (session : Session) (frame : RawFrame) : Session :=
  { session with
    displays := session.displays.modify
      (session.displays.findIdx fun display => display.id == frame.displayId)
      fun display => { display with width := frame.width, height := frame.height }
    encoders := Function.update session.encoders frame.displayId none
    drive := .sendingUpdate frame }

/-! ## The frame loop -/

/-- The session does not wait for the event, or takes it and waits on. -/
def Ignores (session : Session) : DriveEvent → Prop
  | .sent _ _ _ _ => ¬ session.drive.Sending
  | .tick _ _ => session.drive = .selecting → session.config.demo = false
  | .frame (some _) _ => session.drive = .selecting → session.config.demo = true
  | _ => True

/-- The ways out of the session. -/
inductive Leaves (session : Session) : DriveEvent → Session → Prop
  | givesUp {event : DriveEvent} {xfer : Transfers} {result : Except SessionError Unit}
      (hbefore : session.drive.stage = .before) :
      Leaves session event { session with xfer, drive := .returning result }
  | stops {event : DriveEvent} (hdrive : session.drive = .selecting)
      (hevent : event = .sawCancel ∨ ∃ backend, event = .frame none backend) :
      Leaves session event { session with drive := .cancelling }
  | cancels (hdrive : session.drive = .cancelling) :
      Leaves session .proceed { session with cancelled := true, drive := .abortingReader }
  | aborts (hdrive : session.drive = .abortingReader) :
      Leaves session .proceed
        { session with
          reader := session.reader.map fun reader => { reader with aborted := true }
          drive := .returning (.ok ()) }
  | returns {result : Except SessionError Unit} (hdrive : session.drive = .returning result) :
      Leaves session .proceed { session with drive := .listening }

/-- All that `drive_session` can do from one await to the next. -/
inductive DriveMove (sha256 : Bytes → Digest) (session : Session) : DriveEvent → Session → Prop
  | stays {event : DriveEvent} (hignores : session.Ignores event) :
      DriveMove sha256 session event session
  | opened {displays : List DisplayInfo} (hdrive : session.drive = .openingCapture) :
      DriveMove sha256 session (.captureOpened (some displays))
        { session with displays, drive := .sendingDisplays }
  | starts {io : Io} {counter : UInt32} {backend : RawFrame → Backend}
      (hdrive : session.drive = .sendingDisplays) :
      DriveMove sha256 session (.sent true io counter backend) (session.sendOffer [])
  | offers {io : Io} {counter id : UInt32} {backend : RawFrame → Backend} {path : Path}
      {xfer : Transfers} {msgs : List Message} (hdrive : session.drive = .sendingDisplays)
      (hoffer : offerFile sha256 io session.xfer id path = (.ok msgs, xfer)) :
      DriveMove sha256 session (.sent true io counter backend)
        ({ session with xfer }.sendOffer msgs)
  | offersMore {io : Io} {counter : UInt32} {backend : RawFrame → Backend} {msgs : List Message}
      (hdrive : session.drive = .sendingOffer msgs) :
      DriveMove sha256 session (.sent true io counter backend) (session.sendOffer msgs.tail)
  | ticked {frames : List RawFrame} {backend : RawFrame → Backend}
      (hdrive : session.drive = .selecting) (hdemo : session.config.demo = true) :
      DriveMove sha256 session (.tick frames backend)
        (session.sendFrames backend session.tickMillis frames)
  | framed {frame : RawFrame} {backend : RawFrame → Backend}
      (hdrive : session.drive = .selecting) (hlive : session.config.demo = false)
      (hsize : ∀ display,
        session.displays.find? (fun display => display.id == frame.displayId) = some display →
          display.width = frame.width ∧ display.height = frame.height) :
      DriveMove sha256 session (.frame (some frame) backend)
        (session.sendFrames backend 1 [frame])
  | resized {frame : RawFrame} {backend : RawFrame → Backend} {display : DisplayInfo}
      (hdrive : session.drive = .selecting)
      (hfind : session.displays.find? (fun display => display.id == frame.displayId) =
        some display)
      (hsize : ¬ (display.width = frame.width ∧ display.height = frame.height)) :
      DriveMove sha256 session (.frame (some frame) backend) (session.resize frame)
  | updated {frame : RawFrame} {ok : Bool} {io : Io} {counter : UInt32}
      {backend : RawFrame → Backend} (hdrive : session.drive = .sendingUpdate frame) :
      DriveMove sha256 session (.sent ok io counter backend)
        (session.sendFrames backend 1 [frame])
  | packet {packets : List Message} {frames : List RawFrame} {ptsStep : UInt64} {io : Io}
      {counter : UInt32} {backend : RawFrame → Backend}
      (hdrive : session.drive = .sendingVideo packets frames ptsStep)
      (hmore : packets.tail ≠ []) :
      DriveMove sha256 session (.sent true io counter backend)
        { session with drive := .sendingVideo packets.tail frames ptsStep }
  | frameDone {packets : List Message} {frames : List RawFrame} {ptsStep : UInt64} {ok : Bool}
      {io : Io} {counter : UInt32} {backend : RawFrame → Backend}
      (hdrive : session.drive = .sendingVideo packets frames ptsStep)
      (hlast : (if ok then packets.tail else []) = []) :
      DriveMove sha256 session (.sent ok io counter backend)
        (session.sendFrames backend ptsStep frames)
  | leaves {event : DriveEvent} {next : Session} (hleaves : Leaves session event next) :
      DriveMove sha256 session event next

variable (sha256 : Bytes → Digest) {session : Session}

/-- A frame of a display goes out, or its new size does. -/
theorem driveMove_takeFrame (hdrive : session.drive = .selecting)
    (hlive : session.config.demo = false) (frame : RawFrame) (backend : RawFrame → Backend) :
    DriveMove sha256 session (.frame (some frame) backend) (session.takeFrame backend frame) := by
  unfold takeFrame
  cases hfind : session.displays.find? fun display => display.id == frame.displayId with
  | none => exact .framed hdrive hlive fun display hdisplay => by simp [hfind] at hdisplay
  | some display =>
      simp only
      split_ifs with hsize
      · exact .resized hdrive hfind (by rwa [not_and_or])
      · refine .framed hdrive hlive fun other hother => ?_
        obtain rfl : display = other := Option.some.inj (hfind.symm.trans hother)
        rwa [not_or, not_not, not_not] at hsize

/-- Before the loop, a failure ends the session. -/
theorem driveMove_givesUp {event : DriveEvent} (hbefore : session.drive.stage = .before)
    (xfer : Transfers) (result : Except SessionError Unit) :
    DriveMove sha256 session event { session with xfer, drive := .returning result } :=
  .leaves (.givesUp hbefore)

/-- `stepDrive` does nothing else. -/
theorem driveMove (session : Session) (event : DriveEvent) :
    DriveMove sha256 session event (session.stepDrive sha256 event) := by
  unfold stepDrive
  split
  next hdrive =>
      split_ifs
      · exact driveMove_givesUp sha256 (by rw [hdrive]; rfl) session.xfer _
      · exact .stays trivial
  next hdrive => exact .opened hdrive
  next hdrive => exact driveMove_givesUp sha256 (by rw [hdrive]; rfl) session.xfer _
  next hdrive => exact driveMove_givesUp sha256 (by rw [hdrive]; rfl) session.xfer _
  next hdrive =>
      split
      next => exact .starts hdrive
      next =>
          split
          next => exact driveMove_givesUp sha256 (by rw [hdrive]; rfl) _ _
          next hoffer => exact .offers hdrive hoffer
  next hdrive => exact driveMove_givesUp sha256 (by rw [hdrive]; rfl) session.xfer _
  next hdrive => exact .offersMore hdrive
  next hdrive =>
      split_ifs
      · exact .leaves (.stops hdrive (Or.inl rfl))
      · exact .stays trivial
  next hdrive =>
      split_ifs with hdemo
      · exact .ticked hdrive hdemo
      · exact .stays fun _ => Bool.eq_false_iff.mpr hdemo
  next hdrive =>
      split_ifs
      · exact .stays trivial
      · exact .leaves (.stops hdrive (Or.inr ⟨_, rfl⟩))
  next frame backend hdrive =>
      split_ifs with hdemo
      · exact .stays fun _ => hdemo
      · exact driveMove_takeFrame sha256 hdrive (Bool.eq_false_iff.mpr hdemo) frame backend
  next hdrive => exact .updated hdrive
  next packets frames ptsStep ok io counter backend hdrive =>
      split
      next hlast => exact .frameDone hdrive hlast
      next hmore =>
          cases ok with
          | true => exact .packet hdrive hmore
          | false => exact absurd rfl hmore
  next hdrive => exact .leaves (.cancels hdrive)
  next hdrive => exact .leaves (.aborts hdrive)
  next hdrive => exact .leaves (.returns hdrive)
  next =>
      -- The session waits for nothing of the kind.
      refine .stays ?_
      unfold Ignores
      split
      next => cases ‹Bool› <;> cases hdrive : session.drive <;> grind [Drive.Sending]
      next => grind
      next => grind
      next => trivial

/-- On its way out the session changes little. -/
theorem Leaves.next_eq {event : DriveEvent} {next : Session} (h : Leaves session event next) :
    ∃ drive cancelled xfer reader, next = { session with drive, cancelled, xfer, reader } ∧
      Leaving drive ∧ ∀ moved ∈ reader, ∃ before ∈ session.reader, moved.place = before.place := by
  have hsame : ∀ moved ∈ session.reader,
      ∃ before ∈ session.reader, moved.place = before.place :=
    fun moved hmoved => ⟨moved, hmoved, rfl⟩
  cases h with
  | givesUp => exact ⟨_, _, _, _, rfl, trivial, hsame⟩
  | stops => exact ⟨_, _, _, _, rfl, trivial, hsame⟩
  | cancels => exact ⟨_, _, _, _, rfl, trivial, hsame⟩
  | returns => exact ⟨_, _, _, _, rfl, trivial, hsame⟩
  | aborts =>
      refine ⟨_, _, _, _, rfl, trivial, fun moved hmoved => ?_⟩
      obtain ⟨before, hbefore, rfl⟩ := Option.map_eq_some_iff.mp hmoved
      exact ⟨before, hbefore, rfl⟩

/-- Sending frames leaves the displays and the reader alone, and does not wait in `ctrl`. -/
structure FramesSent (session next : Session) : Prop where
  displays : next.displays = session.displays
  reader : next.reader = session.reader
  config : next.config = session.config
  applied : next.applied = session.applied
  handled : next.handled = session.handled
  place : next.drive = .selecting ∨ (∃ result, next.drive = .returning result) ∨
    ∃ packets frames ptsStep, next.drive = .sendingVideo packets frames ptsStep

/-- What is sent of some frames changes nothing but the place and the count. -/
theorem framesSent (backend : RawFrame → Backend) (ptsStep : UInt64) (session : Session)
    (frames : List RawFrame) : FramesSent session (sendFrames backend ptsStep session frames) := by
  induction frames generalizing session with
  | nil => exact ⟨rfl, rfl, rfl, rfl, rfl, Or.inl rfl⟩
  | cons frame frames ih =>
      cases hsend : sendFrame session.config (backend frame) session.encoders frame session.pts with
      | mk result encoders =>
          cases result with
          | error err =>
              simp only [sendFrames, hsend]
              exact ⟨rfl, rfl, rfl, rfl, rfl, Or.inr (Or.inl ⟨_, rfl⟩)⟩
          | ok packets =>
              cases packets with
              | nil =>
                  simp only [sendFrames, hsend]
                  have hrest := ih { session with encoders }
                  exact ⟨hrest.displays, hrest.reader, hrest.config, hrest.applied, hrest.handled,
                    hrest.place⟩
              | cons packet packets =>
                  simp only [sendFrames, hsend]
                  exact ⟨rfl, rfl, rfl, rfl, rfl, Or.inr (Or.inr ⟨_, _, _, rfl⟩)⟩

/-! ## The reader -/

/-- All that the reader can do from one await to the next. -/
inductive ReaderMove (session : Session) (reader : Reader) : ReaderEvent → Session → Prop
  | stays {event : ReaderEvent} : ReaderMove session reader event session
  | polled (haborted : reader.aborted = false) :
      ReaderMove session reader .polled
        { session with reader := some { reader with polled := true } }
  | suspended :
      ReaderMove session reader .suspended
        { session with reader := some { reader with polled := false } }
  | ends {event : ReaderEvent} {cancelled : Bool} :
      ReaderMove session reader event ({ session with cancelled }.endReader reader)
  | takes {msg : Message} {io : Io} (hpolled : reader.polled = true)
      (hplace : reader.place = .selecting) :
      ReaderMove session reader (.incoming (.ok msg) io)
        (session.takeMessage sha256 io reader msg)
  | answered {ok : Bool} (hpolled : reader.polled = true)
      (hplace : reader.place = .sendingPong) :
      ReaderMove session reader (.sent ok) (session.moveReader reader .selecting)
  | replied {replies : List Message} (hpolled : reader.polled = true)
      (hplace : reader.place = .sendingReplies replies) :
      ReaderMove session reader (.sent true) (session.sendReplies reader replies.tail)

/-- However the reader ends, it aborts and tells the session. -/
theorem readerMove_ends {reader : Reader} (event : ReaderEvent) (cancelled : Bool) :
    ReaderMove sha256 session reader event ({ session with cancelled }.endReader reader) := .ends

/-- `stepReader` does nothing else. -/
theorem readerMove (session : Session) (reader : Reader) (event : ReaderEvent) :
    ReaderMove sha256 session reader event (session.stepReader sha256 reader event) := by
  unfold stepReader
  by_cases hpolled : reader.polled = true
  · rw [if_pos hpolled]
    split
    next =>
        split_ifs
        · exact readerMove_ends sha256 _ session.cancelled
        · exact .suspended
    next =>
        split_ifs
        · exact readerMove_ends sha256 _ session.cancelled
        · exact .stays
    next => exact .ends
    next hplace => exact .takes hpolled hplace
    next hplace => exact .answered hpolled hplace
    next hplace => exact .replied hpolled hplace
    next => exact readerMove_ends sha256 _ session.cancelled
    next => exact .stays
  · rw [if_neg hpolled]
    split
    · split_ifs with hfinished haborted
      · exact .stays
      · exact readerMove_ends sha256 _ session.cancelled
      · exact .polled (Bool.eq_false_iff.mpr haborted)
    · exact .stays

end Session

end OmarchyConnect.Host
