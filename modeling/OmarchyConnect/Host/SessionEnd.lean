/-
# What the reader does after the session

A session that ends by leaving its loop aborts its reader. One that ends because an
encoder fails does not: the reader's handle is dropped and the task runs on. The
results say exactly which steps leave a reader behind that can still take messages.
-/

import OmarchyConnect.Host.SessionSteps

namespace OmarchyConnect.Host

open OmarchyConnect.Library.Wire OmarchyConnect.Library.Files OmarchyConnect.Library.Runs
open OmarchyConnect.Protocol

variable {sha256 : Bytes → Digest}

/-- A reader task that has not ended. -/
def Reader.Live (reader : Reader) : Prop := reader.place ≠ .finished

/-! ## The condition -/

namespace Session

variable (session : Session)

/-- One of the frames that are sent up to the next await finds no encoder, or one
that fails. -/
def FramesFail (backend : RawFrame → Backend) (session : Session) : List RawFrame → Prop
  | [] => False
  | frame :: frames =>
      match sendFrame session.config (backend frame) session.encoders frame session.pts with
      | (.error _, _) => True
      | (.ok [], encoders) => FramesFail backend { session with encoders } frames
      | (.ok _, _) => False

/-- A frame of another size than its display was announced with. -/
def Resized (frame : RawFrame) : Prop :=
  ∃ display ∈ session.displays.find? fun display => display.id == frame.displayId,
    display.width ≠ frame.width ∨ display.height ≠ frame.height

/-- The step runs into the `?` behind `send_frame`. -/
inductive EncoderFails : DriveEvent → Prop
  | tick {frames : List RawFrame} {backend : RawFrame → Backend}
      (hdrive : session.drive = .selecting) (hdemo : session.config.demo = true)
      (hfail : session.FramesFail backend frames) : EncoderFails (.tick frames backend)
  | frame {frame : RawFrame} {backend : RawFrame → Backend}
      (hdrive : session.drive = .selecting) (hlive : session.config.demo = false)
      (hsize : ¬ session.Resized frame) (hfail : session.FramesFail backend [frame]) :
      EncoderFails (.frame (some frame) backend)
  | update {frame : RawFrame} {ok : Bool} {io : Io} {counter : UInt32}
      {backend : RawFrame → Backend} (hdrive : session.drive = .sendingUpdate frame)
      (hfail : session.FramesFail backend [frame]) :
      EncoderFails (.sent ok io counter backend)
  | video {packets : List Message} {frames : List RawFrame} {ptsStep : UInt64} {ok : Bool}
      {io : Io} {counter : UInt32} {backend : RawFrame → Backend}
      (hdrive : session.drive = .sendingVideo packets frames ptsStep)
      (hlast : (if ok then packets.tail else []) = [])
      (hfail : session.FramesFail backend frames) :
      EncoderFails (.sent ok io counter backend)

/-- The step leaves no live reader behind: no encoder fails while the reader is live,
and `run_host` goes back to listening while no thread runs the reader. -/
def EndsReader : SessionEvent → Prop
  | .drive event =>
      (session.EncoderFails event → ∀ reader ∈ session.reader, ¬ reader.Live) ∧
        (event = .proceed → session.drive.stage = .returning →
          ∀ reader ∈ session.reader, reader.Live → reader.polled = false)
  | _ => True

end Session

/-- An event after which the session's reader has seen that it ends, if the session is over. -/
def EndsReader (sessions : List Session) : HostLoopEvent → Prop
  | .authenticated _ _ _ => True
  | .session index event => ∀ session ∈ sessions[index]?, session.EndsReader event

/-- Once a session is over, nothing more of its client is passed to the injector or
to the file transfers. -/
def QuietAfterEnd (sha256 : Bytes → Digest) (events : List HostLoopEvent) : Prop :=
  ∀ (front back : List HostLoopEvent) (index : ℕ) (session : Session), events = front ++ back →
    (run (stepHostLoop sha256) [] front)[index]? = some session → session.drive = .listening →
      ∃ later : Session, (run (stepHostLoop sha256) [] events)[index]? = some later ∧
        later.applied = session.applied ∧ later.handled = session.handled

/-! ## What a step does -/

namespace Session

/-- The parts of a session that sending frames leaves alone. -/
structure SameReader (session next : Session) : Prop where
  reader : next.reader = session.reader
  applied : next.applied = session.applied
  handled : next.handled = session.handled

/-- Nothing sent leaves the parts alone. -/
theorem SameReader.refl (session : Session) : SameReader session session := ⟨rfl, rfl, rfl⟩

/-- Frames that are sent leave the reader alone. -/
theorem FramesSent.sameReader {session next : Session} (h : FramesSent session next) :
    SameReader session next := ⟨h.reader, h.applied, h.handled⟩

/-- Sending frames ends in the loop unless an encoder fails. -/
theorem sendFrames_stage (backend : RawFrame → Backend) (ptsStep : UInt64) (session : Session)
    (frames : List RawFrame) :
    session.FramesFail backend frames ∧
        (sendFrames backend ptsStep session frames).drive.stage = .returning ∨
      ¬ session.FramesFail backend frames ∧
        (sendFrames backend ptsStep session frames).drive.stage = .during := by
  induction frames generalizing session with
  | nil => exact Or.inr ⟨id, rfl⟩
  | cons frame frames ih =>
      cases hsend : sendFrame session.config (backend frame) session.encoders frame session.pts with
      | mk result encoders =>
          cases result with
          | error err =>
              simp only [sendFrames, FramesFail, hsend]
              exact Or.inl ⟨trivial, rfl⟩
          | ok packets =>
              cases packets with
              | nil =>
                  simp only [sendFrames, FramesFail, hsend]
                  exact ih { session with encoders }
              | cons packet packets =>
                  simp only [sendFrames, FramesFail, hsend]
                  exact Or.inr ⟨id, rfl⟩

/-- What a step of `drive_session` does to the reader. -/
inductive DriveStep (session next : Session) (event : DriveEvent) : Prop
  | stays (hstage : next.drive.stage = session.drive.stage) (hreader : next.reader = session.reader)
      (hfine : ¬ session.EncoderFails event)
  | spawns (hbefore : session.drive.stage = .before) (hafter : next.drive.stage = .during)
      (hreader : next.reader = some {})
  | leavesBefore (hbefore : session.drive.stage = .before)
      (hafter : next.drive.stage = .returning) (hreader : next.reader = session.reader)
  | fails (hfail : session.EncoderFails event) (hbefore : session.drive.stage = .during)
      (hafter : next.drive.stage = .returning) (hreader : next.reader = session.reader)
  | aborts (hproceed : event = .proceed) (hbefore : session.drive.stage = .during)
      (hafter : next.drive.stage = .returning)
      (hreader : next.reader = session.reader.map fun reader => { reader with aborted := true })
  | returns (hproceed : event = .proceed) (hbefore : session.drive.stage = .returning)
      (hafter : next.drive.stage = .ended) (hreader : next.reader = session.reader)

/-- What sending the offer does: the loop starts, or the session gives up. -/
theorem sendOffer_cases (session : Session) (msgs : List Message) :
    (session.sendOffer msgs).applied = session.applied ∧
      (session.sendOffer msgs).handled = session.handled ∧
        ((session.sendOffer msgs).drive.stage = .before ∧
            (session.sendOffer msgs).reader = session.reader ∨
          (session.sendOffer msgs).drive.stage = .during ∧
            (session.sendOffer msgs).reader = some {}) := by
  cases msgs with
  | nil => exact ⟨rfl, rfl, Or.inr ⟨rfl, rfl⟩⟩
  | cons msg msgs => exact ⟨rfl, rfl, Or.inl ⟨rfl, rfl⟩⟩

/-- A session that waits outside its loop and its sends runs into no encoder. -/
theorem not_encoderFails {session : Session} {event : DriveEvent}
    (h : session.drive.stage ≠ .during) : ¬ session.EncoderFails event := by
  intro hfails
  cases hfails with
  | tick hdrive => exact h (by rw [hdrive]; rfl)
  | frame hdrive => exact h (by rw [hdrive]; rfl)
  | update hdrive => exact h (by rw [hdrive]; rfl)
  | video hdrive => exact h (by rw [hdrive]; rfl)

/-- A step that does nothing opens no encoder. -/
theorem Ignores.not_encoderFails {session : Session} {event : DriveEvent}
    (h : session.Ignores event) : ¬ session.EncoderFails event := by
  intro hfails
  cases hfails with
  | tick hdrive hdemo => exact absurd ((h hdrive).symm.trans hdemo) (by simp)
  | frame hdrive hlive => exact absurd ((h hdrive).symm.trans hlive) (by simp)
  | update hdrive => exact h (by rw [hdrive]; trivial)
  | video hdrive => exact h (by rw [hdrive]; trivial)

/-- Besides, no step of `drive_session` applies input or hands a message on. -/
def DriveStepped (session next : Session) (event : DriveEvent) : Prop :=
  DriveStep session next event ∧ next.applied = session.applied ∧ next.handled = session.handled

/-- What comes behind the displays and after each message of the offer. -/
theorem driveStepped_sendOffer {session : Session} (event : DriveEvent) (xfer : Transfers)
    (msgs : List Message) (hbefore : session.drive.stage = .before) :
    DriveStepped session ({ session with xfer }.sendOffer msgs) event := by
  obtain ⟨happlied, hhandled, ⟨hafter, hreader⟩ | ⟨hafter, hreader⟩⟩ :=
    sendOffer_cases { session with xfer } msgs
  · have hfine : ¬ session.EncoderFails event :=
      Session.not_encoderFails (by rw [hbefore]; decide)
    exact ⟨.stays (hafter.trans hbefore.symm) hreader hfine, happlied, hhandled⟩
  · exact ⟨.spawns hbefore hafter hreader, happlied, hhandled⟩

section

variable {session : Session} {event : DriveEvent} {frames : List RawFrame} {frame : RawFrame}
  {backend : RawFrame → Backend}

/-- Sending frames from inside the loop stays in the loop unless an encoder fails. -/
theorem driveStepped_sendFrames (ptsStep : UInt64) (hduring : session.drive.stage = .during)
    (hfails : session.EncoderFails event ↔ session.FramesFail backend frames) :
    DriveStepped session (session.sendFrames backend ptsStep frames) event := by
  have hsame := (framesSent backend ptsStep session frames).sameReader
  refine ⟨?_, hsame.applied, hsame.handled⟩
  rcases sendFrames_stage backend ptsStep session frames with ⟨hfail, hafter⟩ | ⟨hfine, hafter⟩
  · exact .fails (hfails.mpr hfail) hduring hafter hsame.reader
  · exact .stays (hafter.trans hduring.symm) hsame.reader (fun h => hfine (hfails.mp h))

/-! The four places of the loop that send frames. -/

/-- On the synthetic desktop a tick fails by its frames. -/
theorem encoderFails_tick_iff (hdrive : session.drive = .selecting)
    (hdemo : session.config.demo = true) :
    session.EncoderFails (.tick frames backend) ↔ session.FramesFail backend frames := by
  constructor
  · intro hfails
    cases hfails with
    | tick _ _ hfail => exact hfail
  · exact .tick hdrive hdemo

/-- A live frame fails if its display has kept its size and its encoder fails. -/
theorem encoderFails_frame_iff (hdrive : session.drive = .selecting)
    (hlive : session.config.demo = false) :
    session.EncoderFails (.frame (some frame) backend) ↔
      ¬ session.Resized frame ∧ session.FramesFail backend [frame] := by
  constructor
  · intro hfails
    cases hfails with
    | frame _ _ hsize hfail => exact ⟨hsize, hfail⟩
  · exact fun h => .frame hdrive hlive h.1 h.2

/-- The frame behind an update fails when the update is sent. -/
theorem encoderFails_update_iff (hdrive : session.drive = .sendingUpdate frame) (ok : Bool)
    (io : Io) (counter : UInt32) :
    session.EncoderFails (.sent ok io counter backend) ↔ session.FramesFail backend [frame] := by
  constructor
  · intro hfails
    cases hfails with
    | update hother hfail =>
        obtain rfl := Drive.sendingUpdate.inj (hdrive.symm.trans hother)
        exact hfail
    | video hother => simp [hdrive] at hother
  · exact .update hdrive

/-- The frames behind a packet fail when the packet is sent. -/
theorem encoderFails_video_iff {packets : List Message} {ptsStep : UInt64}
    (hdrive : session.drive = .sendingVideo packets frames ptsStep) (ok : Bool) (io : Io)
    (counter : UInt32) (backend : RawFrame → Backend) :
    session.EncoderFails (.sent ok io counter backend) ↔
      (if ok then packets.tail else []) = [] ∧ session.FramesFail backend frames := by
  constructor
  · intro hfails
    cases hfails with
    | update hother => simp [hdrive] at hother
    | video hother hlast hfail =>
        obtain ⟨rfl, rfl, rfl⟩ := Drive.sendingVideo.inj (hdrive.symm.trans hother)
        exact ⟨hlast, hfail⟩
  · exact fun h => .video hdrive h.1 h.2

end

/-- What a step of `drive_session` can do. -/
theorem stepDrive_cases (session : Session) (event : DriveEvent) :
    DriveStepped session (session.stepDrive sha256 event) event := by
  have hmove := driveMove sha256 session event
  generalize session.stepDrive sha256 event = next at hmove
  cases hmove with
  | stays hignores => exact ⟨.stays rfl rfl hignores.not_encoderFails, rfl, rfl⟩
  | opened hdrive => exact ⟨.stays (by rw [hdrive]; rfl) rfl (by rintro ⟨⟩), rfl, rfl⟩
  | starts hdrive => exact driveStepped_sendOffer _ session.xfer [] (by rw [hdrive]; rfl)
  | offers hdrive => exact driveStepped_sendOffer _ _ _ (by rw [hdrive]; rfl)
  | offersMore hdrive => exact driveStepped_sendOffer _ session.xfer _ (by rw [hdrive]; rfl)
  | ticked hdrive hdemo =>
      exact driveStepped_sendFrames _ (by rw [hdrive]; rfl) (encoderFails_tick_iff hdrive hdemo)
  | framed hdrive hlive hsize =>
      refine driveStepped_sendFrames 1 (by rw [hdrive]; rfl) ?_
      rw [encoderFails_frame_iff hdrive hlive, and_iff_right]
      rintro ⟨display, hfind, hresized⟩
      obtain ⟨hwidth, hheight⟩ := hsize display hfind
      exact hresized.elim (fun h => h hwidth) (fun h => h hheight)
  | resized hdrive hfind hsize =>
      refine ⟨.stays (by rw [hdrive]; rfl) rfl fun hfails => ?_, rfl, rfl⟩
      cases hfails with
      | frame _ _ hkept => exact hkept ⟨_, hfind, not_and_or.mp hsize⟩
  | updated hdrive =>
      exact driveStepped_sendFrames 1 (by rw [hdrive]; rfl)
        (encoderFails_update_iff hdrive _ _ _)
  | packet hdrive hmore =>
      refine ⟨.stays (by rw [hdrive]; rfl) rfl fun hfails => ?_, rfl, rfl⟩
      exact hmore ((encoderFails_video_iff hdrive _ _ _ _).mp hfails).1
  | frameDone hdrive hlast =>
      refine driveStepped_sendFrames _ (by rw [hdrive]; rfl) ?_
      rw [encoderFails_video_iff hdrive, and_iff_right hlast]
  | leaves hleaves =>
      cases hleaves with
      | givesUp hbefore => exact ⟨.leavesBefore hbefore rfl rfl, rfl, rfl⟩
      | stops hdrive hevent =>
          refine ⟨.stays (by rw [hdrive]; rfl) rfl ?_, rfl, rfl⟩
          rcases hevent with rfl | ⟨backend, rfl⟩ <;> rintro ⟨⟩
      | cancels hdrive => exact ⟨.stays (by rw [hdrive]; rfl) rfl (by rintro ⟨⟩), rfl, rfl⟩
      | aborts hdrive => exact ⟨.aborts rfl (by rw [hdrive]; rfl) rfl rfl, rfl, rfl⟩
      | returns hdrive => exact ⟨.returns rfl (by rw [hdrive]; rfl) rfl rfl, rfl, rfl⟩

/-- What can become of a reader in a step. No step brings an aborted one to run. -/
structure ReaderMoved (reader moved : Reader) : Prop where
  aborted : moved.aborted = reader.aborted
  live : moved.Live → reader.Live
  polled : moved.polled = true → reader.polled = true ∨ reader.aborted = false

/-- What a step of the reader does. It takes nothing unless a thread runs it. -/
structure ReaderStepped (session next : Session) (reader : Reader) : Prop where
  drive : next.drive = session.drive
  moved : ∃ moved, next.reader = some moved ∧ ReaderMoved reader moved
  quiet : (reader.Live → reader.polled = false) →
    next.applied = session.applied ∧ next.handled = session.handled

/-- Replies to send only move the reader task on. -/
theorem sendReplies_reader (session : Session) (reader : Reader) (replies : List Message) :
    (session.sendReplies reader replies).drive = session.drive ∧
      (session.sendReplies reader replies).applied = session.applied ∧
        ∃ place, (session.sendReplies reader replies).reader = some { reader with place } := by
  cases replies with
  | nil => exact ⟨rfl, rfl, _, rfl⟩
  | cons reply replies => exact ⟨rfl, rfl, _, rfl⟩

/-- Input does not touch `drive_session`. -/
theorem applyInput_drive (session : Session) (msg : Message) :
    (session.applyInput msg).drive = session.drive := by
  unfold applyInput
  split <;> rfl

/-- A message only moves the reader task on. -/
theorem takeMessage_reader (session : Session) (io : Io) (reader : Reader) (msg : Message) :
    (session.takeMessage sha256 io reader msg).drive = session.drive ∧
      ∃ place, (session.takeMessage sha256 io reader msg).reader = some { reader with place } := by
  unfold takeMessage
  split
  · exact ⟨rfl, _, rfl⟩
  · simp only
    split
    · obtain ⟨hdrive, -, hreader⟩ := sendReplies_reader _ reader _
      exact ⟨hdrive.trans (applyInput_drive session msg), hreader⟩
    · exact ⟨applyInput_drive session msg, _, rfl⟩

/-- An input event of the client is applied. -/
theorem takeMessage_applied (session : Session) (io : Io) (reader : Reader) (event : InputEvent) :
    (session.takeMessage sha256 io reader (.input event)).applied =
      session.applied ++ [event] := by
  have hinput : (session.applyInput (.input event)).applied = session.applied ++ [event] := by
    cases event <;> rfl
  simp only [takeMessage]
  split
  · exact (sendReplies_reader _ reader _).2.1.trans hinput
  · exact hinput

/-- What a step of the reader task can do. -/
theorem stepReader_cases (session : Session) {reader : Reader} (event : ReaderEvent)
    (hreader : session.reader = some reader) :
    ReaderStepped session (session.stepReader sha256 reader event) reader := by
  -- Behind an await of a live reader that a thread runs, anything may have been taken.
  have hrun : ∀ next : Session, reader.polled = true → reader.Live → next.drive = session.drive →
      (∃ place, next.reader = some { reader with place }) → ReaderStepped session next reader :=
    fun next hpolled hlive hdrive ⟨place, hplace⟩ =>
      ⟨hdrive, ⟨_, hplace, rfl, fun _ => hlive, fun _ => Or.inl hpolled⟩,
        fun h => by simp [hpolled] at h; exact absurd hlive h⟩
  have hmove := readerMove sha256 session reader event
  generalize session.stepReader sha256 reader event = next at hmove
  cases hmove with
  | stays => exact ⟨rfl, ⟨reader, hreader, rfl, id, Or.inl⟩, fun _ => ⟨rfl, rfl⟩⟩
  | polled haborted =>
      exact ⟨rfl, ⟨_, rfl, rfl, id, fun _ => Or.inr haborted⟩, fun _ => ⟨rfl, rfl⟩⟩
  | suspended => exact ⟨rfl, ⟨_, rfl, rfl, id, fun h => by simp at h⟩, fun _ => ⟨rfl, rfl⟩⟩
  | ends =>
      refine ⟨rfl, ⟨_, rfl, rfl, fun hlive => ?_, fun h => by simp at h⟩, fun _ => ⟨rfl, rfl⟩⟩
      exact absurd rfl hlive
  | @takes msg io hpolled hplace =>
      obtain ⟨hdrive, hmoved⟩ := takeMessage_reader session io reader msg
      exact hrun _ hpolled (by simp [Reader.Live, hplace]) hdrive hmoved
  | answered hpolled hplace =>
      exact hrun _ hpolled (by simp [Reader.Live, hplace]) rfl ⟨_, rfl⟩
  | @replied replies hpolled hplace =>
      obtain ⟨hdrive, -, hmoved⟩ := sendReplies_reader session reader replies.tail
      exact hrun _ hpolled (by simp [Reader.Live, hplace]) hdrive hmoved

/-! ## Runs of one session -/

/-- The reader in a session that a run has reached: spawned in the loop, and aborted
only behind it. -/
structure Reached (session : Session) : Prop where
  before : session.drive.stage = .before → session.reader = none
  during : session.drive.stage = .during → ∀ reader ∈ session.reader, reader.aborted = false

/-- The reader when the steps so far have ended it. -/
structure Ended (session : Session) : Prop where
  reached : session.Reached
  returning : session.drive.stage = .returning →
    ∀ reader ∈ session.reader, reader.Live → reader.aborted = true
  ended : session.drive.stage = .ended →
    ∀ reader ∈ session.reader, reader.Live → reader.aborted = true ∧ reader.polled = false

/-- A session that starts is not over. -/
theorem ended_start (config : HostConfig) (demoDisplays : List DisplayInfo) (disk : Disk UInt8) :
    (start config demoDisplays disk).Ended := by
  unfold start
  split_ifs
  · exact ⟨⟨fun _ => rfl, by rintro ⟨⟩⟩, by rintro ⟨⟩, by rintro ⟨⟩⟩
  · exact ⟨⟨fun _ => rfl, by rintro ⟨⟩⟩, by rintro ⟨⟩, by rintro ⟨⟩⟩

/-- What an event does to a session, as far as its reader is concerned. -/
theorem step_cases (session : Session) (event : SessionEvent) :
    (∃ driven, event = .drive driven ∧
        DriveStepped session (session.step sha256 event) driven) ∨
      (∃ reader, session.reader = some reader ∧
        ReaderStepped session (session.step sha256 event) reader) ∨
      ((session.step sha256 event).drive = session.drive ∧
        SameReader session (session.step sha256 event)) := by
  cases event with
  | drive driven => exact Or.inl ⟨driven, rfl, stepDrive_cases session driven⟩
  | reader moved =>
      refine Or.inr ?_
      cases hreader : session.reader with
      | none =>
          simp only [step, hreader]
          exact Or.inr ⟨trivial, .refl session⟩
      | some reader =>
          simp only [step, hreader]
          exact Or.inl ⟨reader, rfl, stepReader_cases session moved hreader⟩
  | disconnect =>
      refine Or.inr (Or.inr ?_)
      simp only [step]
      split <;> exact ⟨rfl, rfl, rfl, rfl⟩
  | shutdown => exact Or.inr (Or.inr ⟨rfl, rfl, rfl, rfl⟩)

/-- A step keeps what is true of each reachable session. -/
theorem Reached.step {session : Session} (h : session.Reached) (event : SessionEvent) :
    (session.step sha256 event).Reached := by
  rcases @step_cases sha256 session event with
    ⟨driven, -, hcase, -, -⟩ | ⟨reader, hreader, hdrive, ⟨moved, hmoved, hsame⟩, -⟩ |
      ⟨hdrive, hreader, -, -⟩
  · cases hcase with
    | stays hstage hreader =>
        constructor
        · intro hbefore
          rw [hreader]
          exact h.before (hstage.symm.trans hbefore)
        · intro hduring
          rw [hreader]
          exact h.during (hstage.symm.trans hduring)
    | spawns _ hafter hreader =>
        constructor
        · intro hbefore
          simp [hafter] at hbefore
        · intro _ reader hmem
          rw [hreader] at hmem
          obtain rfl := Option.some.inj hmem
          rfl
    | leavesBefore _ hafter => constructor <;> intro hstage <;> simp [hafter] at hstage
    | fails _ _ hafter => constructor <;> intro hstage <;> simp [hafter] at hstage
    | aborts _ _ hafter => constructor <;> intro hstage <;> simp [hafter] at hstage
    | returns _ _ hafter => constructor <;> intro hstage <;> simp [hafter] at hstage
  · constructor
    · intro hbefore
      rw [hdrive] at hbefore
      simp [h.before hbefore] at hreader
    · intro hduring other hother
      rw [hdrive] at hduring
      rw [hmoved] at hother
      obtain rfl := Option.some.inj hother
      exact hsame.aborted.trans (h.during hduring reader hreader)
  · exact ⟨by rw [hdrive, hreader]; exact h.before, by rw [hdrive, hreader]; exact h.during⟩

/-- A step that meets the condition leaves no reader behind. -/
theorem Ended.step {session : Session} (h : session.Ended) (event : SessionEvent)
    (hends : session.EndsReader event) : (session.step sha256 event).Ended := by
  suffices hboth : ((session.step sha256 event).drive.stage = .returning →
      ∀ reader ∈ (session.step sha256 event).reader, reader.Live → reader.aborted = true) ∧
        ((session.step sha256 event).drive.stage = .ended →
          ∀ reader ∈ (session.step sha256 event).reader,
            reader.Live → reader.aborted = true ∧ reader.polled = false) from
    ⟨h.reached.step event, hboth.1, hboth.2⟩
  rcases @step_cases sha256 session event with
    ⟨driven, rfl, hcase, -, -⟩ | ⟨reader, hreader, hdrive, ⟨moved, hmoved, hsame⟩, -⟩ |
      ⟨hdrive, hreader, -, -⟩
  · cases hcase with
    | stays hstage hreader =>
        rw [hstage, hreader]
        exact ⟨h.returning, h.ended⟩
    | spawns _ hafter hreader => simp [hafter]
    | leavesBefore hbefore hafter hreader => simp [hafter, hreader, h.reached.before hbefore]
    | fails hfail hbefore hafter hreader =>
        rw [hafter, hreader]
        exact ⟨fun _ reader hmem hlive => absurd hlive (hends.1 hfail reader hmem), by simp⟩
    | aborts _ hbefore hafter hreader =>
        rw [hafter, hreader]
        refine ⟨fun _ reader hmem hlive => ?_, by simp⟩
        obtain ⟨running, -, rfl⟩ := Option.map_eq_some_iff.mp hmem
        rfl
    | returns hproceed hbefore hafter hreader =>
        rw [hafter, hreader]
        refine ⟨by simp, fun _ reader hmem hlive => ?_⟩
        exact ⟨h.returning hbefore reader hmem hlive, hends.2 hproceed hbefore reader hmem hlive⟩
  · rw [hdrive, hmoved]
    constructor
    · intro hreturning other hother hlive
      obtain rfl := Option.some.inj hother
      rw [hsame.aborted]
      exact h.returning hreturning reader hreader (hsame.live hlive)
    · intro hended other hother hlive
      obtain rfl := Option.some.inj hother
      obtain ⟨haborted, hpolled⟩ := h.ended hended reader hreader (hsame.live hlive)
      refine ⟨hsame.aborted.trans haborted, ?_⟩
      by_contra hrunning
      rcases hsame.polled (by simpa using hrunning) with hstill | hstarted
      · simp [hpolled] at hstill
      · simp [haborted] at hstarted
  · rw [hdrive, hreader]
    exact ⟨h.returning, h.ended⟩

/-- Behind its end such a session takes nothing more. -/
theorem Ended.quiet {session : Session} (h : session.Ended) (event : SessionEvent)
    (hended : session.drive.stage = .ended) :
    (session.step sha256 event).drive.stage = .ended ∧
      (session.step sha256 event).applied = session.applied ∧
        (session.step sha256 event).handled = session.handled := by
  rcases @step_cases sha256 session event with
    ⟨driven, -, hcase, happlied, hhandled⟩ | ⟨reader, hreader, hdrive, -, hquiet⟩ |
      ⟨hdrive, -, happlied, hhandled⟩
  · refine ⟨?_, happlied, hhandled⟩
    cases hcase with
    | stays hstage => exact hstage.trans hended
    | spawns hbefore => simp [hended] at hbefore
    | leavesBefore hbefore => simp [hended] at hbefore
    | fails _ hbefore => simp [hended] at hbefore
    | aborts _ hbefore => simp [hended] at hbefore
    | returns _ _ hafter => exact hafter
  · rw [hdrive]
    exact ⟨hended, hquiet fun hlive => (h.ended hended reader hreader hlive).2⟩
  · rw [hdrive]
    exact ⟨hended, happlied, hhandled⟩

end Session

/-! ## Runs of the host -/

section

variable (sha256)

/-- A step of one session leaves the others alone. -/
theorem getElem?_step_session (sessions : List Session) (index other : ℕ) (event : SessionEvent) :
    (stepHostLoop sha256 sessions (.session index event))[other]? =
      if index = other then (sessions[other]?).map (fun session => session.step sha256 event)
      else sessions[other]? := by
  simp only [stepHostLoop, List.getElem?_modify]
  split <;> simp

/-- A session that is there stays, and changes by its own steps only. -/
theorem getElem?_step {sessions : List Session} {index : ℕ} {session : Session}
    (hsession : sessions[index]? = some session) (event : HostLoopEvent) :
    (stepHostLoop sha256 sessions event)[index]? = some session ∨
      ∃ own, event = .session index own ∧
        (stepHostLoop sha256 sessions event)[index]? = some (session.step sha256 own) := by
  cases event with
  | authenticated config demoDisplays disk =>
      refine Or.inl ?_
      simp only [stepHostLoop]
      split_ifs with hover
      · rw [List.getElem?_append_left (List.getElem?_eq_some_iff.mp hsession).1]
        exact hsession
      · exact hsession
  | session other own =>
      rw [getElem?_step_session]
      split_ifs with hindex
      · subst hindex
        exact Or.inr ⟨own, rfl, by rw [hsession]; rfl⟩
      · exact Or.inl hsession

/-- A session after a step is a new one or one from before. -/
theorem getElem?_of_step {sessions : List Session} {index : ℕ} {next : Session}
    {event : HostLoopEvent} (hnext : (stepHostLoop sha256 sessions event)[index]? = some next) :
    sessions[index]? = some next ∨
      (∃ config demoDisplays disk, next = Session.start config demoDisplays disk) ∨
        ∃ session own, event = .session index own ∧ sessions[index]? = some session ∧
          next = session.step sha256 own := by
  cases event with
  | authenticated config demoDisplays disk =>
      simp only [stepHostLoop] at hnext
      split_ifs at hnext
      · rw [List.getElem?_append] at hnext
        split_ifs at hnext
        · exact Or.inl hnext
        · have hnew := List.mem_singleton.mp (List.mem_of_getElem? hnext)
          exact Or.inr (Or.inl ⟨config, demoDisplays, disk, hnew⟩)
      · exact Or.inl hnext
  | session other own =>
      rw [getElem?_step_session] at hnext
      split_ifs at hnext with hindex
      · obtain ⟨session, hsession, rfl⟩ := Option.map_eq_some_iff.mp hnext
        exact Or.inr (Or.inr ⟨session, own, by rw [hindex], hsession, rfl⟩)
      · exact Or.inl hnext

/-- A step of the host loop keeps what is true of each session. -/
theorem reached_step {sessions : List Session} (h : ∀ session ∈ sessions, session.Reached)
    (event : HostLoopEvent) : ∀ session ∈ stepHostLoop sha256 sessions event, session.Reached := by
  intro next hmem
  obtain ⟨index, hnext⟩ := List.mem_iff_getElem?.mp hmem
  rcases getElem?_of_step sha256 hnext with
    hold | ⟨config, demoDisplays, disk, rfl⟩ | ⟨session, own, -, hsession, rfl⟩
  · exact h next (List.mem_of_getElem? hold)
  · exact (Session.ended_start config demoDisplays disk).reached
  · exact (h session (List.mem_of_getElem? hsession)).step own

/-- Once each session that is over has ended its reader, they stay so. -/
theorem ended_step {sessions : List Session} (h : ∀ session ∈ sessions, session.Ended)
    (event : HostLoopEvent) (hends : EndsReader sessions event) :
    ∀ session ∈ stepHostLoop sha256 sessions event, session.Ended := by
  intro next hmem
  obtain ⟨index, hnext⟩ := List.mem_iff_getElem?.mp hmem
  rcases getElem?_of_step sha256 hnext with
    hold | ⟨config, demoDisplays, disk, rfl⟩ | ⟨session, own, rfl, hsession, rfl⟩
  · exact h next (List.mem_of_getElem? hold)
  · exact Session.ended_start config demoDisplays disk
  · exact (h session (List.mem_of_getElem? hsession)).step own (hends session hsession)

/-- Where every step ends the readers, a session that is over takes nothing more. -/
theorem quiet_run {sessions : List Session} {index : ℕ} {session : Session}
    (h : ∀ session ∈ sessions, session.Ended) (hsession : sessions[index]? = some session)
    (hended : session.drive.stage = .ended) {events : List HostLoopEvent}
    (halong : Along (stepHostLoop sha256) EndsReader sessions events) :
    ∃ later, (run (stepHostLoop sha256) sessions events)[index]? = some later ∧
      later.applied = session.applied ∧ later.handled = session.handled := by
  have hrun := invariant_run (stepHostLoop sha256)
    (fun sessions => (∀ session ∈ sessions, session.Ended) ∧
      ∃ later, sessions[index]? = some later ∧ later.drive.stage = .ended ∧
        later.applied = session.applied ∧ later.handled = session.handled)
    (fun sessions event hinv hends => by
      obtain ⟨hall, later, hlater, hover, happlied, hhandled⟩ := hinv
      refine ⟨ended_step sha256 hall event hends, ?_⟩
      rcases getElem?_step sha256 hlater event with hkept | ⟨own, rfl, hstepped⟩
      · exact ⟨later, hkept, hover, happlied, hhandled⟩
      · obtain ⟨hstill, hnone, hnothing⟩ := @Session.Ended.quiet sha256 later
          (hall later (List.mem_of_getElem? hlater)) own hover
        exact ⟨_, hstepped, hstill, hnone.trans happlied, hnothing.trans hhandled⟩)
    ⟨h, session, hsession, hended, rfl, rfl⟩ halong
  obtain ⟨-, later, hlater, -, hkept⟩ := hrun
  exact ⟨later, hlater, hkept⟩

/-- Events of one session, seen from the host. -/
theorem getElem?_run_session (sessions : List Session) (index : ℕ) (events : List SessionEvent) :
    (run (stepHostLoop sha256) sessions (events.map (.session index)))[index]? =
      (sessions[index]?).map fun session =>
        run (fun session event => session.step sha256 event) session events := by
  induction events generalizing sessions with
  | nil => simp
  | cons event events ih =>
      rw [List.map_cons, run_cons, ih, getElem?_step_session, if_pos rfl, Option.map_map]
      rfl

/-! ## A reader that is left behind -/

/-- A reader that a thread runs gets through its sends to the next message. -/
theorem reaches_select (session : Session) {reader : Reader}
    (hreader : session.reader = some reader)
    (hpolled : reader.polled = true) (hlive : reader.Live) :
    ∃ events, let later := run (fun session event => session.step sha256 event) session events
      later.drive = session.drive ∧ later.applied = session.applied ∧
        later.reader = some { reader with place := .selecting } := by
  cases hplace : reader.place with
  | selecting =>
      refine ⟨[], rfl, rfl, ?_⟩
      rw [run_nil, hreader, ← hplace]
  | sendingPong =>
      refine ⟨[.reader (.sent true)], ?_⟩
      simp [Session.step, hreader, Session.stepReader, hpolled, hplace, Session.moveReader]
  | sendingReplies replies =>
      induction replies generalizing session reader with
      | nil =>
          refine ⟨[.reader (.sent true)], ?_⟩
          simp [Session.step, hreader, Session.stepReader, hpolled, hplace, Session.sendReplies,
            Session.moveReader]
      | cons reply replies ih =>
          set next := session.step sha256 (.reader (.sent true)) with hnext
          have hstep : next = session.sendReplies reader replies := by
            simp [hnext, Session.step, hreader, Session.stepReader, hpolled, hplace]
          cases replies with
          | nil =>
              refine ⟨[.reader (.sent true)], ?_⟩
              rw [run_cons, run_nil, ← hnext, hstep]
              exact ⟨rfl, rfl, rfl⟩
          | cons other replies =>
              obtain ⟨events, hdrive, happlied, hselect⟩ :=
                @ih next { reader with place := .sendingReplies (other :: replies) }
                  (by rw [hstep]; rfl) hpolled (by simp [Reader.Live]) rfl
              refine ⟨.reader (.sent true) :: events, ?_⟩
              rw [run_cons, ← hnext]
              refine ⟨hdrive.trans ?_, happlied.trans ?_, hselect⟩ <;> rw [hstep] <;> rfl
  | finished => exact absurd hplace hlive

/-- A live reader that runs, or that was not aborted, applies another input event. -/
theorem takes_input (session : Session) {reader : Reader} (hreader : session.reader = some reader)
    (hlive : reader.Live) (hrunning : reader.polled = true ∨ reader.aborted = false) :
    ∃ events, (run (fun session event => session.step sha256 event) session events).applied ≠
      session.applied := by
  -- A thread picks the task up unless one runs it already.
  have hpolled : (session.step sha256 (.reader .polled)).drive = session.drive ∧
      (session.step sha256 (.reader .polled)).applied = session.applied ∧
        (session.step sha256 (.reader .polled)).reader = some { reader with polled := true } := by
    cases hcase : reader.polled with
    | true =>
        have hkept : session.step sha256 (.reader .polled) = session := by
          cases reader.place <;> simp [Session.step, hreader, Session.stepReader, hcase]
        rw [hkept, hreader, ← hcase]
        exact ⟨rfl, rfl, rfl⟩
    | false =>
        have hfree : reader.aborted = false := by simpa [hcase] using hrunning
        have hplace : reader.place ≠ .finished := hlive
        simp [Session.step, hreader, Session.stepReader, hcase, hplace, hfree]
  obtain ⟨-, happlied, hstarted⟩ := hpolled
  obtain ⟨events, -, hsame, hselect⟩ := reaches_select sha256 _ hstarted rfl hlive
  set waiting := run (fun session event => session.step sha256 event)
    (session.step sha256 (.reader .polled)) events with hwaiting
  have hinput : (waiting.step sha256
      (.reader (.incoming (.ok (.input (.key 30 true))) quietIo))).applied =
        waiting.applied ++ [.key 30 true] := by
    simp only [Session.step, hselect, Session.stepReader, if_pos]
    exact Session.takeMessage_applied waiting quietIo _ _
  refine ⟨.reader .polled ::
    (events ++ [.reader (.incoming (.ok (.input (.key 30 true))) quietIo)]), ?_⟩
  rw [run_cons, run_append_singleton, ← hwaiting, hinput, hsame, happlied]
  simp

/-- A step that does not meet the condition leaves a reader behind: the session can
end, and its reader takes the next message. -/
theorem left_behind {session : Session} (hreached : session.Reached) {event : SessionEvent}
    (hleft : ¬ session.EndsReader event) :
    ∃ more reader later,
      run (fun session event => session.step sha256 event) session (event :: more) = later ∧
        later.drive = .listening ∧ later.reader = some reader ∧ reader.Live ∧
          (reader.polled = true ∨ reader.aborted = false) := by
  -- Behind `returning` the next statement is the last.
  have hreturn : ∀ session : Session, session.drive.stage = .returning →
      session.step sha256 (.drive .proceed) = { session with drive := .listening } := by
    intro session hstage
    cases hdrive : session.drive <;> simp_all [Drive.stage, Session.step, Session.stepDrive]
  cases event with
  | drive driven =>
      simp only [Session.EndsReader, not_and_or, not_forall, not_not] at hleft
      rcases hleft with ⟨hfail, reader, hreader, hlive⟩ |
        ⟨rfl, hreturning, reader, hreader, hlive, hpolled⟩
      · have hduring : session.drive.stage = .during :=
          not_not.mp fun hother => Session.not_encoderFails hother hfail
        obtain ⟨hcase, -⟩ := @Session.stepDrive_cases sha256 session driven
        cases hcase with
        | stays _ _ hfine => exact absurd hfail hfine
        | spawns hbefore => simp [hduring] at hbefore
        | leavesBefore hbefore => simp [hduring] at hbefore
        | aborts hproceed =>
            subst hproceed
            cases hfail
        | returns _ hbefore => simp [hduring] at hbefore
        | fails _ _ hafter hsame =>
            refine ⟨[.drive .proceed], reader, _, rfl, ?_⟩
            rw [run_cons, run_cons, run_nil, hreturn (session.step sha256 (.drive driven)) hafter]
            exact ⟨rfl, hsame.trans hreader, hlive, Or.inr (hreached.during hduring reader hreader)⟩
      · refine ⟨[], reader, _, rfl, ?_⟩
        rw [run_cons, run_nil, hreturn _ hreturning]
        exact ⟨rfl, hreader, hlive, Or.inl (by simpa using hpolled)⟩
  | _ => exact absurd trivial hleft

/-- A reader that is still alive when its session is over takes one more key. -/
theorem not_quietAfterEnd {events : List HostLoopEvent} {index : ℕ} {session : Session}
    {reader : Reader} (hsession : (run (stepHostLoop sha256) [] events)[index]? = some session)
    (hover : session.drive = .listening) (hreader : session.reader = some reader)
    (hlive : reader.Live) (hrunning : reader.polled = true ∨ reader.aborted = false) :
    ∃ more, ¬ QuietAfterEnd sha256 (events ++ more) := by
  obtain ⟨own, happlied⟩ := takes_input sha256 session hreader hlive hrunning
  refine ⟨own.map (.session index), fun hquiet => ?_⟩
  obtain ⟨later, hlater, hsame, -⟩ := hquiet events _ index session rfl hsession hover
  rw [run_append, getElem?_run_session, hsession] at hlater
  obtain rfl := Option.some.inj hlater
  exact happlied hsame

/-- Exactly the steps that `EndsReader` rules out leave a reader behind. Where no step
of a run is one of them, no client is heard after its session; and behind each of them
the run can go on so that a client is. -/
theorem quietAfterEnd_iff :
    (∀ events, Along (stepHostLoop sha256) EndsReader [] events → QuietAfterEnd sha256 events) ∧
      ∀ front event, ¬ EndsReader (run (stepHostLoop sha256) [] front) event →
        ∃ more, ¬ QuietAfterEnd sha256 (front ++ event :: more) := by
  constructor
  · rintro events halong front back index session rfl hsession hover
    rw [along_append] at halong
    have hended := invariant_run (stepHostLoop sha256)
      (fun sessions => ∀ session ∈ sessions, session.Ended)
      (fun sessions event hall hends => ended_step sha256 hall event hends) (by simp) halong.1
    rw [run_append]
    exact quiet_run sha256 hended hsession (by rw [hover]; rfl) halong.2
  · intro front event hleft
    have hreached : ∀ session ∈ run (stepHostLoop sha256) [] front, session.Reached :=
      invariant_of_step (stepHostLoop sha256)
        (fun sessions => ∀ session ∈ sessions, session.Reached)
        (fun sessions event hall => reached_step sha256 hall event) (by simp) front
    cases event with
    | authenticated => exact absurd trivial hleft
    | session index own =>
        simp only [EndsReader, not_forall] at hleft
        obtain ⟨session, hsession, hleft⟩ := hleft
        obtain ⟨more, reader, later, hrun, hover, hreader, hlive, hrunning⟩ := left_behind sha256
          (hreached session (List.mem_of_getElem? hsession)) hleft
        have hlater := getElem?_run_session sha256 (run (stepHostLoop sha256) [] front) index
          (own :: more)
        rw [hsession, ← run_append, Option.map_some, hrun] at hlater
        obtain ⟨again, hheard⟩ := not_quietAfterEnd sha256 hlater hover hreader hlive hrunning
        refine ⟨more.map (.session index) ++ again, ?_⟩
        simpa using hheard

end

/-! ## An encoder that does not open -/

/-- A live host without a file to offer. -/
def liveConfig : HostConfig where
  demo := false
  fps := 60
  bitrateKbps := 8000
  downloadDir := ["downloads"]
  offerFile := none

/-- One small monitor is captured; the first frame finds no encoder, and
`drive_session` returns. -/
def failedSession : List HostLoopEvent :=
  [.authenticated liveConfig [] { files := fun _ => none },
    .session 0 (.drive (.captureOpened (some [{
      id := 0, x := 0, y := 0, width := 2, height := 2, scalePercent := 100, name := "DP-1" }]))),
    .session 0 (.drive (.sent true quietIo 1 fun _ => ⟨.ok (), .ok []⟩)),
    .session 0 (.drive (.frame
      (some { displayId := 0, width := 2, height := 2, i420 := List.replicate 6 0 })
      fun _ => ⟨.error "x264 failed to open 2x2", .ok []⟩)),
    .session 0 (.drive .proceed)]

/-- The client presses a key while the host shows no session. -/
def lateKey : List HostLoopEvent :=
  [.session 0 (.reader .polled),
    .session 0 (.reader (.incoming (.ok (.input (.key 30 true))) quietIo))]

/-- A failed encoder leaves the reader, which presses a key after the end. -/
theorem failedSession_takes_lateKey :
    ¬ ∀ events, QuietAfterEnd sampleSha256 events := by
  intro hquiet
  obtain ⟨later, hlater, happlied, -⟩ :=
    hquiet (failedSession ++ lateKey) failedSession lateKey 0 _ rfl rfl rfl
  obtain rfl := Option.some.inj hlater
  exact List.cons_ne_nil _ _ happlied

end OmarchyConnect.Host
