/-
# What the session sends besides its displays

Only `drive_session` announces displays: the offer of a file and the replies of the
reader are messages about files. `Session.Plain` says what stays true of the messages
that wait.
-/

import OmarchyConnect.Host.Channels
import OmarchyConnect.Host.SessionSteps

namespace OmarchyConnect.Host

open OmarchyConnect.Library.Wire OmarchyConnect.Library.Files OmarchyConnect.Protocol

/-! ## File messages announce nothing -/

/-- None of the messages announces displays. -/
def Silent (msgs : List Message) : Prop := ∀ msg ∈ msgs, announcement msg = none

/-- No messages announce nothing. -/
theorem silent_nil : Silent [] := by simp [Silent]

/-- What is left of silent messages is silent. -/
theorem Silent.tail {msgs : List Message} (h : Silent msgs) : Silent msgs.tail :=
  fun msg hmsg => h msg (List.mem_of_mem_tail hmsg)

/-- Messages about files announce nothing. -/
theorem silent_of_onlyFiles {msgs : List Message} (h : OnlyFiles msgs) : Silent msgs := by
  intro msg hmem
  have hfile := h msg hmem
  cases msg with
  | displays => cases hfile
  | _ => rfl

/-- The offer of a file is a message about a file. -/
theorem onlyFiles_offerFile (sha256 : Bytes → Digest) (io : Io) (xfer : Transfers) (id : UInt32)
    (path : Path) {msgs : List Message} (h : (offerFile sha256 io xfer id path).1 = .ok msgs) :
    OnlyFiles msgs := by
  unfold offerFile at h
  cases hopen : FileSender.openFile io id path with
  | error err =>
      rw [hopen] at h
      cases h
  | ok sender =>
      simp only [hopen] at h
      cases hpoll : sender.poll sha256 io with
      | mk answer next =>
          simp only [hpoll] at h
          cases answer with
          | error err => cases h
          | ok out =>
              cases h
              exact onlyFiles_poll sha256 io (by rw [hpoll])

/-- The displays that were announced last, with one more message. -/
theorem lastDisplays_concat (msgs : List Message) (msg : Message) :
    lastDisplays (msgs ++ [msg]) = (announcement msg).or (lastDisplays msgs) := by
  unfold lastDisplays
  cases hmsg : announcement msg with
  | none => simp [hmsg]
  | some displays => simp [hmsg]

/-! ## What a step of the session does -/

namespace Session

/-- What the steps of the others leave alone. -/
structure SameDrive (session next : Session) : Prop where
  drive : next.drive = session.drive
  displays : next.displays = session.displays
  encoders : next.encoders = session.encoders
  config : next.config = session.config

/-- A step may leave all of it alone. -/
theorem SameDrive.refl (session : Session) : SameDrive session session := ⟨rfl, rfl, rfl, rfl⟩

/-- Two steps that leave it alone. -/
theorem SameDrive.trans {session middle next : Session} (hfirst : SameDrive session middle)
    (hsecond : SameDrive middle next) : SameDrive session next :=
  ⟨hsecond.drive.trans hfirst.drive, hsecond.displays.trans hfirst.displays,
    hsecond.encoders.trans hfirst.encoders, hsecond.config.trans hfirst.config⟩

/-- The replies that the reader has still to send announce nothing. -/
def PlainReplies (session : Session) : Prop :=
  ∀ reader ∈ session.reader, ∀ replies, reader.place = .sendingReplies replies → Silent replies

/-- The replies of the one reader are those to look at. -/
theorem plainReplies_of_place {session : Session} {reader : Reader}
    (hreader : session.reader = some reader)
    (hplace : ∀ replies, reader.place = .sendingReplies replies → Silent replies) :
    session.PlainReplies := by
  intro other hother
  rw [hreader, Option.mem_some_iff] at hother
  rw [← hother]
  exact hplace

/-- Sending replies leaves the displays alone and keeps the rest of them plain. -/
theorem sendReplies_keeps (session : Session) (reader : Reader) {replies : List Message}
    (hsilent : Silent replies) :
    SameDrive session (session.sendReplies reader replies) ∧
      (session.sendReplies reader replies).PlainReplies := by
  cases replies with
  | nil => exact ⟨⟨rfl, rfl, rfl, rfl⟩, plainReplies_of_place rfl (by rintro _ ⟨⟩)⟩
  | cons reply replies =>
      refine ⟨⟨rfl, rfl, rfl, rfl⟩, plainReplies_of_place rfl ?_⟩
      rintro _ ⟨⟩
      exact hsilent

/-- Applying an input leaves the displays alone. -/
theorem sameDrive_applyInput (session : Session) (msg : Message) :
    SameDrive session (session.applyInput msg) := by
  unfold applyInput
  split <;> exact ⟨rfl, rfl, rfl, rfl⟩

/-- Taking a message leaves the displays alone, and is answered with plain replies. -/
theorem takeMessage_keeps (sha256 : Bytes → Digest) (session : Session) (io : Io)
    (reader : Reader) (msg : Message) :
    SameDrive session (session.takeMessage sha256 io reader msg) ∧
      (session.takeMessage sha256 io reader msg).PlainReplies := by
  unfold takeMessage
  split
  next => exact ⟨⟨rfl, rfl, rfl, rfl⟩, plainReplies_of_place rfl (by rintro _ ⟨⟩)⟩
  next =>
      have hinput := sameDrive_applyInput session msg
      have hfiles := fun replies =>
        @onlyFiles_takeFileReplies sha256 io (session.applyInput msg).xfer
          (session.applyInput msg).disk (session.applyInput msg).config.downloadDir msg replies
      simp only
      split
      next replies hreplies =>
          have hsilent := silent_of_onlyFiles (hfiles replies hreplies)
          obtain ⟨hsame, hplain⟩ := sendReplies_keeps _ reader hsilent
          refine ⟨hinput.trans ?_, hplain⟩
          exact ⟨hsame.drive, hsame.displays, hsame.encoders, hsame.config⟩
      next =>
        exact ⟨hinput.trans ⟨rfl, rfl, rfl, rfl⟩, plainReplies_of_place rfl (by rintro _ ⟨⟩)⟩

/-- The reader leaves the frame loop alone, and answers with file messages. -/
theorem stepReader_keeps (sha256 : Bytes → Digest) {session : Session} {reader : Reader}
    (hreader : session.reader = some reader) (hplain : session.PlainReplies)
    (event : ReaderEvent) :
    SameDrive session (session.stepReader sha256 reader event) ∧
      (session.stepReader sha256 reader event).PlainReplies := by
  have hkept := hplain reader hreader
  have hmove := readerMove sha256 session reader event
  generalize session.stepReader sha256 reader event = next at hmove
  cases hmove with
  | stays => exact ⟨.refl _, hplain⟩
  | polled => exact ⟨⟨rfl, rfl, rfl, rfl⟩, plainReplies_of_place rfl hkept⟩
  | suspended => exact ⟨⟨rfl, rfl, rfl, rfl⟩, plainReplies_of_place rfl hkept⟩
  | ends => exact ⟨⟨rfl, rfl, rfl, rfl⟩, plainReplies_of_place rfl (by rintro _ ⟨⟩)⟩
  | takes => exact takeMessage_keeps sha256 session _ reader _
  | answered => exact ⟨⟨rfl, rfl, rfl, rfl⟩, plainReplies_of_place rfl (by rintro _ ⟨⟩)⟩
  | @replied replies _ hplace =>
      exact sendReplies_keeps session reader (Silent.tail (hkept replies hplace))

/-- The messages that wait to be sent announce nothing, apart from what
`drive_session` itself announces. -/
structure Plain (session : Session) : Prop where
  offer : ∀ msgs, session.drive = .sendingOffer msgs → Silent msgs
  replies : session.PlainReplies

/-- At first nothing waits to be sent. -/
theorem plain_start (config : HostConfig) (demoDisplays : List DisplayInfo) (disk : Disk UInt8) :
    (start config demoDisplays disk).Plain := by
  unfold start
  split_ifs
  · exact ⟨by rintro _ ⟨⟩, by rintro _ ⟨⟩⟩
  · exact ⟨by rintro _ ⟨⟩, by rintro _ ⟨⟩⟩

/-- An offer that is plain is sent as one. -/
theorem plain_sendOffer {session : Session} (hplain : session.PlainReplies)
    {msgs : List Message} (hsilent : Silent msgs) : (session.sendOffer msgs).Plain := by
  cases msgs with
  | nil => exact ⟨by rintro _ ⟨⟩, plainReplies_of_place rfl (by rintro _ ⟨⟩)⟩
  | cons msg msgs =>
      refine ⟨?_, hplain⟩
      rintro _ ⟨⟩
      exact hsilent

/-- Frames are sent behind plain messages. -/
theorem Plain.sendFrames {session : Session} (h : session.Plain) (backend : RawFrame → Backend)
    (ptsStep : UInt64) (frames : List RawFrame) :
    (Session.sendFrames backend ptsStep session frames).Plain := by
  have hsent := framesSent backend ptsStep session frames
  constructor
  case offer =>
    intro msgs hdrive
    rcases hsent.place with hplace | ⟨_, hplace⟩ | ⟨_, _, _, hplace⟩ <;>
      cases hplace.symm.trans hdrive
  case replies =>
    intro reader hreader
    rw [hsent.reader] at hreader
    exact h.replies reader hreader

/-- A step of the frame loop keeps what waits plain. -/
theorem Plain.stepDrive {session : Session} (h : session.Plain) (sha256 : Bytes → Digest)
    (event : DriveEvent) : (session.stepDrive sha256 event).Plain := by
  have hmove := driveMove sha256 session event
  generalize session.stepDrive sha256 event = next at hmove
  cases hmove with
  | stays => exact h
  | opened => exact ⟨by rintro _ ⟨⟩, h.replies⟩
  | starts => exact plain_sendOffer h.replies silent_nil
  | @offers io _ id _ path xfer msgs hdrive hoffer =>
      have hsilent :=
        silent_of_onlyFiles (onlyFiles_offerFile sha256 io session.xfer id path (by rw [hoffer]))
      exact @plain_sendOffer { session with xfer } h.replies msgs hsilent
  | offersMore hdrive => exact plain_sendOffer h.replies (h.offer _ hdrive).tail
  | ticked => exact h.sendFrames ..
  | framed => exact h.sendFrames ..
  | resized => exact ⟨by rintro _ ⟨⟩, h.replies⟩
  | updated => exact h.sendFrames ..
  | packet => exact ⟨by rintro _ ⟨⟩, h.replies⟩
  | frameDone => exact h.sendFrames ..
  | leaves hleaves =>
      obtain ⟨drive, cancelled, xfer, reader, rfl, hleaving, hreader⟩ := hleaves.next_eq
      constructor
      case offer =>
        rintro msgs rfl
        exact absurd hleaving id
      case replies =>
        intro moved hmem replies hplace
        obtain ⟨before, hbefore, hsame⟩ := hreader moved hmem
        exact h.replies before hbefore replies (hsame ▸ hplace)

/-- A step is one of `drive_session`, or it leaves the frame loop alone. -/
theorem step_keeps (sha256 : Bytes → Digest) {session : Session} (hplain : session.PlainReplies)
    (event : SessionEvent) :
    (∃ driven, event = .drive driven) ∨
      SameDrive session (session.step sha256 event) ∧
        (session.step sha256 event).PlainReplies := by
  cases event with
  | drive driven => exact Or.inl ⟨driven, rfl⟩
  | reader moved =>
      refine Or.inr ?_
      simp only [step]
      split
      next => exact ⟨.refl _, hplain⟩
      next reader hreader => exact stepReader_keeps sha256 hreader hplain moved
  | disconnect =>
      refine Or.inr ?_
      simp only [step]
      split
      next => exact ⟨.refl _, hplain⟩
      next => exact ⟨⟨rfl, rfl, rfl, rfl⟩, hplain⟩
  | shutdown => exact Or.inr ⟨⟨rfl, rfl, rfl, rfl⟩, hplain⟩

/-- A step of the session keeps what waits plain. -/
theorem Plain.step {session : Session} (h : session.Plain) (sha256 : Bytes → Digest)
    (event : SessionEvent) : (session.step sha256 event).Plain := by
  rcases step_keeps sha256 h.replies event with ⟨driven, rfl⟩ | ⟨hsame, hreplies⟩
  · exact h.stepDrive sha256 driven
  · exact ⟨fun msgs hdrive => h.offer msgs (hsame.drive ▸ hdrive), hreplies⟩

/-- The configuration of a session is that of its start. -/
theorem config_stepDrive (sha256 : Bytes → Digest) (session : Session) (event : DriveEvent) :
    (session.stepDrive sha256 event).config = session.config := by
  have hmove := driveMove sha256 session event
  generalize session.stepDrive sha256 event = next at hmove
  cases hmove with
  | stays => rfl
  | opened => rfl
  | starts => rfl
  | @offers _ _ _ _ _ _ msgs => cases msgs <;> rfl
  | @offersMore _ _ _ msgs => cases msgs.tail <;> rfl
  | resized => rfl
  | packet => rfl
  | leaves hleaves =>
      obtain ⟨_, _, _, _, rfl, -⟩ := hleaves.next_eq
      rfl
  | _ => exact (framesSent _ _ session _).config

/-- No step changes the configuration. -/
theorem config_step (sha256 : Bytes → Digest) {session : Session} (hplain : session.Plain)
    (event : SessionEvent) :
    (session.step sha256 event).config = session.config := by
  rcases step_keeps sha256 hplain.replies event with ⟨driven, rfl⟩ | ⟨hsame, -⟩
  · exact config_stepDrive sha256 session driven
  · exact hsame.config

/-- What the reader sends announces nothing. -/
theorem Plain.readerSends {session : Session} (h : session.Plain) {pong : UInt64} {msg : Message}
    (hmsg : session.readerSends pong = some msg) : announcement msg = none := by
  unfold Session.readerSends at hmsg
  split at hmsg
  next => cases hmsg
  next reader hreader =>
      split_ifs at hmsg
      split at hmsg
      next =>
          cases hmsg
          rfl
      next replies hplace =>
          exact h.replies reader hreader replies hplace msg (List.mem_of_mem_head? hmsg)
      next => cases hmsg

end Session

end OmarchyConnect.Host
