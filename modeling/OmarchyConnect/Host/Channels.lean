/-
# The channels to the writer task

`handle_client` spawns a writer task that drains two channels: `ctrl`, which holds 32
messages of the session and of its reader, and `video`, which holds one packet of the
frame loop. Its `select!` is biased: each poll looks at the token, then at `video`, then
at `ctrl`, and the session may run between two of the looks.

A packet remembers the encoder that it comes from and the displays that were queued
last before it.
-/

import OmarchyConnect.Host.Capture
import OmarchyConnect.Host.Session

namespace OmarchyConnect.Host

open OmarchyConnect.Library.Wire OmarchyConnect.Library.Files OmarchyConnect.Protocol

/-- A packet, with the encoder that made it and the displays that were announced by then. -/
structure Packet where
  message : Message
  encoder : Option Encoder
  announced : Option (List DisplayInfo)

/-- What the writer takes out of a channel. -/
inductive Outgoing
  | ctrl (msg : Message)
  | video (packet : Packet)

/-- The writer before a poll, past the look at the token, past the look at `video`,
inside `write_message`, and behind its loop. -/
inductive WriterAt
  | selecting
  | pastCancel
  | pastVideo
  | writing (out : Outgoing)
  | shutdown
  | finished

/-- One client with its writer task. `pong` is the nonce that the reader answers.
`queued` remembers what was put into `ctrl`, and `wire` what was written. -/
structure Channels where
  session : Session
  input : InputMode
  injector : Option Injector := none
  pong : UInt64 := 0
  ctrl : List Message := []
  video : Option Packet := none
  writer : WriterAt := .selecting
  writerAborted : Bool := false
  queued : List Message := []
  wire : List Outgoing := []

/-- What the writer task may meet. -/
inductive WriterEvent
  | pollCancel
  | pollVideo
  | pollCtrl
  | wrote (ok : Bool)
  | shutDown
  | dropped

/-- What happens to a client. `opened` is a capture that was opened; `opens` says whether
the system lets the pointer device be created. -/
inductive ChannelEvent
  | opened (capture : LiveCapture) (opens : Bool)
  | session (event : SessionEvent)
  | writer (event : WriterEvent)

/-- The displays that a message announces. -/
def announcement : Message → Option (List DisplayInfo)
  | .displays displays => some displays
  | _ => none

/-- The displays that are announced last. -/
def lastDisplays (msgs : List Message) : Option (List DisplayInfo) :=
  (msgs.filterMap announcement).getLast?

/-- The display of a packet. -/
def displayOf : Message → Option UInt32
  | .video displayId _ _ _ => some displayId
  | _ => none

namespace Session

/-- The message that `drive_session` waits to put into `ctrl`. -/
def sendsCtrl (session : Session) : Option Message :=
  match session.drive with
  | .sendingDisplays => some (.displays session.displays)
  | .sendingOffer msgs => msgs.head?
  | .sendingUpdate _ => some (.displays session.displays)
  | _ => none

/-- The message that `drive_session` waits to put into `video`. -/
def sendsVideo (session : Session) : Option Message :=
  match session.drive with
  | .sendingVideo packets _ _ => packets.head?
  | _ => none

/-- What the reader waits to put into `ctrl` while a thread runs it. -/
def readerSends (session : Session) (pong : UInt64) : Option Message :=
  match session.reader with
  | none => none
  | some reader =>
      if reader.polled then
        match reader.place with
        | .sendingPong => some (.pong pong)
        | .sendingReplies replies => replies.head?
        | _ => none
      else none

/-- The nonce that the reader has to answer behind the event. -/
def pongAfter (session : Session) (pong : UInt64) : ReaderEvent → UInt64
  | .incoming (.ok (.ping nonce)) _ =>
      match session.reader with
      | none => pong
      | some reader => if reader.polled ∧ reader.place = .selecting then nonce else pong
  | _ => pong

/-- The event makes `handle_client` or `drive_session` abort the writer task. -/
def abortsWriter (session : Session) : DriveEvent → Bool
  | .sawCancel =>
      match session.drive with
      | .openingCapture => session.cancelled
      | _ => false
  | .proceed =>
      match session.drive with
      | .abortingReader => true
      | _ => false
  | _ => false

end Session

namespace Channels

/-- `handle_client` from the authentication on. -/
def start (config : HostConfig) (input : InputMode) (opens : Bool)
    (demoDisplays : List DisplayInfo) (disk : Disk UInt8) : Channels where
  session := Session.start config demoDisplays disk
  input
  injector :=
    if config.demo then
      some (buildInjector input true opens (demoDisplays.map Region.unscaled))
    else none

variable (sha256 : Bytes → Digest) (state : Channels)

/-- The receivers of both channels are gone. -/
def closed : Bool :=
  match state.writer with
  | .finished => true
  | _ => false

/-- The session takes its step. -/
def advance (event : SessionEvent) : Channels :=
  { state with session := state.session.step sha256 event }

/-- `send` on `ctrl`: it returns `Ok` where there is room, and an error where the
receivers are gone. -/
def sendCtrl (ok : Bool) (msg : Message) (event : SessionEvent) : Channels :=
  if ok then
    if state.closed = false ∧ state.ctrl.length < 32 then
      { state.advance sha256 event with
        ctrl := state.ctrl ++ [msg]
        queued := state.queued ++ [msg] }
    else state
  else if state.closed then state.advance sha256 event
  else state

/-- `send` on `video`. -/
def sendVideo (ok : Bool) (msg : Message) (event : SessionEvent) : Channels :=
  if ok then
    if state.closed = false ∧ state.video.isNone then
      { state.advance sha256 event with
        video := some
          { message := msg
            encoder := (displayOf msg).bind state.session.encoders
            announced := lastDisplays state.queued } }
    else state
  else if state.closed then state.advance sha256 event
  else state

/-- A step of the session, where its channels have room. -/
def stepSession (event : SessionEvent) : Channels :=
  match event with
  | .drive (.captureOpened (some _)) => state
  | .drive (.sent ok _ _ _) =>
      match state.session.sendsCtrl, state.session.sendsVideo with
      | some msg, _ => state.sendCtrl sha256 ok msg event
      | none, some msg => state.sendVideo sha256 ok msg event
      | none, none => state.advance sha256 event
  | .drive driveEvent =>
      { state.advance sha256 event with
        writerAborted := state.writerAborted || state.session.abortsWriter driveEvent }
  | .reader (.sent ok) =>
      match state.session.readerSends state.pong with
      | some msg => state.sendCtrl sha256 ok msg event
      | none => state.advance sha256 event
  | .reader readerEvent =>
      { state.advance sha256 event with pong := state.session.pongAfter state.pong readerEvent }
  | event => state.advance sha256 event

/-- A capture is opened: its displays are announced, and the injector gets its regions. -/
def openCapture (capture : LiveCapture) (opens : Bool) : Channels :=
  match state.session.drive with
  | .openingCapture =>
      { state.advance sha256 (.drive (.captureOpened (some capture.displays))) with
        injector := some (buildInjector state.input false opens capture.regions) }
  | _ => state

/-- The reader task is over or was never spawned. -/
def readerGone : Bool :=
  match state.session.reader with
  | none => true
  | some reader => reader.place = .finished

/-- The writer task from one look to the next. It leaves its loop where the token is
cancelled, where a channel is empty and has no senders, and where a write fails. -/
def stepWriter (event : WriterEvent) : Channels :=
  match state.writer, event with
  | .finished, _ => state
  | .selecting, .pollCancel =>
      { state with writer := if state.session.cancelled then .shutdown else .pastCancel }
  | .pastCancel, .pollVideo =>
      match state.video with
      | some packet => { state with video := none, writer := .writing (.video packet) }
      | none => { state with writer := if state.session.isOver then .shutdown else .pastVideo }
  | .pastVideo, .pollCtrl =>
      match state.ctrl with
      | msg :: rest => { state with ctrl := rest, writer := .writing (.ctrl msg) }
      | [] =>
          { state with
            writer := if state.session.isOver && state.readerGone then .shutdown else .selecting }
  | .writing out, .wrote true =>
      { state with wire := state.wire ++ [out], writer := .selecting }
  | .writing _, .wrote false => { state with writer := .shutdown }
  | .shutdown, .shutDown => { state with writer := .finished }
  | _, .dropped => if state.writerAborted then { state with writer := .finished } else state
  | _, _ => state

/-- One event. -/
def step : ChannelEvent → Channels
  | .opened capture opens => state.openCapture sha256 capture opens
  | .session event => state.stepSession sha256 event
  | .writer event => state.stepWriter event

end Channels

end OmarchyConnect.Host
