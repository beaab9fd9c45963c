/-
# The session and its reader

`drive_session` offers a file, spawns the reader task and sends video. The reader
owns the injector and the file transfers. The two run on different threads of the
runtime: `Drive` is where the one waits, `Reader` is where the other waits and
whether a thread is polling it. An aborted task is dropped when it is not being
polled, and a task whose handle is dropped runs on.
-/

import OmarchyConnect.Host.Transfers
import OmarchyConnect.Library.Runs

namespace OmarchyConnect.Host

open OmarchyConnect.Library.Wire OmarchyConnect.Library.Files OmarchyConnect.Protocol

/-- `HostConfig`, with the fields that a session reads. -/
structure HostConfig where
  demo : Bool
  fps : UInt32
  bitrateKbps : UInt32
  downloadDir : Path
  offerFile : Option Path

/-! ## The encoders -/

/-- A frame as the capture gives it. -/
structure RawFrame where
  displayId : UInt32
  width : UInt32
  height : UInt32
  i420 : Bytes

/-- `EncodedFrame`, one access unit. -/
structure EncodedFrame where
  keyframe : Bool
  data : Bytes

/-- The length of an I420 picture. -/
def i420Size (width height : UInt32) : ℕ :=
  let w := width.toNat
  let h := height.toNat
  w * h + 2 * ((w / 2) * (h / 2))

/-- What the codec libraries answer when they are asked to open and to encode. -/
structure Backend where
  opens : Except String Unit
  encodes : Except String (List EncodedFrame)

/-- `Encoder`, with what it was opened for. -/
structure Encoder where
  width : UInt32
  height : UInt32
  fps : UInt32
  bitrateKbps : UInt32

/-- The head of `Encoder::open`, which checks the size before the backend opens. -/
def Encoder.openSize (backend : Backend) (width height fps bitrateKbps : UInt32) :
    Except String Encoder :=
  if width = 0 ∨ height = 0 ∨ width % 2 ≠ 0 ∨ height % 2 ≠ 0 then
    .error ("encoder size must be even and non-zero, got " ++ toString width ++ "x" ++
      toString height)
  else
    match backend.opens with
    | .error err => .error err
    | .ok () => .ok { width, height, fps, bitrateKbps }

/-- The head of `Encoder::encode`, which checks the length before the backend encodes. -/
def Encoder.encode (backend : Backend) (encoder : Encoder) (i420 : Bytes) :
    Except String (List EncodedFrame) :=
  let expected := i420Size encoder.width encoder.height
  if i420.length < expected then
    .error ("i420 buffer is " ++ toString i420.length ++ " bytes, need " ++ toString expected)
  else backend.encodes

/-- The open encoder of each display. -/
abbrev Encoders := UInt32 → Option Encoder

/-- `u32::try_from(pts).unwrap_or(u32::MAX)`. -/
def ptsMs (pts : UInt64) : UInt32 :=
  if pts.toNat < 2 ^ 32 then pts.toUInt32 else 0xffffffff

/-- `send_frame` up to the packets it has to send. -/
def sendFrame (config : HostConfig) (backend : Backend) (encoders : Encoders) (frame : RawFrame)
    (pts : UInt64) : Except String (List Message) × Encoders :=
  let opened : Except String (Encoder × Encoders) :=
    match encoders frame.displayId with
    | some encoder => .ok (encoder, encoders)
    | none =>
        match Encoder.openSize backend frame.width frame.height config.fps config.bitrateKbps with
        | .error err => .error err
        | .ok encoder => .ok (encoder, Function.update encoders frame.displayId (some encoder))
  match opened with
  | .error err => (.error err, encoders)
  | .ok (encoder, encoders) =>
      match encoder.encode backend frame.i420 with
      | .error err => (.error err, encoders)
      | .ok encoded =>
          (.ok (encoded.map fun packet =>
            .video frame.displayId (ptsMs pts) packet.keyframe packet.data), encoders)

/-! ## The two tasks -/

/-- Why `handle_client` returns an error behind the handshake. -/
inductive SessionError
  | capture
  | sendDisplays
  | offer (err : FileTransferError)
  | sendOffer
  | encoder (err : String)

/-- Where the session waits. `cancelling` and `abortingReader` are the statements
behind the loop, and `listening` is `run_host` behind the session. -/
inductive Drive
  | openingCapture
  | sendingDisplays
  | sendingOffer (msgs : List Message)
  | selecting
  | sendingUpdate (frame : RawFrame)
  | sendingVideo (packets : List Message) (frames : List RawFrame) (ptsStep : UInt64)
  | cancelling
  | abortingReader
  | returning (result : Except SessionError Unit)
  | listening

/-- Where the reader task waits. -/
inductive ReaderAt
  | selecting
  | sendingPong
  | sendingReplies (replies : List Message)
  | finished
  deriving DecidableEq

/-- The reader task. `polled` says that a thread is running it. -/
structure Reader where
  place : ReaderAt := .selecting
  polled : Bool := false
  aborted : Bool := false
  deriving DecidableEq

/-- `Cursor`, the pointer that the synthetic desktop draws. -/
structure Cursor where
  displayId : UInt32 := 0
  x : UInt32 := 0
  y : UInt32 := 0
  visible : Bool := false
  deriving DecidableEq

/-- One client from its authentication on. `applied` and `handled` remember what was
passed to `Injector::apply` and to `take_file_replies`. -/
structure Session where
  config : HostConfig
  drive : Drive
  cancelled : Bool := false
  reader : Option Reader := none
  displays : List DisplayInfo := []
  encoders : Encoders := fun _ => none
  pts : UInt64 := 0
  cursor : Cursor := {}
  xfer : Transfers := {}
  disk : Disk UInt8
  applied : List InputEvent := []
  handled : List Message := []

/-- A session that has just been authenticated. -/
def Session.start (config : HostConfig) (demoDisplays : List DisplayInfo) (disk : Disk UInt8) :
    Session :=
  if config.demo then { config, drive := .sendingDisplays, displays := demoDisplays, disk }
  else { config, drive := .openingCapture, disk }

/-- What the session's own awaits return. `proceed` runs the next statement where
none is awaited. -/
inductive DriveEvent
  | sawCancel
  | captureOpened (displays : Option (List DisplayInfo))
  | sent (ok : Bool) (io : Io) (counter : UInt32) (backend : RawFrame → Backend)
  | tick (frames : List RawFrame) (backend : RawFrame → Backend)
  | frame (frame : Option RawFrame) (backend : RawFrame → Backend)
  | proceed

/-- What happens to the reader task. -/
inductive ReaderEvent
  | polled
  | suspended
  | sawCancel
  | incoming (result : Except ProtocolError Message) (io : Io)
  | sent (ok : Bool)

/-- What happens to a session. `disconnect` is the signal of the user, which reaches
the current session only; `shutdown` cancels the token of the whole host. -/
inductive SessionEvent
  | drive (event : DriveEvent)
  | reader (event : ReaderEvent)
  | disconnect
  | shutdown

/-! ## The session's own steps -/

namespace Session

variable (session : Session)

/-- Send the next message of the offer, or spawn the reader and enter the loop. -/
def sendOffer : List Message → Session
  | [] => { session with drive := .selecting, reader := some {} }
  | msg :: msgs => { session with drive := .sendingOffer (msg :: msgs) }

/-- Send the frames one after another. An encoder that fails leaves `drive_session`
at once. -/
def sendFrames (backend : RawFrame → Backend) (ptsStep : UInt64) (session : Session) :
    List RawFrame → Session
  | [] => { session with drive := .selecting, pts := session.pts + ptsStep }
  | frame :: frames =>
      match sendFrame session.config (backend frame) session.encoders frame session.pts with
      | (.error err, encoders) =>
          { session with encoders, drive := .returning (.error (.encoder err)) }
      | (.ok [], encoders) => sendFrames backend ptsStep { session with encoders } frames
      | (.ok packets, encoders) =>
          { session with encoders, drive := .sendingVideo packets frames ptsStep }

/-- `1000 / u64::from(config.fps.max(1))`. -/
def tickMillis : UInt64 := 1000 / (max session.config.fps 1).toUInt64

/-- Take a live frame. One of a new size replaces the encoder and is announced. -/
def takeFrame (backend : RawFrame → Backend) (frame : RawFrame) : Session :=
  match session.displays.find? fun display => display.id == frame.displayId with
  | none => session.sendFrames backend 1 [frame]
  | some display =>
      if display.width ≠ frame.width ∨ display.height ≠ frame.height then
        { session with
          displays := session.displays.modify
            (session.displays.findIdx fun display => display.id == frame.displayId)
            fun display => { display with width := frame.width, height := frame.height }
          encoders := Function.update session.encoders frame.displayId none
          drive := .sendingUpdate frame }
      else session.sendFrames backend 1 [frame]

variable (sha256 : Bytes → Digest)

/-- `drive_session` from one await to the next. -/
def stepDrive (event : DriveEvent) : Session :=
  match session.drive, event with
  | .openingCapture, .sawCancel =>
      if session.cancelled then { session with drive := .returning (.ok ()) } else session
  | .openingCapture, .captureOpened (some displays) =>
      { session with displays, drive := .sendingDisplays }
  | .openingCapture, .captureOpened none =>
      { session with drive := .returning (.error .capture) }
  | .sendingDisplays, .sent false _ _ _ =>
      { session with drive := .returning (.error .sendDisplays) }
  | .sendingDisplays, .sent true io counter _ =>
      match session.config.offerFile with
      | none => session.sendOffer []
      | some path =>
          match offerFile sha256 io session.xfer (nextId true counter) path with
          | (.error err, xfer) => { session with xfer, drive := .returning (.error (.offer err)) }
          | (.ok msgs, xfer) => { session with xfer }.sendOffer msgs
  | .sendingOffer _, .sent false _ _ _ =>
      { session with drive := .returning (.error .sendOffer) }
  | .sendingOffer msgs, .sent true _ _ _ => session.sendOffer msgs.tail
  | .selecting, .sawCancel =>
      if session.cancelled then { session with drive := .cancelling } else session
  | .selecting, .tick frames backend =>
      if session.config.demo then session.sendFrames backend session.tickMillis frames else session
  | .selecting, .frame none _ =>
      if session.config.demo then session else { session with drive := .cancelling }
  | .selecting, .frame (some frame) backend =>
      if session.config.demo then session else session.takeFrame backend frame
  | .sendingUpdate frame, .sent _ _ _ backend => session.sendFrames backend 1 [frame]
  | .sendingVideo packets frames ptsStep, .sent ok _ _ backend =>
      -- Once the writer is gone the other packets of the frame are not sent.
      match if ok then packets.tail else [] with
      | [] => session.sendFrames backend ptsStep frames
      | packets => { session with drive := .sendingVideo packets frames ptsStep }
  | .cancelling, .proceed => { session with cancelled := true, drive := .abortingReader }
  | .abortingReader, .proceed =>
      { session with
        reader := session.reader.map fun reader => { reader with aborted := true }
        drive := .returning (.ok ()) }
  | .returning _, .proceed => { session with drive := .listening }
  | _, _ => session

/-! ## The reader's steps -/

/-- The reader task goes on to a place. -/
def moveReader (reader : Reader) (place : ReaderAt) : Session :=
  { session with reader := some { reader with place } }

/-- The task is over, and no thread runs it. -/
def endReader (reader : Reader) : Session :=
  { session with reader := some { reader with place := .finished, polled := false } }

/-- Send what is left of the replies. -/
def sendReplies (reader : Reader) : List Message → Session
  | [] => session.moveReader reader .selecting
  | reply :: replies => session.moveReader reader (.sendingReplies (reply :: replies))

/-- Pass an input event to the injector. -/
def applyInput : Message → Session
  | .input (.mouseMove displayId x y) =>
      { session with
        cursor := { displayId, x, y, visible := true }
        applied := session.applied ++ [.mouseMove displayId x y] }
  | .input event => { session with applied := session.applied ++ [event] }
  | _ => session

/-- What the reader does with a message. -/
def takeMessage (io : Io) (reader : Reader) (msg : Message) : Session :=
  match msg with
  | .ping _ => session.moveReader reader .sendingPong
  | msg =>
      let session := session.applyInput msg
      let (result, xfer, disk) :=
        takeFileReplies sha256 io session.xfer session.disk session.config.downloadDir msg
      let session := { session with xfer, disk, handled := session.handled ++ [msg] }
      match result with
      | .ok replies => session.sendReplies reader replies
      | .error _ => session.moveReader reader .selecting

/-- The reader task from one await to the next. Without `biased` its `select!` may
read a message also when the token is cancelled. -/
def stepReader (reader : Reader) (event : ReaderEvent) : Session :=
  if reader.polled then
    match reader.place, event with
    | _, .suspended =>
        if reader.aborted then session.endReader reader
        else { session with reader := some { reader with polled := false } }
    | .selecting, .sawCancel =>
        if session.cancelled then session.endReader reader else session
    | .selecting, .incoming (.error _) _ => { session with cancelled := true }.endReader reader
    | .selecting, .incoming (.ok msg) io => session.takeMessage sha256 io reader msg
    | .sendingPong, .sent _ => session.moveReader reader .selecting
    | .sendingReplies replies, .sent true => session.sendReplies reader replies.tail
    | .sendingReplies _, .sent false => session.endReader reader
    | _, _ => session
  else
    match event with
    | .polled =>
        if reader.place = .finished then session
        else if reader.aborted then session.endReader reader
        else { session with reader := some { reader with polled := true } }
    | _ => session

/-- A step of the session: one of its two tasks moves. -/
def step (event : SessionEvent) : Session :=
  match event with
  | .drive event => session.stepDrive sha256 event
  | .reader event =>
      match session.reader with
      | none => session
      | some reader => session.stepReader sha256 reader event
  | .disconnect =>
      match session.drive with
      | .listening => session
      | _ => { session with cancelled := true }
  | .shutdown => { session with cancelled := true }

end Session

/-! ## One client after another -/

/-- What happens to the host: a client is authenticated, or something happens to the
session of one of the clients so far. -/
inductive HostLoopEvent
  | authenticated (config : HostConfig) (demoDisplays : List DisplayInfo) (disk : Disk UInt8)
  | session (index : ℕ) (event : SessionEvent)

/-- Whether `drive_session` has returned. -/
def Session.isOver (session : Session) : Bool :=
  match session.drive with
  | .listening => true
  | _ => false

/-- The accept loop takes a client when it is back from the one before. The sessions
stay, since their readers may outlive them. -/
def stepHostLoop (sha256 : Bytes → Digest) (sessions : List Session) :
    HostLoopEvent → List Session
  | .authenticated config demoDisplays disk =>
      if sessions.all Session.isOver then
        sessions ++ [Session.start config demoDisplays disk]
      else sessions
  | .session index event => sessions.modify index fun session => session.step sha256 event

end OmarchyConnect.Host
