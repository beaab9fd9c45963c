/-
# The loop of a client session

`session` waits for a message of the host or a command of the window, a message first, and
answers through a channel to the task that writes. While it puts its answers into this
channel it takes nothing. The window takes frames and events whenever it paints.

What a `read_message` or a `write_message` says of the system's errors is left out.
-/

import OmarchyConnect.Client.Pictures
import OmarchyConnect.Client.ReaderTask
import OmarchyConnect.Client.Transfers
import OmarchyConnect.Library.Pipe

namespace OmarchyConnect.Client

open OmarchyConnect.Library OmarchyConnect.Library.Wire OmarchyConnect.Library.Files
  OmarchyConnect.Protocol

/-- What a session is started with. -/
structure SessionConfig where
  addr : String
  downloadDir : Path
  sendFile : Option Path := none
  stopAfterFrames : Option UInt32 := none

/-- `UiEvent` of a session: what it tells the window. -/
inductive SinkEvent
  | status (text : String)
  | displays (displays : List DisplayInfo)
  | file (event : FileEvent)
  | closed (text : String)
  deriving DecidableEq

/-- What the window asks of the session. -/
inductive ClientCommand
  | input (event : InputEvent)
  | sendFile (path : Path)
  | disconnect
  deriving DecidableEq

/-- How the calls in front of the loop end, with what they say. -/
structure Attempt where
  createDir : Except String Unit
  connect : Except String Unit
  handshake : Except String Unit
  writeHello : Except String Unit
  readHelloAck : Except String Message
  exporter : Except String Unit
  authenticate : Except String Unit

/-- What the loop does when it finds the writer gone. -/
inductive WriterGone
  | ignored
  | complete
  | closed
  | status
  deriving DecidableEq

/-- The session with its two tasks. `commanded` and `obeyed` remember all commands and those
that the loop took, `replied` all messages that it was to send, `emitted` the events for the
window. `outcome` is why the loop has ended. -/
structure ClientSession (h264 : OpenH264) where
  reader : ReaderTask := {}
  commands : List ClientCommand := []
  commandsOpen : Bool := true
  displays : List DisplayInfo := []
  pictures : WatchRun h264 := {}
  files : Live := {}
  disk : Disk UInt8
  nextId : UInt32 := 1
  pipe : Pipe Message := {}
  writerGone : WriterGone := .ignored
  writerUp : Bool := true
  commanded : List ClientCommand := []
  obeyed : List ClientCommand := []
  replied : List Message := []
  emitted : List SinkEvent := []
  outcome : Option String := none

/-- What happens to a session. The channel to the writer has 64 places, and the writer dies of a
message that it cannot write. -/
inductive ClientEvent
  | reader (event : ReadEvent)
  | take (io : Io)
  | command (command : ClientCommand)
  | closeCommands
  | obey (io : Io)
  | send
  | writerTakes
  | wrote
  | writerDied
  | paint

/-! ## Texts -/

/-- A path as it is printed. -/
def pathText (path : Path) : String := "/".intercalate path

/-- `Display` of the error of a transfer. -/
def transferErrorText : FileTransferError → String
  | .io err => "io error: " ++ err.text
  | .failed id reason =>
      "file transfer " ++ toString id.toNat ++ " failed: " ++ reason
  | .hashMismatch id => "hash mismatch for transfer " ++ toString id.toNat

/-- `Display` of the error of `read_message`. -/
def protocolErrorText : ProtocolError → String
  | .closed => "connection closed"
  | .badLength length => "frame length " ++ toString length.toNat ++ " is outside 1..=8388608"
  | .truncated => "truncated message"
  | .unknownType kind => "unknown message type " ++ toString kind.toNat
  | .invalid => "invalid message field"
  | .utf8 => "message text is not utf-8"
  | .io => "io error"

/-- What `queue_send` says first: an error of `FileSender::open` stands behind its context. -/
def queueErrorText (io : Io) (id : UInt32) (path : Path) : QueueError → String
  | .alreadySending => "a file send is already in progress"
  | .transfer err =>
      match FileSender.openFile io id path with
      | .error _ => "open " ++ pathText path
      | .ok _ => transferErrorText err

/-- The whole chain of an error of `queue_send`. -/
def queueErrorChain (io : Io) (id : UInt32) (path : Path) : QueueError → String
  | .alreadySending => queueErrorText io id path .alreadySending
  | .transfer err =>
      let text :=
        match err with
        | .io cause => transferErrorText err ++ ": " ++ cause.text
        | err => transferErrorText err
      match FileSender.openFile io id path with
      | .error _ => "open " ++ pathText path ++ ": " ++ text
      | .ok _ => text

/-! ## In front of the loop -/

/-- `anyhow::Context`, with the whole chain. -/
def withContext {α : Type} (context : String) : Except String α → Except String α
  | .ok value => .ok value
  | .error err => .error (context ++ ": " ++ err)

/-- The answer to the hello. -/
def checkHelloAck : Message → Except String Unit
  | .helloAck version =>
      if version = protocolVersion then .ok ()
      else .error ("host protocol version " ++ toString version.toNat ++ ", client is " ++
        toString protocolVersion.toNat)
  | .authDenied _ reason => .error reason
  | _ => .error "expected hello ack"

namespace Attempt

variable (attempt : Attempt) (config : SessionConfig)

/-- From `TcpStream::connect` to the answer to the hello. -/
def reach : Except String Unit := do
  withContext ("connect " ++ config.addr) attempt.connect
  withContext "tls handshake" attempt.handshake
  withContext "write hello" attempt.writeHello
  let ack ← withContext "read hello ack" attempt.readHelloAck
  checkHelloAck ack

/-- The exporter and the exchange of the PIN. -/
def checkPin : Except String Unit := do
  withContext "tls exporter" attempt.exporter
  attempt.authenticate

end Attempt

namespace ClientSession

variable {h264 : OpenH264} (sha256 : Bytes → Digest) (config : SessionConfig)
  (session : ClientSession h264)

/-- `Live::finished`. -/
def finished : Bool :=
  match config.stopAfterFrames with
  | none => false
  | some limit =>
      if session.pictures.watching.framesDecoded < limit || session.displays.isEmpty then false
      else if config.sendFile.isSome && !session.files.sentOk then false
      else if session.files.outgoing.isSome || session.files.incoming.isSome then false
      else if session.files.sawOffer && session.files.receivedPath.isNone then false
      else true

/-- Events go to the sink in their order. -/
def emit (events : List SinkEvent) : ClientSession h264 :=
  { session with emitted := session.emitted ++ events }

/-- The loop is to send these messages. -/
def reply (msgs : List Message) (writerGone : WriterGone) : ClientSession h264 :=
  { session with
    pipe := { session.pipe with sends := msgs }
    replied := session.replied ++ msgs
    writerGone }

/-- What the report says when a session ends too early. -/
def reportText : String :=
  toString session.displays.length ++ " displays, " ++
    toString session.pictures.watching.framesDecoded.toNat ++ " frames, motion " ++
    toString (session.pictures.watching.displaysWithMotion.map UInt32.toNat) ++ ", sent " ++
    toString session.files.sentOk ++ ", received " ++
    ((session.files.receivedPath.map pathText).getD "none")

/-- The loop breaks. Both tasks are aborted and `Closed` goes to the window, and once more from
both callers when the session was to decode a number of frames and has not. -/
def finish (text : String) : ClientSession h264 :=
  let early :=
    if config.stopAfterFrames.isSome && !session.finished config then
      let text := "session ended before the requested frames and file transfers finished (" ++
        session.reportText ++ ")"
      [.closed text, .closed text]
    else []
  { session.emit (.closed text :: early) with
    reader := session.reader.step .abort, writerUp := false, outcome := some text }

/-- The session returns an error, and both callers say so. -/
def fail (text : String) : ClientSession h264 :=
  { session.emit [.closed text, .closed text] with
    reader := session.reader.step .abort, writerUp := false, outcome := some text }

/-- The end of a turn of the loop, when nothing is left to be sent. -/
def settle : ClientSession h264 :=
  match session.pipe.sends with
  | [] => if session.finished config then session.finish config "session complete" else session
  | _ => session

/-- The events of a call on the transfers. -/
def newFileEvents (before after : Live) : List SinkEvent :=
  (after.events.drop before.events.length).map .file

/-- A message for the transfers in `handle_message`, up to its first send. -/
def handleFile (io : Io) (msg : Message) : ClientSession h264 :=
  match takeFile sha256 io session.files session.disk config.downloadDir msg with
  | (.ok replies, files, disk) =>
      ({ session with files, disk }.emit (newFileEvents session.files files)).reply
        replies .complete
  | (.error err, files, disk) =>
      { session with files, disk }.emit (newFileEvents session.files files ++
        [SinkEvent.status ("file transfer: " ++ transferErrorText err)])

/-- `handle_message`, up to its first send. -/
def handle (io : Io) : Message → ClientSession h264
  | .ping nonce => session.reply [.pong nonce] .ignored
  | .pong _ => session
  | .displays displays => { session with displays }.emit [.displays displays]
  | .video displayId _ _ data =>
      { session with pictures := session.pictures.step (.packet displayId data) }
  | msg => session.handleFile sha256 config io msg

/-- The loop takes what the reader handed over. A reader that is gone hands over nothing. -/
def stepTake (io : Io) : ClientSession h264 :=
  let taken := { session with reader := session.reader.step .take }
  match session.outcome, session.pipe.sends, session.reader.queue with
  | none, [], some (.ok msg) => (taken.handle sha256 config io msg).settle config
  | none, [], some (.error .closed) => taken.finish config "connection closed"
  | none, [], some (.error err) => taken.finish config (protocolErrorText err)
  | none, [], none =>
      if session.reader.up then session else session.finish config "connection closed"
  | _, _, _ => session

/-- `queue_send` for a command. -/
def sendFile (io : Io) (path : Path) : ClientSession h264 :=
  let id := nextClientId session.nextId
  match queueSend sha256 io session.files id path with
  | (.error err, files) =>
      let nextId :=
        match err with
        | .alreadySending => session.nextId
        | .transfer _ => session.nextId + 1
      { session with files, nextId }.emit
        [SinkEvent.status ("send failed: " ++ queueErrorText io id path err)]
  | (.ok msgs, files) =>
      ({ session with files, nextId := session.nextId + 1 }.emit
        (newFileEvents session.files files)).reply msgs .status

/-- One command. -/
def obey (io : Io) : ClientCommand → ClientSession h264
  | .disconnect => session.finish config "disconnected"
  | .input event => session.reply [.input event] .closed
  | .sendFile path => (session.sendFile sha256 io path).settle config

/-- The loop takes a command while the reader has handed over nothing. -/
def stepObey (io : Io) : ClientSession h264 :=
  match session.outcome, session.pipe.sends, session.reader.queue, session.reader.up with
  | none, [], none, true =>
      match session.commands with
      | command :: rest =>
          { session with commands := rest, obeyed := session.obeyed ++ [command] }.obey
            sha256 config io command
      | [] =>
          if session.commandsOpen then session else session.finish config "client closed"
  | _, _, _, _ => session

/-- The loop goes on without what it could not send. -/
def unsent : ClientSession h264 := { session with pipe := { session.pipe with sends := [] } }

/-- The loop sends its next message, or finds the writer gone. -/
def stepSend : ClientSession h264 :=
  match session.outcome, session.pipe.sends, session.writerUp with
  | none, _ :: _, true => { session with pipe := session.pipe.send 64 }.settle config
  | none, _ :: _, false =>
      match session.writerGone with
      | .ignored => session.unsent.settle config
      | .complete => session.unsent.finish config "session complete"
      | .closed => session.unsent.finish config "connection closed"
      | .status => (session.unsent.emit [.status "send failed: send file offer"]).settle config
  | _, _, _ => session

/-- The writer task takes a message, or has written one. -/
def stepWriter (pipe : Pipe Message) : ClientSession h264 :=
  if session.writerUp then { session with pipe } else session

/-- The file of the command line is queued before the loop starts. The counter of ids belongs
to the process. -/
def queueFirst (io : Io) : ClientSession h264 :=
  match config.sendFile with
  | none => session
  | some path =>
      let id := nextClientId session.nextId
      match queueSend sha256 io session.files id path with
      | (.error err, files) =>
          { session with files, nextId := session.nextId + 1 }.fail
            (queueErrorChain io id path err)
      | (.ok msgs, files) =>
          ({ session with files, nextId := session.nextId + 1 }.emit
            (newFileEvents session.files files)).reply msgs .status

/-- `session`, up to its loop. -/
def start (attempt : Attempt) (io : Io) : ClientSession h264 :=
  match withContext ("create " ++ pathText config.downloadDir) attempt.createDir with
  | .error err => session.fail err
  | .ok () =>
      let session := session.emit [.status ("Connecting to " ++ config.addr)]
      match attempt.reach config with
      | .error err => session.fail err
      | .ok () =>
          let session := session.emit [.status "Checking PIN"]
          match attempt.checkPin with
          | .error err => session.fail err
          | .ok () =>
              (session.emit [.status ("Connected to " ++ config.addr)]).queueFirst sha256 config io

/-- One event. -/
def step : ClientEvent → ClientSession h264
  | .reader .take => session
  | .reader event => { session with reader := session.reader.step event }
  | .take io => session.stepTake sha256 config io
  | .command command =>
      if session.commandsOpen then
        { session with
          commands := session.commands ++ [command]
          commanded := session.commanded ++ [command] }
      else session
  | .closeCommands => { session with commandsOpen := false }
  | .obey io => session.stepObey sha256 config io
  | .send => session.stepSend config
  | .writerTakes => session.stepWriter session.pipe.poll
  | .wrote => session.stepWriter (session.pipe.wrote (session.pipe.wire.length + 1))
  | .writerDied =>
      if session.pipe.writing.isSome then { session with writerUp := false } else session
  | .paint => { session with pictures := session.pictures.step .taken }

end ClientSession

end OmarchyConnect.Client
