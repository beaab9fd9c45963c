/-
# The queues between the two ends

The tasks of a host session put their messages into `ctrl`, which holds 32 of them, and
the writer task puts them on the connection. The client's loop takes what has arrived,
hands it to `handle_message` and puts the replies into a channel of 64, from which its
own writer puts them on the connection. A task that finds a full queue waits, and while
it waits it takes nothing. The connection holds a number of messages in each direction.

The host offers files where its reader would take the next message. A client that has
finished takes no more steps.
-/

import OmarchyConnect.Library.Pipe
import OmarchyConnect.System.Exchange

namespace OmarchyConnect.System

open OmarchyConnect.Library OmarchyConnect.Library.Wire OmarchyConnect.Library.Files
open OmarchyConnect.Protocol OmarchyConnect.Host OmarchyConnect.Client

/-- How much the channel of an end holds. -/
def ctrlCapacity : Side → ℕ
  | .host => 32
  | .client => 64

/-- The two ends and all that is queued between them, under the end that sends it. What
a task has still to put into the channel is in `sends`. The video channel of the host
holds one packet. -/
structure Link where
  xfer : Transfers := {}
  live : Live := {}
  disk : Disk UInt8
  next : Side → UInt32 := fun _ => 1
  pipes : Side → Pipe Message
  video : Option Message := none

/-- What may happen, in any order. -/
inductive LinkEvent
  | send (side : Side)
  | poll (side : Side)
  | wrote (side : Side)
  | hostOffer (path : Path)
  | hostFrame (displayId ptsMs : UInt32) (keyframe : Bool) (data : Bytes)
  | hostPollVideo
  | hostTake
  | clientTake
  | clientInput (event : InputEvent)
  | clientSendFile (path : Path)

/-- A packet of a picture. -/
def isVideo : Message → Bool
  | .video _ _ _ _ => true
  | _ => false

namespace Link

variable (setup : Setup) (room : ℕ) (state : Link)

/-- The session has still to send its displays. -/
def init (displays : List DisplayInfo) : Link where
  disk := setup.disk
  pipes := fun side =>
    match side with
    | .host => { sends := [.displays displays] }
    | .client => {}

/-- One of the two pipes is replaced. -/
def setPipe (side : Side) (pipe : Pipe Message) : Link :=
  { state with pipes := Function.update state.pipes side pipe }

/-- Only the pipe of this end is another one. -/
@[simp]
theorem pipes_setPipe (side : Side) (pipe : Pipe Message) :
    (state.setPipe side pipe).pipes = Function.update state.pipes side pipe := rfl

/-- What an end has to send next. -/
def setSends (side : Side) (msgs : List Message) : Link :=
  state.setPipe side { state.pipes side with sends := msgs }

/-- What has arrived at the other end of a pipe. -/
def setWire (side : Side) (msgs : List Message) : Link :=
  state.setPipe side { state.pipes side with wire := msgs }

/-- `drive_session` offers a file. -/
def hostOffer (path : Path) : Link :=
  match (state.pipes .host).sends, state.xfer.outgoing with
  | [], none =>
      let next := Function.update state.next .host (state.next .host + 1)
      match offerFile setup.sha256 (Exchange.io setup .host) state.xfer
        (newId .host (state.next .host)) path with
      | (.error _, xfer) => { state with xfer, next }
      | (.ok msgs, xfer) => { state.setSends .host msgs with xfer, next }
  | _, _ => state

/-- `video_tx.send`. -/
def hostFrame (msg : Message) : Link :=
  match state.video with
  | some _ => state
  | none => { state with video := some msg }

/-- The writer finds a packet. -/
def hostPollVideo : Link :=
  match (state.pipes .host).writing, state.video with
  | none, some msg =>
      { state.setPipe .host { state.pipes .host with writing := some msg } with video := none }
  | _, _ => state

/-- The reader takes the next message, when it has sent its replies to the one before. -/
def hostTake : Link :=
  match (state.pipes .host).sends, (state.pipes .client).wire with
  | [], msg :: rest =>
      let taken := state.setWire .client rest
      match msg with
      | .ping nonce => taken.setSends .host [.pong nonce]
      | msg =>
          match takeFileReplies setup.sha256 (Exchange.io setup .host) state.xfer state.disk
            (setup.downloads .host) msg with
          | (.error _, xfer, disk) => { taken with xfer, disk }
          | (.ok replies, xfer, disk) => { taken.setSends .host replies with xfer, disk }
  | _, _ => state

/-- The client's loop takes the next message and hands it to `handle_message`. -/
def clientTake : Link :=
  match (state.pipes .client).sends, (state.pipes .host).wire with
  | [], msg :: rest =>
      let taken := state.setWire .host rest
      match msg with
      | .ping nonce => taken.setSends .client [.pong nonce]
      | .pong _ => taken
      | .displays _ => taken
      | .video _ _ _ _ => taken
      | msg =>
          match takeFile setup.sha256 (Exchange.io setup .client) state.live state.disk
            (setup.downloads .client) msg with
          | (.error _, live, disk) => { taken with live, disk }
          | (.ok replies, live, disk) => { taken.setSends .client replies with live, disk }
  | _, _ => state

/-- The client queues an input where its task is free. -/
def clientInput (event : InputEvent) : Link :=
  match (state.pipes .client).sends with
  | [] => state.setSends .client [.input event]
  | _ => state

/-- The client starts a transfer where its task and its slot are free. -/
def clientSendFile (path : Path) : Link :=
  match (state.pipes .client).sends, state.live.outgoing with
  | [], none =>
      let next := Function.update state.next .client (state.next .client + 1)
      match queueSend setup.sha256 (Exchange.io setup .client) state.live
        (newId .client (state.next .client)) path with
      | (.error _, live) => { state with live, next }
      | (.ok msgs, live) => { state.setSends .client msgs with live, next }
  | _, _ => state

/-- One event. -/
def step : LinkEvent → Link
  | .send side => state.setPipe side ((state.pipes side).send (ctrlCapacity side))
  | .poll side => state.setPipe side (state.pipes side).poll
  | .wrote side => state.setPipe side ((state.pipes side).wrote room)
  | .hostOffer path => state.hostOffer setup path
  | .hostFrame displayId ptsMs keyframe data =>
      state.hostFrame (.video displayId ptsMs keyframe data)
  | .hostPollVideo => state.hostPollVideo
  | .hostTake => state.hostTake setup
  | .clientTake => state.clientTake setup
  | .clientInput event => state.clientInput event
  | .clientSendFile path => state.clientSendFile setup path

/-! ## The promise -/

/-- The messages that were put into the host's `ctrl` and that the client has not
processed: those in `ctrl`, those that are written or on the connection, and the one
whose replies the client may be sending. -/
def unprocessed : ℕ :=
  let pipe := state.pipes .host
  pipe.queue.length +
    ((pipe.wire ++ pipe.writing.toList).filter fun msg => !isVideo msg).length +
      (if (state.pipes .client).sends = [] then 0 else 1)

/-- Nothing is left to be sent, written or taken. -/
structure Idle : Prop where
  pipes : ∀ side, (state.pipes side).Empty
  video : state.video = none

/-- The steps that need no user, no file and no new picture. -/
def Internal : LinkEvent → Prop
  | .send _ | .poll _ | .wrote _ | .hostPollVideo | .hostTake | .clientTake => True
  | _ => False

/-- `ctrl` has room for what waits to be sent, and something can move while anything is
queued. -/
structure Flows : Prop where
  unprocessed : state.unprocessed < ctrlCapacity .host
  sends : ∀ msg rest, (state.pipes .host).sends = msg :: rest →
    (state.step setup room (.send .host)).pipes .host =
      { state.pipes .host with sends := rest, queue := (state.pipes .host).queue ++ [msg] }
  moves : 0 < room → state.Idle ∨
    ∃ event, Internal event ∧ state.step setup room event ≠ state

end Link

end OmarchyConnect.System
