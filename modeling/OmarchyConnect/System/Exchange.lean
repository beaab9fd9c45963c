/-
# Files in both directions

A host and a client are joined by two FIFO channels. Either end starts a transfer
while it sends no other, takes the messages that arrive and writes its replies, in any
order. The machine remembers which transfers were started, confirmed and finished.
-/

import OmarchyConnect.Client.Transfers
import OmarchyConnect.Library.Runs
import OmarchyConnect.Protocol.Auth

namespace OmarchyConnect.System

open OmarchyConnect.Library.Wire OmarchyConnect.Library.Files OmarchyConnect.Library.Runs
open OmarchyConnect.Protocol OmarchyConnect.Host OmarchyConnect.Client

/-- The side that sends a file, by the top bit of the id. -/
def sideOf (id : UInt32) : Side := if id < 0x80000000 then .client else .host

/-- The id of the transfer that a message is about. -/
def fileId : Message → Option UInt32
  | .fileOffer id _ _ => some id
  | .fileAccept id => some id
  | .fileChunk id _ _ => some id
  | .fileAck id _ => some id
  | .fileComplete id _ => some id
  | .fileCancel id _ => some id
  | _ => none

/-- The side whose transfer a message is about. -/
def direction (msg : Message) : Option Side := (fileId msg).map sideOf

/-- A system on which every call succeeds and every file has a fixed content. -/
def fixedIo (files : Path → Bytes) : Io where
  metadata := fun path => .ok (UInt64.ofNat (files path).length)
  readAt := fun file offset n =>
    let data := ((files file.path).drop offset.toNat).take n
    if h : data.length = n then .ok ⟨data, h⟩ else .error ⟨"failed to fill whole buffer"⟩

/-- What does not change: the files of either side, and the directories on the one disk
that either side saves into. -/
structure Setup where
  sha256 : Bytes → Digest
  files : Side → Path → { content : Bytes // content.length < 2 ^ 64 }
  downloads : Side → Path
  distinct : downloads .client ≠ downloads .host
  disk : Disk UInt8

/-- A transfer that was saved: its id, the path and what stood there right then. -/
structure Saved where
  id : UInt32
  path : Path
  content : Option Bytes
  deriving DecidableEq

/-- The two ends and what is between them. `replies` is what an end has to write and
`wire` what is on the way to an end; the records are kept for the sending side. -/
structure Exchange where
  xfer : Transfers := {}
  live : Live := {}
  disk : Disk UInt8
  next : Side → UInt32 := fun _ => 1
  replies : Side → List Message := fun _ => []
  wire : Side → List Message := fun _ => []
  started : Side → List (UInt32 × Path) := fun _ => []
  confirmed : Side → List UInt32 := fun _ => []
  finished : Side → List Saved := fun _ => []

/-- What may happen, in any order. -/
inductive ExchangeEvent
  | start (side : Side) (path : Path)
  | deliver (side : Side)
  | write (side : Side)

/-- The id that an end takes next. -/
def newId (side : Side) (counter : UInt32) : UInt32 :=
  match side with
  | .client => nextClientId counter
  | .host => nextId true counter

/-- The transfer that a dispatcher has just taken out of the outgoing slot. -/
def confirmedBy (before after : Transfers) : List UInt32 :=
  match before.outgoing, after.outgoing with
  | some sender, none => [sender.id]
  | _, _ => []

/-- The transfer that a dispatcher has just taken out of the incoming slot. -/
def finishedBy (before after : Transfers) (disk : Disk UInt8) : List Saved :=
  match before.incoming, after.incoming with
  | some receiver, none =>
      [⟨receiver.id, receiver.finalPath, disk.files receiver.finalPath⟩]
  | _, _ => []

namespace Exchange

variable (setup : Setup) (state : Exchange)

/-- Nothing has been started. -/
def init : Exchange := { disk := setup.disk }

/-- The two slots of an end. -/
def slots : Side → Transfers
  | .client => state.live.transfers
  | .host => state.xfer

/-- The files of an end, which no call fails on. -/
def io (side : Side) : Io := fixedIo fun path => (setup.files side path).val

/-- Hand a message to the dispatcher of an end. -/
def take (side : Side) (msg : Message) : Except FileTransferError (List Message) × Exchange :=
  match side with
  | .client =>
      let (result, live, disk) := takeFile setup.sha256 (io setup .client) state.live state.disk
        (setup.downloads .client) msg
      (result, { state with live, disk })
  | .host =>
      let (result, xfer, disk) := takeFileReplies setup.sha256 (io setup .host) state.xfer
        state.disk (setup.downloads .host) msg
      (result, { state with xfer, disk })

/-- Offer a file under the next id of the end. -/
def offer (side : Side) (path : Path) : Except QueueError (List Message) × Exchange :=
  match side with
  | .client =>
      let (result, live) := queueSend setup.sha256 (io setup .client) state.live
        (newId .client (state.next .client)) path
      (result, { state with live })
  | .host =>
      match offerFile setup.sha256 (io setup .host) state.xfer
        (newId .host (state.next .host)) path with
      | (.error err, xfer) => (.error (.transfer err), { state with xfer })
      | (.ok msgs, xfer) => (.ok msgs, { state with xfer })

/-- Start a transfer, unless one is going out already. -/
def start (side : Side) (path : Path) : Exchange :=
  match (state.slots side).outgoing with
  | some _ => state
  | none =>
      let next := Function.update state.next side (state.next side + 1)
      match state.offer setup side path with
      | (.error _, after) => { after with next }
      | (.ok msgs, after) =>
          { after with
            next
            replies := Function.update state.replies side (state.replies side ++ msgs)
            started := Function.update state.started side
              (state.started side ++ [(newId side (state.next side), path)]) }

/-- Take the next message that has arrived at an end. -/
def deliver (side : Side) : Exchange :=
  match state.wire side with
  | [] => state
  | msg :: rest =>
      match state.take setup side msg with
      | (.error _, after) => { after with wire := Function.update state.wire side rest }
      | (.ok replies, after) =>
          { after with
            wire := Function.update state.wire side rest
            replies := Function.update state.replies side (state.replies side ++ replies)
            confirmed := Function.update state.confirmed side
              (state.confirmed side ++ confirmedBy (state.slots side) (after.slots side))
            finished := Function.update state.finished side.peer
              (state.finished side.peer ++
                finishedBy (state.slots side) (after.slots side) after.disk) }

/-- Write the next reply of an end. -/
def write (side : Side) : Exchange :=
  match state.replies side with
  | [] => state
  | msg :: rest =>
      { state with
        replies := Function.update state.replies side rest
        wire := Function.update state.wire side.peer (state.wire side.peer ++ [msg]) }

/-- One event. -/
def step : ExchangeEvent → Exchange
  | .start side path => state.start setup side path
  | .deliver side => state.deliver setup side
  | .write side => state.write side

/-- What the handler of the event returns. -/
def outcome : ExchangeEvent → Except QueueError (List Message)
  | .start side path =>
      match (state.slots side).outgoing with
      | some _ => .ok []
      | none => (state.offer setup side path).1
  | .deliver side =>
      match state.wire side with
      | [] => .ok []
      | msg :: _ =>
          match (state.take setup side msg).1 with
          | .error err => .error (.transfer err)
          | .ok replies => .ok replies
  | .write _ => .ok []

end Exchange

/-! ## The promises -/

/-- The handler returns messages, and none of them gives a transfer up. -/
def Exchange.Succeeds (setup : Setup) (state : Exchange) (event : ExchangeEvent) : Prop :=
  ∃ msgs, state.outcome setup event = .ok msgs ∧ ∀ id reason, .fileCancel id reason ∉ msgs

/-- The transfer of a side: its sender, its receiver and the files where it is saved. -/
def Exchange.transfer (setup : Setup) (state : Exchange) (side : Side) :
    Option FileSender × Option FileReceiver × (String → Option Bytes) :=
  ((state.slots side).outgoing, (state.slots side.peer).incoming,
    fun name => state.disk.files (setup.downloads side.peer ++ [name]))

/-- The event is about the transfer of the side. -/
def Exchange.Concerns (state : Exchange) (event : ExchangeEvent) (side : Side) : Prop :=
  match event with
  | .start other _ => other = side
  | .deliver other => ∃ msg ∈ (state.wire other).head?, direction msg = some side
  | .write _ => False

/-- The event leaves a transfer alone that it is not about. -/
def Exchange.Separate (setup : Setup) (state : Exchange) (event : ExchangeEvent) : Prop :=
  ∀ side, ¬ state.Concerns event side →
    (state.step setup event).transfer setup side = state.transfer setup side

/-- No file message is in flight. -/
def Exchange.Quiescent (state : Exchange) : Prop :=
  ∀ side, state.wire side = [] ∧ state.replies side = []

/-- The name that a file is saved under: reduced by the sender and by the receiver. -/
def savedName (path : Path) : String :=
  sanitizeFileName (sanitizeFileName (path.getLast?.getD "file.bin"))

/-- Where a file of an end is saved. -/
def Setup.savedAt (setup : Setup) (side : Side) (path : Path) : Path :=
  setup.downloads side.peer ++ [savedName path]

/-- The record of a finished transfer whose saved bytes are the sender's file. -/
def Setup.savedRecord (setup : Setup) (side : Side) (transfer : UInt32 × Path) : Saved :=
  ⟨transfer.1, setup.savedAt side transfer.2, some (setup.files side transfer.2).val⟩

/-- All that was started by the side is confirmed and finished, each with the bytes of
its file, and nothing is left in the slots. A file stands where it was saved unless
one that was started later was saved there. -/
structure Exchange.Complete (setup : Setup) (state : Exchange) (side : Side) : Prop where
  outgoing : (state.slots side).outgoing = none
  incoming : (state.slots side.peer).incoming = none
  confirmed : state.confirmed side = (state.started side).map Prod.fst
  finished : state.finished side = (state.started side).map (setup.savedRecord side)
  saved : ∀ front id path back, state.started side = front ++ (id, path) :: back →
    (∀ later ∈ back, savedName later.2 ≠ savedName path) →
      state.disk.files (setup.savedAt side path) = some (setup.files side path).val

/-- The promises of a run. -/
structure EndToEnd (setup : Setup) (events : List ExchangeEvent) : Prop where
  succeeds : Along (Exchange.step setup) (Exchange.Succeeds setup) (Exchange.init setup) events
  separate : Along (Exchange.step setup) (Exchange.Separate setup) (Exchange.init setup) events
  complete : (run (Exchange.step setup) (Exchange.init setup) events).Quiescent →
    ∀ side, (run (Exchange.step setup) (Exchange.init setup) events).Complete setup side

end OmarchyConnect.System
