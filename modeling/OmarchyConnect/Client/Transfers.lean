/-
# File transfers of a client session

`Live` keeps the two slots together with what the report of the session needs, and
`takeFile` also tells the user interface how far a transfer is. Apart from that it
is the host's dispatcher: `takeFile_eq` says so, and what is proved about the
slots of the host is used for the client through it.
-/

import OmarchyConnect.Host.Transfers

namespace OmarchyConnect.Client

open OmarchyConnect.Library.Wire OmarchyConnect.Library.Files OmarchyConnect.Protocol
open OmarchyConnect.Host (Transfers Dispatched takeIncoming takeFileReplies
  onlyFiles_takeFileReplies)

/-- The progress of a transfer for the user interface. -/
structure FileEvent where
  incoming : Bool
  name : String
  transferred : UInt64
  total : UInt64
  done : Bool
  deriving DecidableEq

/-- The file part of a live session, and the events that went to the interface. -/
structure Live where
  outgoing : Option FileSender := none
  incoming : Option FileReceiver := none
  sentOk : Bool := false
  sawOffer : Bool := false
  receivedPath : Option Path := none
  events : List FileEvent := []
  deriving DecidableEq

/-- The two slots, as the host has them. -/
def Live.transfers (live : Live) : Transfers :=
  { outgoing := live.outgoing, incoming := live.incoming }

/-- An event about files goes to the window. -/
def Live.emit (live : Live) (event : FileEvent) : Live :=
  { live with events := live.events ++ [event] }

/-- What a call of the dispatcher returns: its result, the session and the disk. -/
abbrev Taken := Except FileTransferError (List Message) × Live × Disk UInt8

variable (sha256 : Bytes → Digest)

/-- The part of `takeFile` behind the outgoing slot. -/
def takeIncomingFile (io : Io) (live : Live) (disk : Disk UInt8) (downloadDir : Path)
    (msg : Message) : Taken :=
  match msg with
  | .fileOffer id name size =>
      let live := { live with sawOffer := true }
      match live.incoming with
      | some _ => (.ok [.fileCancel id "a file is already incoming"], live, disk)
      | none =>
          match FileReceiver.accept io disk downloadDir id name size with
          | (.error err, disk) => (.error err, live, disk)
          | (.ok (receiver, accept), disk) =>
              let live := live.emit ⟨true, receiver.name, 0, receiver.size, false⟩
              (.ok [accept], { live with incoming := some receiver }, disk)
  | msg =>
      match live.incoming with
      | none => (.ok [], live, disk)
      | some incoming =>
          match incoming.handle sha256 io disk msg with
          | (.ok more, incoming, disk) =>
              let done := incoming.isComplete
              let live := live.emit ⟨true, incoming.name, incoming.received, incoming.size, done⟩
              if done then
                (.ok more, { live with receivedPath := incoming.savedPath, incoming := none }, disk)
              else (.ok more, { live with incoming := some incoming }, disk)
          | (.error err, _, disk) => (.error err, { live with incoming := none }, disk)

/-- `take_file`. -/
def takeFile (io : Io) (live : Live) (disk : Disk UInt8) (downloadDir : Path)
    (msg : Message) : Taken :=
  match live.outgoing with
  | none => takeIncomingFile sha256 io live disk downloadDir msg
  | some outgoing =>
      match outgoing.onPeer msg with
      | (.ok true, outgoing) =>
          match outgoing.poll sha256 io with
          | (.error err, outgoing) => (.error err, { live with outgoing := some outgoing }, disk)
          | (.ok replies, outgoing) =>
              let done := outgoing.isComplete
              let live := live.emit ⟨false, outgoing.name, outgoing.acked, outgoing.size, done⟩
              if done then (.ok replies, { live with sentOk := true, outgoing := none }, disk)
              else (.ok replies, { live with outgoing := some outgoing }, disk)
      | (.ok false, outgoing) =>
          takeIncomingFile sha256 io { live with outgoing := some outgoing } disk downloadDir msg
      | (.error err, _) => (.error err, { live with outgoing := none }, disk)

/-- The id of a file that the client sends. -/
def nextClientId (counter : UInt32) : UInt32 := counter &&& 0x7fffffff

/-- Why a file could not be queued. -/
inductive QueueError
  | alreadySending
  | transfer (err : FileTransferError)
  deriving DecidableEq

/-- `queue_send`. -/
def queueSend (io : Io) (live : Live) (id : UInt32) (path : Path) :
    Except QueueError (List Message) × Live :=
  match live.outgoing with
  | some _ => (.error .alreadySending, live)
  | none =>
      match FileSender.openFile io id path with
      | .error err => (.error (.transfer err), live)
      | .ok sender =>
          match sender.poll sha256 io with
          | (.error err, _) => (.error (.transfer err), live)
          | (.ok msgs, sender) =>
              let live := live.emit ⟨false, sender.name, sender.acked, sender.size, false⟩
              (.ok msgs, { live with outgoing := some sender })

/-! ## The client dispatches as the host does -/

/-- Forget what only the client keeps. -/
def Taken.dispatched (taken : Taken) : Dispatched := (taken.1, taken.2.1.transfers, taken.2.2)

/-- The receiving half is the one of the host. -/
theorem takeIncomingFile_eq (io : Io) (live : Live) (disk : Disk UInt8) (downloadDir : Path)
    (msg : Message) :
    (takeIncomingFile sha256 io live disk downloadDir msg).dispatched =
      takeIncoming sha256 io live.transfers disk downloadDir msg := by
  obtain ⟨outgoing, incoming, sentOk, sawOffer, receivedPath, events⟩ := live
  unfold takeIncomingFile takeIncoming
  cases msg with
  | fileOffer id name size =>
      cases incoming with
      | some receiver => rfl
      | none =>
          simp only [Live.transfers]
          generalize FileReceiver.accept io disk downloadDir id name size = accepted
          obtain ⟨result, disk⟩ := accepted
          cases result <;> rfl
  | _ =>
      cases incoming with
      | none => rfl
      | some receiver =>
          simp only [Live.transfers]
          generalize receiver.handle sha256 io disk _ = handled
          obtain ⟨result, receiver, disk⟩ := handled
          cases result with
          | error err => rfl
          | ok more =>
              cases hdone : receiver.isComplete
              · simp only [hdone]
                rfl
              · simp only [hdone]
                rfl

/-- The client answers every message as the host would, and does the same to its
slots and its disk. -/
theorem takeFile_eq (io : Io) (live : Live) (disk : Disk UInt8) (downloadDir : Path)
    (msg : Message) :
    (takeFile sha256 io live disk downloadDir msg).dispatched =
      takeFileReplies sha256 io live.transfers disk downloadDir msg := by
  obtain ⟨outgoing, incoming, sentOk, sawOffer, receivedPath, events⟩ := live
  unfold takeFile takeFileReplies
  cases outgoing with
  | none => exact takeIncomingFile_eq sha256 io _ disk downloadDir msg
  | some sender =>
      simp only [Live.transfers]
      generalize sender.onPeer msg = taken
      obtain ⟨result, sender⟩ := taken
      cases result with
      | error err => rfl
      | ok mine =>
          cases mine with
          | false => exact takeIncomingFile_eq sha256 io _ disk downloadDir msg
          | true =>
              simp only
              generalize sender.poll sha256 io = polled
              obtain ⟨result, sender⟩ := polled
              cases result with
              | error err => rfl
              | ok replies =>
                  cases hdone : sender.isComplete
                  · simp only [hdone]
                    rfl
                  · simp only [hdone]
                    rfl

/-- Queueing a file puts the same sender into the slot as the host's offer. -/
theorem queueSend_eq (io : Io) {live : Live} (hfree : live.outgoing = none) (id : UInt32)
    (path : Path) :
    (queueSend sha256 io live id path).2.transfers =
      (Host.offerFile sha256 io live.transfers id path).2 := by
  unfold queueSend Host.offerFile
  simp only [hfree]
  cases FileSender.openFile io id path with
  | error err => rfl
  | ok sender =>
      simp only
      generalize sender.poll sha256 io = polled
      obtain ⟨result, sender⟩ := polled
      cases result <;> rfl

/-- The client answers with messages about files, as the host does. -/
theorem onlyFiles_takeFile (io : Io) (live : Live) (disk : Disk UInt8) (downloadDir : Path)
    (msg : Message) {replies : List Message}
    (h : (takeFile sha256 io live disk downloadDir msg).1 = .ok replies) : OnlyFiles replies := by
  have hsame := congrArg Prod.fst (takeFile_eq sha256 io live disk downloadDir msg)
  exact onlyFiles_takeFileReplies sha256 io live.transfers disk downloadDir msg (hsame ▸ h)

/-- What is sent for a file that is queued is about files. -/
theorem onlyFiles_queueSend (io : Io) (live : Live) (id : UInt32) (path : Path)
    {msgs : List Message} (h : (queueSend sha256 io live id path).1 = .ok msgs) :
    OnlyFiles msgs := by
  unfold queueSend at h
  split at h
  next => cases h
  next =>
    split at h
    next => cases h
    next sender _ =>
      have hpoll := fun out => @onlyFiles_poll sha256 io sender out
      split at h
      next => cases h
      next heq =>
        cases h
        exact hpoll msgs (by rw [heq])

end OmarchyConnect.Client
