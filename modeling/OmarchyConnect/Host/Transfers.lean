/-
# File transfers of a host session

A session has one slot for each direction. The reader task passes every message to
`takeFileReplies`: the sender in the outgoing slot sees it first, then an offer or
the receiver in the incoming slot. What it returns is written to the client; an
error is only logged.
-/

import OmarchyConnect.Protocol.FileMessages

namespace OmarchyConnect.Host

open OmarchyConnect.Library.Wire OmarchyConnect.Library.Files OmarchyConnect.Protocol

/-- The transfers of a session, one in each direction. -/
structure Transfers where
  outgoing : Option FileSender := none
  incoming : Option FileReceiver := none
  deriving DecidableEq

/-- What a call of the dispatcher returns: its result, the slots and the disk. -/
abbrev Dispatched := Except FileTransferError (List Message) × Transfers × Disk UInt8

variable (sha256 : Bytes → Digest)

/-- The part of `takeFileReplies` behind the outgoing slot. -/
def takeIncoming (io : Io) (xfer : Transfers) (disk : Disk UInt8) (downloadDir : Path)
    (msg : Message) : Dispatched :=
  match msg with
  | .fileOffer id name size =>
      match xfer.incoming with
      | some _ => (.ok [.fileCancel id "a file is already incoming"], xfer, disk)
      | none =>
          match FileReceiver.accept io disk downloadDir id name size with
          | (.error err, disk) => (.error err, xfer, disk)
          | (.ok (receiver, accept), disk) =>
              (.ok [accept], { xfer with incoming := some receiver }, disk)
  | msg =>
      match xfer.incoming with
      | none => (.ok [], xfer, disk)
      | some incoming =>
          match incoming.handle sha256 io disk msg with
          | (.ok more, incoming, disk) =>
              if incoming.isComplete then (.ok more, { xfer with incoming := none }, disk)
              else (.ok more, { xfer with incoming := some incoming }, disk)
          | (.error err, _, disk) => (.error err, { xfer with incoming := none }, disk)

/-- `take_file_replies`. -/
def takeFileReplies (io : Io) (xfer : Transfers) (disk : Disk UInt8) (downloadDir : Path)
    (msg : Message) : Dispatched :=
  match xfer.outgoing with
  | none => takeIncoming sha256 io xfer disk downloadDir msg
  | some outgoing =>
      match outgoing.onPeer msg with
      | (.ok true, outgoing) =>
          match outgoing.poll sha256 io with
          | (.error err, outgoing) =>
              (.error err, { xfer with outgoing := some outgoing }, disk)
          | (.ok replies, outgoing) =>
              if outgoing.isComplete then (.ok replies, { xfer with outgoing := none }, disk)
              else (.ok replies, { xfer with outgoing := some outgoing }, disk)
      | (.ok false, outgoing) =>
          takeIncoming sha256 io { xfer with outgoing := some outgoing } disk downloadDir msg
      | (.error err, _) => (.error err, { xfer with outgoing := none }, disk)

/-- The id that `next_id` makes of its counter. Files that the host offers have the
top bit set. -/
def nextId (host : Bool) (counter : UInt32) : UInt32 :=
  let id := counter &&& 0x7fffffff
  if host then id ||| 0x80000000 else id

/-- Offer the file of the configuration, as `drive_session` does. -/
def offerFile (io : Io) (xfer : Transfers) (id : UInt32) (path : Path) :
    Except FileTransferError (List Message) × Transfers :=
  match FileSender.openFile io id path with
  | .error err => (.error err, xfer)
  | .ok sender =>
      match sender.poll sha256 io with
      | (.error err, _) => (.error err, xfer)
      | (.ok msgs, sender) => (.ok msgs, { xfer with outgoing := some sender })

/-! ## What the dispatcher can do -/

/-- No outgoing transfer takes the message. -/
def Transfers.PassesSender (xfer : Transfers) (msg : Message) : Prop :=
  ∀ sender ∈ xfer.outgoing, msg.forSender ≠ some sender.id

/-- All that `takeFileReplies` can do with a message. -/
inductive Dispatch (io : Io) (xfer : Transfers) (disk : Disk UInt8) (downloadDir : Path) :
    Message → Dispatched → Prop
  | polled {msg : Message} {sender taken next : FileSender} {replies : List Message}
      (hout : xfer.outgoing = some sender) (htaken : sender.Taken msg (.ok true, taken))
      (hpoll : taken.poll sha256 io = (.ok replies, next)) :
      Dispatch io xfer disk downloadDir msg
        (.ok replies, { xfer with outgoing := if next.isComplete then none else some next }, disk)
  | pollFailed {msg : Message} {sender taken next : FileSender} {err : FileTransferError}
      (hout : xfer.outgoing = some sender) (htaken : sender.Taken msg (.ok true, taken))
      (hpoll : taken.poll sha256 io = (.error err, next)) :
      Dispatch io xfer disk downloadDir msg
        (.error err, { xfer with outgoing := some next }, disk)
  | senderFailed {msg : Message} {sender failed : FileSender} {err : FileTransferError}
      (hout : xfer.outgoing = some sender) (htaken : sender.Taken msg (.error err, failed)) :
      Dispatch io xfer disk downloadDir msg (.error err, { xfer with outgoing := none }, disk)
  | busy {id : UInt32} {name : String} {size : UInt64} {receiver : FileReceiver}
      (hin : xfer.incoming = some receiver) :
      Dispatch io xfer disk downloadDir (.fileOffer id name size)
        (.ok [.fileCancel id "a file is already incoming"], xfer, disk)
  | notAccepted {id : UInt32} {name : String} {size : UInt64} {err : FileTransferError}
      {next : Disk UInt8} (hin : xfer.incoming = none)
      (haccept : FileReceiver.accept io disk downloadDir id name size = (.error err, next)) :
      Dispatch io xfer disk downloadDir (.fileOffer id name size) (.error err, xfer, next)
  | accepted {id : UInt32} {name : String} {size : UInt64} {receiver : FileReceiver}
      {reply : Message} {next : Disk UInt8} (hin : xfer.incoming = none)
      (haccept : FileReceiver.accept io disk downloadDir id name size =
        (.ok (receiver, reply), next)) :
      Dispatch io xfer disk downloadDir (.fileOffer id name size)
        (.ok [reply], { xfer with incoming := some receiver }, next)
  | idle {msg : Message} (hpass : xfer.PassesSender msg)
      (hoffer : ∀ id name size, msg ≠ .fileOffer id name size) (hin : xfer.incoming = none) :
      Dispatch io xfer disk downloadDir msg (.ok [], xfer, disk)
  | handled {msg : Message} {receiver next : FileReceiver} {more : List Message}
      {after : Disk UInt8} (hpass : xfer.PassesSender msg)
      (hoffer : ∀ id name size, msg ≠ .fileOffer id name size)
      (hin : xfer.incoming = some receiver)
      (hhandle : receiver.handle sha256 io disk msg = (.ok more, next, after)) :
      Dispatch io xfer disk downloadDir msg
        (.ok more, { xfer with incoming := if next.isComplete then none else some next }, after)
  | handleFailed {msg : Message} {receiver next : FileReceiver} {err : FileTransferError}
      {after : Disk UInt8} (hpass : xfer.PassesSender msg)
      (hoffer : ∀ id name size, msg ≠ .fileOffer id name size)
      (hin : xfer.incoming = some receiver)
      (hhandle : receiver.handle sha256 io disk msg = (.error err, next, after)) :
      Dispatch io xfer disk downloadDir msg (.error err, { xfer with incoming := none }, after)

/-- What the receiving half can do. -/
theorem dispatch_takeIncoming (io : Io) {xfer : Transfers} (disk : Disk UInt8)
    (downloadDir : Path) {msg : Message} (hpass : xfer.PassesSender msg) :
    Dispatch sha256 io xfer disk downloadDir msg
      (takeIncoming sha256 io xfer disk downloadDir msg) := by
  unfold takeIncoming
  split
  next id name size =>
    split
    next hin => exact Dispatch.busy hin
    next hin =>
      split
      next haccept => exact Dispatch.notAccepted hin haccept
      next haccept => exact Dispatch.accepted hin haccept
  next hoffer =>
    split
    next hin => exact Dispatch.idle hpass hoffer hin
    next hin =>
      split
      next more next after hhandle =>
        have hstep : Dispatch sha256 io xfer disk downloadDir _ _ :=
          Dispatch.handled hpass hoffer hin hhandle
        by_cases hdone : next.isComplete = true
        · rw [if_pos hdone] at hstep ⊢
          exact hstep
        · rw [if_neg hdone] at hstep ⊢
          exact hstep
      next hhandle => exact Dispatch.handleFailed hpass hoffer hin hhandle

/-- `takeFileReplies` does nothing else. -/
theorem dispatch (io : Io) (xfer : Transfers) (disk : Disk UInt8) (downloadDir : Path)
    (msg : Message) :
    Dispatch sha256 io xfer disk downloadDir msg
      (takeFileReplies sha256 io xfer disk downloadDir msg) := by
  unfold takeFileReplies
  cases hout : xfer.outgoing with
  | none =>
      have hpass : xfer.PassesSender msg := by simp [Transfers.PassesSender, hout]
      exact dispatch_takeIncoming sha256 io disk downloadDir hpass
  | some sender =>
      have htaken := sender.taken msg
      simp only
      generalize sender.onPeer msg = taken at htaken ⊢
      obtain ⟨result, taken⟩ := taken
      match result with
      | .error err => exact Dispatch.senderFailed hout htaken
      | .ok false =>
          cases htaken with
          | other hmsg =>
              have hsame : { xfer with outgoing := some sender } = xfer := by
                rw [← hout]
              have hpass : xfer.PassesSender msg := by
                intro other hother
                rw [hout] at hother
                rw [← Option.some.inj hother]
                exact hmsg
              simp only [hsame]
              exact dispatch_takeIncoming sha256 io disk downloadDir hpass
      | .ok true =>
          simp only
          generalize hpoll : taken.poll sha256 io = polled
          obtain ⟨result, next⟩ := polled
          cases result with
          | error err => exact Dispatch.pollFailed hout htaken hpoll
          | ok replies =>
              have hstep : Dispatch sha256 io xfer disk downloadDir msg _ :=
                Dispatch.polled hout htaken hpoll
              by_cases hdone : next.isComplete = true
              · simp only [hdone, if_true] at hstep ⊢
                exact hstep
              · simp only [hdone] at hstep ⊢
                exact hstep

/-- A message that no outgoing transfer takes goes to the incoming slot. -/
theorem takeFileReplies_of_passes (io : Io) {xfer : Transfers} (disk : Disk UInt8)
    (downloadDir : Path) {msg : Message} (hpass : xfer.PassesSender msg) :
    takeFileReplies sha256 io xfer disk downloadDir msg =
      takeIncoming sha256 io xfer disk downloadDir msg := by
  unfold takeFileReplies
  cases hout : xfer.outgoing with
  | none => rfl
  | some sender =>
      have hother : sender.onPeer msg = (.ok false, sender) := by
        have htaken := sender.taken msg
        generalize sender.onPeer msg = result at htaken ⊢
        cases htaken with
        | other => rfl
        | _ => exact absurd rfl (hpass sender hout)
      have hsame : { xfer with outgoing := some sender } = xfer := by rw [← hout]
      simp only [hother, hsame]

/-- What is no offer is handled by the receiver in the incoming slot. -/
theorem takeIncoming_of_handled {io : Io} {xfer : Transfers} {disk after : Disk UInt8}
    {downloadDir : Path} {msg : Message} {receiver next : FileReceiver} {more : List Message}
    (hoffer : ∀ id name size, msg ≠ .fileOffer id name size) (hin : xfer.incoming = some receiver)
    (hhandle : receiver.handle sha256 io disk msg = (.ok more, next, after)) :
    takeIncoming sha256 io xfer disk downloadDir msg =
      (.ok more, { xfer with incoming := if next.isComplete then none else some next }, after) := by
  unfold takeIncoming
  split
  next id name size => exact absurd rfl (hoffer id name size)
  next =>
    simp only [hin, hhandle]
    split_ifs <;> rfl

/-- A message that the outgoing transfer takes is answered by its `poll`. -/
theorem takeFileReplies_of_polled {io : Io} {xfer : Transfers} {disk : Disk UInt8}
    {downloadDir : Path} {msg : Message} {sender taken next : FileSender} {replies : List Message}
    (hout : xfer.outgoing = some sender) (htaken : sender.onPeer msg = (.ok true, taken))
    (hpoll : taken.poll sha256 io = (.ok replies, next)) :
    takeFileReplies sha256 io xfer disk downloadDir msg =
      (.ok replies, { xfer with outgoing := if next.isComplete then none else some next },
        disk) := by
  simp only [takeFileReplies, hout, htaken, hpoll]
  split_ifs <;> rfl

/-- The answers of the dispatcher are about files. -/
theorem onlyFiles_takeFileReplies (io : Io) (xfer : Transfers) (disk : Disk UInt8)
    (downloadDir : Path) (msg : Message) {replies : List Message}
    (h : (takeFileReplies sha256 io xfer disk downloadDir msg).1 = .ok replies) :
    OnlyFiles replies := by
  have hdispatch := dispatch sha256 io xfer disk downloadDir msg
  generalize takeFileReplies sha256 io xfer disk downloadDir msg = result at h hdispatch
  cases hdispatch with
  | polled hout htaken hpoll =>
      cases h
      exact onlyFiles_poll sha256 io (by rw [hpoll])
  | busy =>
      cases h
      exact onlyFiles_singleton rfl
  | accepted hin haccept =>
      cases h
      obtain ⟨-, rfl, -⟩ := FileReceiver.accept_ok haccept
      exact onlyFiles_singleton rfl
  | idle =>
      cases h
      exact onlyFiles_nil
  | handled hpass hoffer hin hhandle =>
      cases h
      exact onlyFiles_handle sha256 io disk msg (by rw [hhandle])
  | _ => cases h

end OmarchyConnect.Host
