/-
# What a sender does with what arrives

`Taken` says once what a sender can do with a message of its peer, `Turn` what a poll can
do and when, and `sendChunks_spec` what a round of the send loop adds: chunks that continue
the file, up to the end of the file or of the window.
-/

import OmarchyConnect.Library.Window
import OmarchyConnect.Protocol.File

namespace OmarchyConnect.Protocol

open OmarchyConnect.Library.Wire OmarchyConnect.Library.Files OmarchyConnect.Library.Window

/-- The transfer whose sender a message is for. -/
def Message.forSender : Message → Option UInt32
  | .fileAccept id => some id
  | .fileAck id _ => some id
  | .fileComplete id _ => some id
  | .fileCancel id _ => some id
  | _ => none

namespace FileSender

/-- The offset was never sent. -/
def PastSent (sender : FileSender) (offset : UInt64) : Prop :=
  sender.nextOffset < offset ∨ sender.size < offset

instance (sender : FileSender) (offset : UInt64) : Decidable (sender.PastSent offset) :=
  inferInstanceAs (Decidable (_ ∨ _))

/-- The peer echoes another hash than the one that was sent. -/
def WrongEcho (sender : FileSender) (sha256 : Digest) : Prop :=
  sender.hash.isSome ∧ sender.hash ≠ some sha256

instance (sender : FileSender) (sha256 : Digest) : Decidable (sender.WrongEcho sha256) :=
  inferInstanceAs (Decidable (_ ∧ _))

/-- All that `onPeer` can do with a message. -/
inductive Taken (sender : FileSender) :
    Message → Except FileTransferError Bool × FileSender → Prop
  | other {msg : Message} (hmsg : msg.forSender ≠ some sender.id) :
      Taken sender msg (.ok false, sender)
  | accepted : Taken sender (.fileAccept sender.id) (.ok true, { sender with accepted := true })
  | oldAck {offset : UInt64} (hold : offset < sender.acked) :
      Taken sender (.fileAck sender.id offset) (.ok true, sender)
  | acked {offset : UInt64} (hnew : ¬ offset < sender.acked) (hsent : ¬ sender.PastSent offset) :
      Taken sender (.fileAck sender.id offset) (.ok true, { sender with acked := offset })
  | pastSent {offset : UInt64} (hnew : ¬ offset < sender.acked) (hsent : sender.PastSent offset) :
      Taken sender (.fileAck sender.id offset)
        (.error (.failed sender.id "ack past sent bytes"), sender.fail "ack past sent bytes")
  | confirmed {hash : Digest} (hecho : ¬ sender.WrongEcho hash) :
      Taken sender (.fileComplete sender.id hash)
        (.ok true, { sender with peerConfirmed := true })
  | wrongEcho {hash : Digest} (hecho : sender.WrongEcho hash) :
      Taken sender (.fileComplete sender.id hash)
        (.error (.hashMismatch sender.id), sender.fail "peer hash mismatch")
  | cancelled {reason : String} :
      Taken sender (.fileCancel sender.id reason)
        (.error (.failed sender.id reason), sender.fail reason)

/-- `onPeer` does nothing else. -/
theorem taken (sender : FileSender) (msg : Message) : Taken sender msg (sender.onPeer msg) := by
  unfold onPeer
  cases msg with
  | fileAccept id =>
      by_cases hid : id = sender.id
      · subst hid
        simp only [if_true]
        exact Taken.accepted
      · simp only [if_neg hid]
        exact Taken.other (by simpa [Message.forSender] using hid)
  | fileAck id offset =>
      by_cases hid : id = sender.id
      · subst hid
        simp only [if_true]
        split
        next hold => exact Taken.oldAck hold
        next hnew =>
          split
          next hsent => exact Taken.pastSent hnew hsent
          next hsent => exact Taken.acked hnew hsent
      · simp only [if_neg hid]
        exact Taken.other (by simpa [Message.forSender] using hid)
  | fileComplete id hash =>
      by_cases hid : id = sender.id
      · subst hid
        simp only [if_true]
        split
        next hecho => exact Taken.wrongEcho hecho
        next hecho => exact Taken.confirmed hecho
      · simp only [if_neg hid]
        exact Taken.other (by simpa [Message.forSender] using hid)
  | fileCancel id reason =>
      by_cases hid : id = sender.id
      · subst hid
        simp only [if_true]
        exact Taken.cancelled
      · simp only [if_neg hid]
        exact Taken.other (by simpa [Message.forSender] using hid)
  | _ => exact Taken.other (by simp [Message.forSender])

/-- There is only one thing that `onPeer` can do with a message. -/
theorem Taken.eq {sender : FileSender} {msg : Message}
    {result : Except FileTransferError Bool × FileSender} (h : Taken sender msg result) :
    sender.onPeer msg = result := by
  cases h with
  | other hmsg =>
      cases msg with
      | fileAccept id => exact if_neg fun hid => hmsg (congrArg some hid)
      | fileAck id offset => exact if_neg fun hid => hmsg (congrArg some hid)
      | fileComplete id hash => exact if_neg fun hid => hmsg (congrArg some hid)
      | fileCancel id reason => exact if_neg fun hid => hmsg (congrArg some hid)
      | _ => rfl
  | accepted => simp [onPeer]
  | oldAck hold => simp [onPeer, hold]
  | acked hnew hsent =>
      rw [PastSent] at hsent
      simp only [onPeer, if_true, if_neg hnew, if_neg hsent]
  | pastSent hnew hsent =>
      rw [PastSent] at hsent
      simp only [onPeer, if_true, if_neg hnew, if_pos hsent]
  | confirmed hecho =>
      rw [WrongEcho] at hecho
      simp only [onPeer, if_true, if_neg hecho]
  | wrongEcho hecho =>
      rw [WrongEcho] at hecho
      simp only [onPeer, if_true, if_pos hecho]
  | cancelled => simp [onPeer]

/-- The messages on which a sender gives up on its own: an ack past what was sent, and
an echo of another hash. -/
inductive FailsOn (sender : FileSender) : Message → Prop
  | pastSent {offset : UInt64} (hnew : ¬ offset < sender.acked) (hsent : sender.PastSent offset) :
      FailsOn sender (.fileAck sender.id offset)
  | wrongEcho {hash : Digest} (hecho : sender.WrongEcho hash) :
      FailsOn sender (.fileComplete sender.id hash)

/-- A message that a sender fails on is for it. -/
theorem FailsOn.forSender {sender : FileSender} {msg : Message} (h : sender.FailsOn msg) :
    msg.forSender = some sender.id := by
  cases h <;> rfl

/-- A sender that returns no error has not given up. -/
theorem Taken.not_failsOn {sender next : FileSender} {msg : Message} {mine : Bool}
    (h : Taken sender msg (.ok mine, next)) : ¬ sender.FailsOn msg := by
  intro hfails
  cases h with
  | other hmsg => exact hmsg hfails.forSender
  | accepted => cases hfails
  | oldAck hold =>
      cases hfails with
      | pastSent hnew => exact hnew hold
  | acked _ hsent =>
      cases hfails with
      | pastSent _ hpast => exact hsent hpast
  | confirmed hecho =>
      cases hfails with
      | wrongEcho hwrong => exact hecho hwrong

/-- An error comes from the sender itself or from a cancel of the peer. -/
theorem Taken.failsOn_or_cancelled {sender next : FileSender} {msg : Message}
    {err : FileTransferError} (h : Taken sender msg (.error err, next)) :
    sender.FailsOn msg ∨ ∃ reason, msg = .fileCancel sender.id reason := by
  cases h with
  | pastSent hnew hsent => exact Or.inl (FailsOn.pastSent hnew hsent)
  | wrongEcho hecho => exact Or.inl (FailsOn.wrongEcho hecho)
  | cancelled => exact Or.inr ⟨_, rfl⟩

/-- Whatever a sender answers to is a message for it. -/
theorem Taken.forSender {sender next : FileSender} {msg : Message}
    {result : Except FileTransferError Bool} (h : Taken sender msg (result, next))
    (hresult : result ≠ .ok false) : msg.forSender = some sender.id := by
  cases h with
  | other => exact absurd rfl hresult
  | _ => rfl

/-- A message that the sender does not pass on is for it. -/
theorem forSender_of_onPeer {sender next : FileSender} {msg : Message}
    {result : Except FileTransferError Bool} (hpeer : sender.onPeer msg = (result, next))
    (hmine : result ≠ .ok false) : msg.forSender = some sender.id := by
  have htaken := sender.taken msg
  rw [hpeer] at htaken
  exact htaken.forSender hmine

end FileSender

namespace FileSender

/-- The transfer is accepted and neither failed nor completed: `poll` comes to its loop. -/
structure Sending (sender : FileSender) : Prop where
  failed : sender.failed = none
  unsent : sender.completeSent = false
  offered : sender.offered = true
  accepted : sender.accepted = true

instance (sender : FileSender) : Decidable sender.Sending :=
  decidable_of_iff
    (sender.failed = none ∧ sender.completeSent = false ∧ sender.offered = true ∧
      sender.accepted = true)
    ⟨fun ⟨hfailed, hunsent, hoffered, haccepted⟩ => ⟨hfailed, hunsent, hoffered, haccepted⟩,
      fun h => ⟨h.failed, h.unsent, h.offered, h.accepted⟩⟩

/-- All that `poll` can do, and when it does it. -/
inductive Turn (sha256 : Bytes → Digest) (io : Io) (sender : FileSender) :
    Except FileTransferError (List Message) × FileSender → Prop
  | idle (hsending : ¬ sender.Sending) : Turn sha256 io sender (.ok [], sender)
  | offered (hsending : ¬ sender.Sending) (hfresh : sender.offered = false)
      (hunsent : sender.completeSent = false) : Turn sha256 io sender
      (.ok [.fileOffer sender.id sender.name sender.size], { sender with offered := true })
  | emptyFile (hsending : sender.Sending) (hsize : sender.size = 0) :
      Turn sha256 io sender
        (.ok [(sender.finishHash sha256).completeMessage],
          { sender.finishHash sha256 with completeSent := true })
  | broken {err : FileTransferError} {next : FileSender} (hsending : sender.Sending)
      (hloop : sendChunks io sender [] = (.error err, next)) :
      Turn sha256 io sender (.error err, next)
  | chunks {out : List Message} {next : FileSender} (hsending : sender.Sending)
      (hloop : sendChunks io sender [] = (.ok out, next)) : Turn sha256 io sender (.ok out, next)
  | completed {out : List Message} {next : FileSender} (hsending : sender.Sending)
      (hloop : sendChunks io sender [] = (.ok out, next)) (hacked : next.acked = next.size) :
      Turn sha256 io sender
        (.ok (out ++ [(next.finishHash sha256).completeMessage]),
          { next.finishHash sha256 with completeSent := true })

/-- `poll` does nothing else. -/
theorem turn (sha256 : Bytes → Digest) (io : Io) (sender : FileSender) :
    Turn sha256 io sender (sender.poll sha256 io) := by
  unfold poll
  split
  next hdone =>
      refine .idle fun hsending => ?_
      simp [hsending.failed, hsending.unsent] at hdone
  next hdone =>
      simp only [Bool.or_eq_true, not_or, Bool.not_eq_true, Option.isSome_eq_false_iff,
        Option.isNone_iff_eq_none] at hdone
      obtain ⟨hfailed, hunsent⟩ := hdone
      split
      next hfresh =>
          simp only [Bool.not_eq_true'] at hfresh
          exact .offered (fun h => absurd (h.offered.symm.trans hfresh) (by simp)) hfresh hunsent
      next hoffered =>
          split
          next hwaiting =>
              simp only [Bool.not_eq_true'] at hwaiting
              exact .idle fun h => absurd (h.accepted.symm.trans hwaiting) (by simp)
          next haccepted =>
              have hsending : sender.Sending :=
                ⟨hfailed, hunsent, by simpa using hoffered, by simpa using haccepted⟩
              split
              next hsize => exact .emptyFile hsending hsize
              next =>
                  split
                  next hloop => exact .broken hsending hloop
                  next hloop =>
                      split
                      next hacked => exact .completed hsending hloop hacked.1
                      next => exact .chunks hsending hloop

end FileSender

/-! ## What a sender reads and sends -/

/-- The file at the path has the content, and it is read without an error. -/
structure Io.Reads (io : Io) (path : Path) (content : Bytes) : Prop where
  size : io.metadata path = .ok (UInt64.ofNat content.length)
  piece : ∀ (offset : UInt64) (n : ℕ), offset.toNat + n ≤ content.length →
    ∃ data, io.readAt { path } offset n = .ok data ∧
      data.val = (content.drop offset.toNat).take n

/-- The chunk messages of pieces. -/
def chunkMessages (id : UInt32) (pieces : List (ℕ × Bytes)) : List Message :=
  pieces.map fun piece => .fileChunk id (UInt64.ofNat piece.1) piece.2

/-- The chunks of two lists of pieces. -/
theorem chunkMessages_append (id : UInt32) (first second : List (ℕ × Bytes)) :
    chunkMessages id (first ++ second) = chunkMessages id first ++ chunkMessages id second :=
  List.map_append

namespace FileSender

/-- A sender of the content that has sent and hashed it up to `nextOffset`. -/
structure Sent (sender : FileSender) (content : Bytes) : Prop where
  size : sender.size.toNat = content.length
  next : sender.nextOffset.toNat ≤ content.length
  hasher : sender.hasher = content.take sender.nextOffset.toNat

/-- Reading the next chunk keeps the sender on the content. -/
theorem Sent.advance {sender : FileSender} {content : Bytes} (h : sender.Sent content)
    (hcan : sender.canSend) {data : Bytes} (hlength : data.length = sender.chunkLength.toNat)
    (hpiece : data = (content.drop sender.nextOffset.toNat).take data.length) :
    (sender.advance data).Sent content ∧
      (sender.advance data).nextOffset.toNat = sender.nextOffset.toNat + data.length := by
  have hnext : (sender.advance data).nextOffset.toNat = sender.nextOffset.toNat + data.length := by
    rw [toNat_nextOffset_advance hcan, hlength]
  have hbounds := chunkLength_bounds hcan
  refine ⟨⟨?_, ?_, ?_⟩, hnext⟩
  · rw [size_advance]
    exact h.size
  · rw [hnext, hlength, ← h.size]
    exact hbounds.2
  · rw [hnext, ← take_append_piece hpiece, ← h.hasher, FileSender.advance]

/-- Sending keeps the open file. -/
theorem file_advance (sender : FileSender) (data : Bytes) :
    (sender.advance data).file = sender.file := by
  rw [FileSender.advance]

/-- Sending acknowledges nothing. -/
theorem acked_advance (sender : FileSender) (data : Bytes) :
    (sender.advance data).acked = sender.acked := by
  rw [FileSender.advance]

/-- Sending keeps the id. -/
theorem id_advance (sender : FileSender) (data : Bytes) : (sender.advance data).id = sender.id := by
  rw [FileSender.advance]

/-- Apart from what it has sent, a sender is not changed by a chunk. -/
theorem reset_advance (sender : FileSender) (data hasher : Bytes) (nextOffset : UInt64) :
    { sender.advance data with nextOffset, hasher } = { sender with nextOffset, hasher } := by
  rw [FileSender.advance]

/-- The send loop adds consecutive chunks until the window is full or the content is
sent, and changes nothing else. -/
theorem sendChunks_spec {io : Io} {content : Bytes} (sender : FileSender) (out : List Message)
    (hreads : io.Reads sender.file.path content) (hsent : sender.Sent content) :
    ∃ pieces last, Pieces content sender.nextOffset.toNat last.toNat pieces ∧
      sendChunks io sender out = (.ok (out ++ chunkMessages sender.id pieces),
        { sender with nextOffset := last, hasher := content.take last.toNat }) ∧
      last.toNat ≤ content.length ∧
        ¬ { sender with nextOffset := last, hasher := content.take last.toNat }.canSend := by
  induction sender, out using sendChunks.induct io with
  | case1 sender out hcan err hread =>
      obtain ⟨data, hdata, -⟩ := hreads.piece sender.nextOffset sender.chunkLength.toNat
        (by rw [← hsent.size]; exact (chunkLength_bounds hcan).2)
      exact absurd (hread.symm.trans hdata) (by simp)
  | case2 sender out hcan data hread _ ih =>
      obtain ⟨read, hdata, hslice⟩ := hreads.piece sender.nextOffset sender.chunkLength.toNat
        (by rw [← hsent.size]; exact (chunkLength_bounds hcan).2)
      obtain rfl := Except.ok.inj (hread.symm.trans hdata)
      have hpiece : data.val = (content.drop sender.nextOffset.toNat).take data.val.length := by
        rw [data.property]
        exact hslice
      obtain ⟨hadvanced, hnext⟩ := hsent.advance hcan data.property hpiece
      obtain ⟨pieces, last, hpieces, hloop, hlast, hstop⟩ :=
        ih (by rw [file_advance]; exact hreads) hadvanced
      have hne : data.val ≠ [] := by
        have hpos := (chunkLength_bounds hcan).1
        rw [← data.property] at hpos
        exact List.length_pos_iff.mp hpos
      rw [hnext] at hpieces
      rw [reset_advance] at hloop hstop
      refine ⟨_, last, .cons hne hpiece hpieces, ?_, hlast, hstop⟩
      rw [sendChunks, dif_pos hcan, hread]
      simp only [hloop, id_advance]
      simp [chunkMessages]
  | case3 sender out hcan =>
      have hsame : { sender with hasher := content.take sender.nextOffset.toNat } = sender := by
        rw [← hsent.hasher]
      refine ⟨[], sender.nextOffset, .nil _, ?_, hsent.next, ?_⟩
      · rw [sendChunks, dif_neg hcan, hsame]
        simp [chunkMessages]
      · rw [hsame]
        exact hcan

/-- An accepted transfer that is not completed yet. -/
structure Open (sender : FileSender) : Prop where
  offered : sender.offered = true
  accepted : sender.accepted = true
  unhashed : sender.hash = none
  unsent : sender.completeSent = false
  failed : sender.failed = none

/-- While bytes are not acknowledged, `poll` fills the window. -/
theorem poll_streaming (sha256 : Bytes → Digest) {io : Io} {content : Bytes} {sender : FileSender}
    (hopen : sender.Open) (hreads : io.Reads sender.file.path content)
    (hsent : sender.Sent content) (hacked : sender.acked ≠ sender.size)
    (hsize : sender.size ≠ 0) :
    ∃ pieces last, Pieces content sender.nextOffset.toNat last.toNat pieces ∧
      sender.poll sha256 io = (.ok (chunkMessages sender.id pieces),
        { sender with nextOffset := last, hasher := content.take last.toNat }) ∧
      last.toNat ≤ content.length ∧
        ¬ { sender with nextOffset := last, hasher := content.take last.toNat }.canSend := by
  obtain ⟨pieces, last, hpieces, hloop, hlast, hstop⟩ := sendChunks_spec sender [] hreads hsent
  refine ⟨pieces, last, hpieces, ?_, hlast, hstop⟩
  rw [poll, hloop]
  simp [hopen.offered, hopen.accepted, hopen.unsent, hopen.failed, hsize, hacked]

/-- Once all bytes are acknowledged, `poll` sends the hash of the content. -/
theorem poll_complete (sha256 : Bytes → Digest) (io : Io) {content : Bytes} {sender : FileSender}
    (hopen : sender.Open) (hsent : sender.Sent content) (hacked : sender.acked = sender.size)
    (hnext : sender.nextOffset = sender.size) :
    sender.poll sha256 io = (.ok [.fileComplete sender.id (sha256 content)],
      { sender with hash := some (sha256 content), completeSent := true }) := by
  have hhasher : sender.hasher = content := by
    rw [hsent.hasher, hnext, hsent.size, List.take_length]
  have hloop : sendChunks io sender [] = (.ok [], sender) := by
    rw [sendChunks, dif_neg]
    rintro ⟨hlt, -⟩
    rw [hnext] at hlt
    exact UInt64.lt_irrefl _ hlt
  rw [poll, hloop]
  by_cases hsize : sender.size = 0
  · simp [hopen.offered, hopen.accepted, hopen.unsent, hopen.failed, hsize, finishHash,
      completeMessage, hopen.unhashed, hhasher]
  · simp [hopen.offered, hopen.accepted, hopen.unsent, hopen.failed, hsize, hacked, finishHash,
      completeMessage, hopen.unhashed, hhasher]

end FileSender

end OmarchyConnect.Protocol
