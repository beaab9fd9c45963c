/-
# One reliable file at a time

`FileSender` and `FileReceiver` are the two ends of a file transfer. The sender
offers a file, sends it in chunks of which at most a window is unacknowledged, and
ends with the SHA-256 of the file. The receiver writes the chunks to a temp file,
acknowledges every byte, checks the hash and renames the file to its final name.

The operating system is an argument: an `Io` says which calls fail and what a read
returns. SHA-256 is a parameter, and a running hash is the bytes that were put in.
-/

import OmarchyConnect.Library.Files
import OmarchyConnect.Library.Saturating
import OmarchyConnect.Protocol.Message
import Mathlib.Data.List.DropRight
import Mathlib.Tactic

namespace OmarchyConnect.Protocol

open OmarchyConnect.Library.Wire OmarchyConnect.Library.Files
open OmarchyConnect.Library.Saturating

/-- The length of a chunk, and how far a sender may be ahead. -/
def fileChunkSize : UInt64 := 16 * 1024
def fileWindowBytes : UInt64 := 64 * 1024

/-- An error of the operating system. -/
structure IoError where
  text : String
  deriving DecidableEq, Repr

/-- What a transfer fails with. -/
inductive FileTransferError
  | io (err : IoError)
  | failed (id : UInt32) (reason : String)
  | hashMismatch (id : UInt32)
  deriving DecidableEq, Repr

/-- An open file, known by the path it was opened under. -/
structure File where
  path : Path
  deriving DecidableEq, Repr

/-- What the operating system answers during one call: the error of a call that
fails, and the bytes that `read_exact` finds after a seek. A failed write may have
written some bytes. -/
structure Io where
  metadata : Path → Except IoError UInt64
  readAt : File → UInt64 → (n : ℕ) → Except IoError { data : Bytes // data.length = n }
  createDirAll : Option IoError := none
  create : Option IoError := none
  writeAll : Option (IoError × ℕ) := none
  flush : Option IoError := none
  syncAll : Option IoError := none
  rename : Option IoError := none
  removeFile : Option IoError := none

/-! ## Names -/

/-- The last component of a path, when it is a name. -/
def fileName (path : List Char) : Option (List Char) :=
  let parts := (path.splitOn '/').filter fun part => part ≠ [] ∧ part ≠ ['.']
  parts.getLast?.filter fun part => part ≠ ['.', '.']

/-- `trim_matches('.')`. -/
def trimDots (name : List Char) : List Char :=
  (name.dropWhile (· == '.')).rdropWhile (· == '.')

/-- Reduce a name to one path segment of harmless characters. -/
def sanitizeFileName (name : String) : String :=
  let base := (fileName name.toList).getD "file.bin".toList
  let clean := (base.filter fun c => c.isAlphanum || c == '.' || c == '-' || c == '_').take 120
  let clean := trimDots clean
  if clean.isEmpty then "file.bin" else String.ofList clean

/-- Trimming leaves no dot in front. -/
theorem head?_trimDots (name : List Char) : (trimDots name).head? ≠ some '.' := by
  intro hdot
  obtain ⟨back, hback⟩ := List.rdropWhile_prefix (· == '.') (name.dropWhile (· == '.'))
  have hhead : (name.dropWhile (· == '.')).head? = some '.' := by
    rw [← hback, List.head?_append]
    show (trimDots name).head?.or _ = _
    rw [hdot]
    rfl
  have hnot := List.head?_dropWhile_not (· == '.') name
  rw [hhead] at hnot
  simp at hnot

/-- A reduced name never starts with a dot, so it cannot name a temp file. -/
theorem head?_sanitizeFileName (name : String) :
    (sanitizeFileName name).toList.head? ≠ some '.' := by
  simp only [sanitizeFileName]
  split
  next => decide
  next =>
    rw [String.toList_ofList]
    exact head?_trimDots _

/-! ## The sender -/

/-- `FileSender`; what was hashed so far stands for the hasher. -/
structure FileSender where
  id : UInt32
  name : String
  size : UInt64
  file : File
  nextOffset : UInt64 := 0
  acked : UInt64 := 0
  offered : Bool := false
  accepted : Bool := false
  hasher : Bytes := []
  hash : Option Digest := none
  completeSent : Bool := false
  peerConfirmed : Bool := false
  failed : Option String := none
  deriving DecidableEq

/-- Counting on does not overflow below 2^64. -/
theorem toNat_add_ofNat {count : UInt64} {n : ℕ} (h : count.toNat + n < 2 ^ 64) :
    (count + UInt64.ofNat n).toNat = count.toNat + n := by
  have hsmall : n < UInt64.size := by
    show n < 2 ^ 64
    omega
  rw [UInt64.toNat_add, UInt64.toNat_ofNat_of_lt' hsmall]
  exact Nat.mod_eq_of_lt h

/-- The smaller of two numbers. -/
theorem toNat_min (a b : UInt64) : (min a b).toNat = min a.toNat b.toNat := by
  show (if a ≤ b then a else b).toNat = _
  split_ifs with h
  · exact (Nat.min_eq_left (UInt64.le_iff_toNat_le.mp h)).symm
  · have hlt := UInt64.le_iff_toNat_le.not.mp h
    exact (Nat.min_eq_right (by omega)).symm

namespace FileSender

/-- `FileSender::open`. -/
def openFile (io : Io) (id : UInt32) (path : Path) : Except FileTransferError FileSender :=
  match io.metadata path with
  | .error err => .error (.io err)
  | .ok size =>
      .ok
        { id
          name := sanitizeFileName (path.getLast?.getD "file.bin")
          size
          file := { path } }

/-- `FileSender::is_complete`. -/
def isComplete (sender : FileSender) : Bool := sender.peerConfirmed

/-- `FileSender::is_failed`. -/
def isFailed (sender : FileSender) : Bool := sender.failed.isSome

/-- How many bytes the next chunk has. -/
def chunkLength (sender : FileSender) : UInt64 :=
  let room := fileWindowBytes - saturatingSub sender.nextOffset sender.acked
  min (min room fileChunkSize) (sender.size - sender.nextOffset)

/-- Whether the send loop goes on. -/
def canSend (sender : FileSender) : Prop :=
  sender.nextOffset < sender.size ∧
    saturatingSub sender.nextOffset sender.acked < fileWindowBytes

instance (sender : FileSender) : Decidable sender.canSend :=
  inferInstanceAs (Decidable (_ ∧ _))

/-- The sender after it read the next chunk. -/
def advance (sender : FileSender) (data : Bytes) : FileSender :=
  { sender with
    hasher := sender.hasher ++ data
    nextOffset := sender.nextOffset + sender.chunkLength }

/-- A sender can send while bytes are left and the window has room. -/
theorem canSend_iff (sender : FileSender) :
    sender.canSend ↔ sender.nextOffset.toNat < sender.size.toNat ∧
      sender.nextOffset.toNat - sender.acked.toNat < 65536 := by
  rw [canSend, UInt64.lt_iff_toNat_lt, UInt64.lt_iff_toNat_lt, toNat_saturatingSub]
  rfl

/-- A chunk ends with the window, with its greatest length or with the file. -/
theorem toNat_chunkLength {sender : FileSender} (h : sender.canSend) :
    sender.chunkLength.toNat =
      min (min (65536 - (sender.nextOffset.toNat - sender.acked.toNat)) 16384)
        (sender.size.toNat - sender.nextOffset.toNat) := by
  have hsize := UInt64.le_of_lt h.1
  have hwindow := UInt64.le_of_lt h.2
  rw [chunkLength, toNat_min, toNat_min, UInt64.toNat_sub_of_le _ _ hwindow,
    UInt64.toNat_sub_of_le _ _ hsize, toNat_saturatingSub]
  rfl

/-- A chunk is not empty and stays inside the file. -/
theorem chunkLength_bounds {sender : FileSender} (h : sender.canSend) :
    0 < sender.chunkLength.toNat ∧
      sender.nextOffset.toNat + sender.chunkLength.toNat ≤ sender.size.toNat := by
  have hroom := (canSend_iff sender).mp h
  rw [toNat_chunkLength h]
  omega

/-- Sending keeps the size of the file. -/
theorem size_advance (sender : FileSender) (data : Bytes) :
    (sender.advance data).size = sender.size := by
  rw [advance]

/-- Sending moves the sender on by the length of the chunk. -/
theorem toNat_nextOffset_advance {sender : FileSender} (h : sender.canSend) (data : Bytes) :
    (sender.advance data).nextOffset.toNat =
      sender.nextOffset.toNat + sender.chunkLength.toNat := by
  have hbounds := chunkLength_bounds h
  have hsize := sender.size.toNat_lt
  rw [advance, UInt64.toNat_add]
  exact Nat.mod_eq_of_lt (by omega)

/-- What is left to send gets less with each chunk. -/
theorem remaining_advance_lt {sender : FileSender} (h : sender.canSend) (data : Bytes) :
    (sender.advance data).size.toNat - (sender.advance data).nextOffset.toNat <
      sender.size.toNat - sender.nextOffset.toNat := by
  have hbounds := chunkLength_bounds h
  rw [size_advance, toNat_nextOffset_advance h data]
  omega

/-- The send loop of `poll`: chunks until the window is full or the file is sent. -/
def sendChunks (io : Io) (sender : FileSender) (out : List Message) :
    Except FileTransferError (List Message) × FileSender :=
  if h : sender.canSend then
    match io.readAt sender.file sender.nextOffset sender.chunkLength.toNat with
    | .error err => (.error (.io err), sender)
    | .ok data =>
        have := remaining_advance_lt h data
        sendChunks io (sender.advance data)
          (out ++ [.fileChunk sender.id sender.nextOffset data])
  else (.ok out, sender)
termination_by sender.size.toNat - sender.nextOffset.toNat

/-- `finish_hash`. -/
def finishHash (sha256 : Bytes → Digest) (sender : FileSender) : FileSender :=
  match sender.hash with
  | some _ => sender
  | none => { sender with hash := some (sha256 sender.hasher) }

/-- `complete_message`. -/
def completeMessage (sender : FileSender) : Message :=
  .fileComplete sender.id (sender.hash.getD (Vector.replicate 32 0))

/-- The sender gives up. -/
def fail (sender : FileSender) (reason : String) : FileSender :=
  { sender with failed := some reason }

/-- The messages that should be written now. -/
def poll (sha256 : Bytes → Digest) (io : Io) (sender : FileSender) :
    Except FileTransferError (List Message) × FileSender :=
  if sender.failed.isSome || sender.completeSent then (.ok [], sender)
  else if !sender.offered then
    (.ok [.fileOffer sender.id sender.name sender.size], { sender with offered := true })
  else if !sender.accepted then (.ok [], sender)
  else if sender.size = 0 then
    let sender := sender.finishHash sha256
    (.ok [sender.completeMessage], { sender with completeSent := true })
  else
    match sendChunks io sender [] with
    | (.error err, sender) => (.error err, sender)
    | (.ok out, sender) =>
        if sender.acked = sender.size ∧ sender.completeSent = false then
          let sender := sender.finishHash sha256
          (.ok (out ++ [sender.completeMessage]), { sender with completeSent := true })
        else (.ok out, sender)

/-- Take a message of the peer; the result tells whether it belongs to this
transfer. -/
def onPeer (sender : FileSender) (msg : Message) :
    Except FileTransferError Bool × FileSender :=
  match msg with
  | .fileAccept id =>
      if id = sender.id then (.ok true, { sender with accepted := true })
      else (.ok false, sender)
  | .fileAck id offset =>
      if id = sender.id then
        if offset < sender.acked then (.ok true, sender)
        else if sender.nextOffset < offset ∨ sender.size < offset then
          (.error (.failed sender.id "ack past sent bytes"), sender.fail "ack past sent bytes")
        else (.ok true, { sender with acked := offset })
      else (.ok false, sender)
  | .fileComplete id sha256 =>
      if id = sender.id then
        if sender.hash.isSome ∧ sender.hash ≠ some sha256 then
          (.error (.hashMismatch sender.id), sender.fail "peer hash mismatch")
        else (.ok true, { sender with peerConfirmed := true })
      else (.ok false, sender)
  | .fileCancel id reason =>
      if id = sender.id then (.error (.failed sender.id reason), sender.fail reason)
      else (.ok false, sender)
  | _ => (.ok false, sender)

end FileSender

/-! ## The receiver -/

/-- `FileReceiver`. -/
structure FileReceiver where
  id : UInt32
  name : String
  size : UInt64
  received : UInt64 := 0
  tempPath : Path
  finalPath : Path
  file : Option File
  hasher : Bytes := []
  done : Bool := false
  failed : Option String := none
  deriving DecidableEq

namespace FileReceiver

/-- The receiver that an offer is answered with. -/
def ofOffer (downloadDir : Path) (offerId : UInt32) (name : String) (size : UInt64) :
    FileReceiver :=
  let name := sanitizeFileName name
  let tempPath := downloadDir ++ ["." ++ name ++ "." ++ toString offerId ++ ".partial"]
  { id := offerId
    name
    size
    tempPath
    finalPath := downloadDir ++ [name]
    file := some { path := tempPath } }

/-- `FileReceiver::accept`. -/
def accept (io : Io) (disk : Disk UInt8) (downloadDir : Path) (offerId : UInt32)
    (name : String) (size : UInt64) :
    Except FileTransferError (FileReceiver × Message) × Disk UInt8 :=
  match io.createDirAll, io.create with
  | some err, _ => (.error (.io err), disk)
  | none, some err => (.error (.io err), disk)
  | none, none =>
      let receiver := ofOffer downloadDir offerId name size
      (.ok (receiver, .fileAccept offerId), disk.create receiver.tempPath)

/-- `FileReceiver::is_complete`. -/
def isComplete (receiver : FileReceiver) : Bool := receiver.done

/-- `FileReceiver::saved_path`. -/
def savedPath (receiver : FileReceiver) : Option Path :=
  if receiver.done then some receiver.finalPath else none

/-- Close the file and remove it; an error of the removal is dropped. -/
def cleanup (io : Io) (receiver : FileReceiver) (disk : Disk UInt8) :
    FileReceiver × Disk UInt8 :=
  ({ receiver with file := none },
    match io.removeFile with
    | some _ => disk
    | none => disk.remove receiver.tempPath)

/-- `FileReceiver::cancel`. -/
def cancel (io : Io) (receiver : FileReceiver) (disk : Disk UInt8) (reason : String) :
    Except FileTransferError (List Message) × FileReceiver × Disk UInt8 :=
  let (receiver, disk) := receiver.cleanup io disk
  (.ok [.fileCancel receiver.id reason], { receiver with failed := some reason }, disk)

/-- Flush and sync an open file, then close it. -/
def closeFile (io : Io) (receiver : FileReceiver) : Option IoError :=
  match receiver.file with
  | some _ => io.flush <|> io.syncAll
  | none => none

/-- Take a message of the peer. The receiver has changed also when the result is
an error. -/
def handle (sha256 : Bytes → Digest) (io : Io) (receiver : FileReceiver) (disk : Disk UInt8)
    (msg : Message) : Except FileTransferError (List Message) × FileReceiver × Disk UInt8 :=
  if receiver.failed.isSome || receiver.done then (.ok [], receiver, disk)
  else
    match msg with
    | .fileChunk id offset data =>
        if id = receiver.id then
          let length := UInt64.ofNat data.length
          if offset ≠ receiver.received ∨ receiver.size < receiver.received + length then
            receiver.cancel io disk "chunk out of order"
          else
            match receiver.file, io.writeAll with
            | none, _ => (.error (.failed receiver.id "receiver file closed"), receiver, disk)
            | some file, some (err, written) =>
                (.error (.io err), receiver, disk.append file.path (data.take written))
            | some file, none =>
                let received := receiver.received + length
                (.ok [.fileAck receiver.id received],
                  { receiver with hasher := receiver.hasher ++ data, received },
                  disk.append file.path data)
        else (.ok [], receiver, disk)
    | .fileComplete id hash =>
        if id = receiver.id then
          if receiver.received ≠ receiver.size then
            receiver.cancel io disk "complete before all bytes"
          else if sha256 receiver.hasher ≠ hash then
            let (_, receiver, disk) := receiver.cancel io disk "hash mismatch"
            (.error (.hashMismatch receiver.id), receiver, disk)
          else
            match receiver.closeFile io <|> io.rename with
            | some err => (.error (.io err), { receiver with file := none }, disk)
            | none =>
                (.ok [.fileComplete receiver.id hash],
                  { receiver with file := none, done := true },
                  disk.rename receiver.tempPath receiver.finalPath)
        else (.ok [], receiver, disk)
    | .fileCancel id reason =>
        if id = receiver.id then
          let (receiver, disk) := receiver.cleanup io disk
          (.error (.failed receiver.id reason), { receiver with failed := some reason }, disk)
        else (.ok [], receiver, disk)
    | _ => (.ok [], receiver, disk)

end FileReceiver

/-! ## A sample system -/

/-- SHA-256 on the empty file and on the file "abcd". -/
def sampleSha256 (data : Bytes) : Digest :=
  if data = [] then
    #v[0xe3, 0xb0, 0xc4, 0x42, 0x98, 0xfc, 0x1c, 0x14,
      0x9a, 0xfb, 0xf4, 0xc8, 0x99, 0x6f, 0xb9, 0x24,
      0x27, 0xae, 0x41, 0xe4, 0x64, 0x9b, 0x93, 0x4c,
      0xa4, 0x95, 0x99, 0x1b, 0x78, 0x52, 0xb8, 0x55]
  else if data = [0x61, 0x62, 0x63, 0x64] then
    #v[0x88, 0xd4, 0x26, 0x6f, 0xd4, 0xe6, 0x33, 0x8d,
      0x13, 0xb8, 0x45, 0xfc, 0xf2, 0x89, 0x57, 0x9d,
      0x20, 0x9c, 0x89, 0x78, 0x23, 0xb9, 0x21, 0x7d,
      0xa3, 0xe1, 0x61, 0x93, 0x6f, 0x03, 0x15, 0x89]
  else Vector.replicate 32 0

/-- A system on which every call succeeds and every file is empty. -/
def quietIo : Io where
  metadata := fun _ => .ok 0
  readAt := fun _ _ n => .ok ⟨List.replicate n 0, List.length_replicate⟩

end OmarchyConnect.Protocol
