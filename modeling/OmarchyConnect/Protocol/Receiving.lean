/-
# What a receiver does with what arrives

A peer is free to send anything in any order. `Handled` says once what a live
receiver can do with a message; all that is proved about receivers follows from
it. `receiver_integrity` is the first use: whatever arrives, the temp file holds
the acknowledged chunks, and the final path is written only by a completion that
arrives after all bytes and with their hash.
-/

import OmarchyConnect.Library.Runs
import OmarchyConnect.Protocol.File

namespace OmarchyConnect.Protocol

open OmarchyConnect.Library.Wire OmarchyConnect.Library.Files OmarchyConnect.Library.Runs

variable (sha256 : Bytes → Digest)

/-- The transfer whose receiver a message is for. -/
def Message.forReceiver : Message → Option UInt32
  | .fileChunk id _ _ => some id
  | .fileComplete id _ => some id
  | .fileCancel id _ => some id
  | _ => none

/-- Every call of the file system succeeds. -/
structure Io.Succeeds (io : Io) : Prop where
  createDirAll : io.createDirAll = none
  create : io.create = none
  writeAll : io.writeAll = none
  flush : io.flush = none
  syncAll : io.syncAll = none
  rename : io.rename = none
  removeFile : io.removeFile = none

/-- No call of the quiet system fails. -/
theorem quietIo_succeeds : quietIo.Succeeds := ⟨rfl, rfl, rfl, rfl, rfl, rfl, rfl⟩

namespace FileReceiver

/-- Temp files start with a dot and reduced names do not. -/
theorem temp_ne_final (dir : Path) (id other : UInt32) (name another : String)
    (size length : UInt64) :
    (ofOffer dir id name size).tempPath ≠ (ofOffer dir other another length).finalPath := by
  intro hsame
  have hname := List.append_cancel_left hsame
  have hdot := head?_sanitizeFileName another
  rw [← List.head_eq_of_cons_eq hname] at hdot
  simp at hdot

/-- The temp file is not where the file is saved. -/
theorem tempPath_ne_finalPath (dir : Path) (id : UInt32) (name : String) (size : UInt64) :
    (ofOffer dir id name size).tempPath ≠ (ofOffer dir id name size).finalPath :=
  temp_ne_final dir id id name name size size

/-- Neither done nor failed. -/
def Live (receiver : FileReceiver) : Prop := receiver.done = false ∧ receiver.failed = none

instance (receiver : FileReceiver) : Decidable receiver.Live :=
  inferInstanceAs (Decidable (_ ∧ _))

/-- The chunk does not continue what was received, or it goes past the size. -/
def OutOfOrder (receiver : FileReceiver) (offset : UInt64) (data : Bytes) : Prop :=
  offset ≠ receiver.received ∨
    receiver.size < receiver.received + UInt64.ofNat data.length

instance (receiver : FileReceiver) (offset : UInt64) (data : Bytes) :
    Decidable (receiver.OutOfOrder offset data) :=
  inferInstanceAs (Decidable (_ ∨ _))

/-- The receiver after a chunk was written. -/
def absorb (receiver : FileReceiver) (data : Bytes) : FileReceiver :=
  { receiver with
    hasher := receiver.hasher ++ data
    received := receiver.received + UInt64.ofNat data.length }

/-- The receiver after its own `cancel` or a cancel of the peer. -/
def abort (receiver : FileReceiver) (reason : String) : FileReceiver :=
  { receiver with file := none, failed := some reason }

/-- The disk after `cleanup`. -/
def removeTemp (io : Io) (receiver : FileReceiver) (disk : Disk UInt8) : Disk UInt8 :=
  match io.removeFile with
  | some _ => disk
  | none => disk.remove receiver.tempPath

/-- All that `handle` can do with a message while the receiver is live. -/
inductive Handled (io : Io) (receiver : FileReceiver) (disk : Disk UInt8) :
    Message → Except FileTransferError (List Message) × FileReceiver × Disk UInt8 → Prop
  | ignored {msg : Message} (hmsg : msg.forReceiver ≠ some receiver.id) :
      Handled io receiver disk msg (.ok [], receiver, disk)
  | written {offset : UInt64} {data : Bytes} {file : File}
      (horder : ¬ receiver.OutOfOrder offset data) (hfile : receiver.file = some file)
      (hio : io.writeAll = none) :
      Handled io receiver disk (.fileChunk receiver.id offset data)
        (.ok [.fileAck receiver.id (receiver.absorb data).received], receiver.absorb data,
          disk.append file.path data)
  | outOfOrder {offset : UInt64} {data : Bytes} (horder : receiver.OutOfOrder offset data) :
      Handled io receiver disk (.fileChunk receiver.id offset data)
        (.ok [.fileCancel receiver.id "chunk out of order"],
          receiver.abort "chunk out of order", receiver.removeTemp io disk)
  | closed {offset : UInt64} {data : Bytes} (horder : ¬ receiver.OutOfOrder offset data)
      (hfile : receiver.file = none) :
      Handled io receiver disk (.fileChunk receiver.id offset data)
        (.error (.failed receiver.id "receiver file closed"), receiver, disk)
  | writeFailed {offset : UInt64} {data : Bytes} {file : File} {err : IoError} {written : ℕ}
      (horder : ¬ receiver.OutOfOrder offset data) (hfile : receiver.file = some file)
      (hio : io.writeAll = some (err, written)) :
      Handled io receiver disk (.fileChunk receiver.id offset data)
        (.error (.io err), receiver, disk.append file.path (data.take written))
  | tooEarly {hash : Digest} (hreceived : receiver.received ≠ receiver.size) :
      Handled io receiver disk (.fileComplete receiver.id hash)
        (.ok [.fileCancel receiver.id "complete before all bytes"],
          receiver.abort "complete before all bytes", receiver.removeTemp io disk)
  | mismatch {hash : Digest} (hreceived : receiver.received = receiver.size)
      (hhash : sha256 receiver.hasher ≠ hash) :
      Handled io receiver disk (.fileComplete receiver.id hash)
        (.error (.hashMismatch receiver.id), receiver.abort "hash mismatch",
          receiver.removeTemp io disk)
  | notSaved {hash : Digest} {err : IoError} (hreceived : receiver.received = receiver.size)
      (hhash : sha256 receiver.hasher = hash)
      (hio : (receiver.closeFile io <|> io.rename) = some err) :
      Handled io receiver disk (.fileComplete receiver.id hash)
        (.error (.io err), { receiver with file := none }, disk)
  | saved {hash : Digest} (hreceived : receiver.received = receiver.size)
      (hhash : sha256 receiver.hasher = hash)
      (hio : (receiver.closeFile io <|> io.rename) = none) :
      Handled io receiver disk (.fileComplete receiver.id hash)
        (.ok [.fileComplete receiver.id hash], { receiver with file := none, done := true },
          disk.rename receiver.tempPath receiver.finalPath)
  | cancelled {reason : String} :
      Handled io receiver disk (.fileCancel receiver.id reason)
        (.error (.failed receiver.id reason), receiver.abort reason, receiver.removeTemp io disk)

/-- `handle` does nothing else. -/
theorem handled (io : Io) {receiver : FileReceiver} (disk : Disk UInt8) (msg : Message)
    (hlive : receiver.Live) :
    Handled sha256 io receiver disk msg (receiver.handle sha256 io disk msg) := by
  obtain ⟨hdone, hfailed⟩ := hlive
  have hopen : (receiver.failed.isSome || receiver.done) = false := by
    simp [hdone, hfailed]
  unfold handle
  rw [if_neg (by simp [hopen])]
  cases msg with
  | fileChunk id offset data =>
      by_cases hid : id = receiver.id
      · subst hid
        simp only [if_true]
        split
        next horder => exact Handled.outOfOrder horder
        next horder =>
          split
          next hfile => exact Handled.closed horder hfile
          next hfile hwrite => exact Handled.writeFailed horder hfile hwrite
          next hfile hwrite => exact Handled.written horder hfile hwrite
      · simp only [if_neg hid]
        exact Handled.ignored (by simpa [Message.forReceiver] using hid)
  | fileComplete id hash =>
      by_cases hid : id = receiver.id
      · subst hid
        simp only [if_true]
        split
        next hreceived => exact Handled.tooEarly hreceived
        next hreceived =>
          split
          next hhash => exact Handled.mismatch (not_not.mp hreceived) hhash
          next hhash =>
            split
            next hio => exact Handled.notSaved (not_not.mp hreceived) (not_not.mp hhash) hio
            next hio => exact Handled.saved (not_not.mp hreceived) (not_not.mp hhash) hio
      · simp only [if_neg hid]
        exact Handled.ignored (by simpa [Message.forReceiver] using hid)
  | fileCancel id reason =>
      by_cases hid : id = receiver.id
      · subst hid
        simp only [if_true]
        exact Handled.cancelled
      · simp only [if_neg hid]
        exact Handled.ignored (by simpa [Message.forReceiver] using hid)
  | _ => exact Handled.ignored (by simp [Message.forReceiver])

/-- The messages on which a receiver cancels on its own: a chunk out of order or past
the size, and a completion before all bytes. -/
def CancelsOn (receiver : FileReceiver) (msg : Message) : Prop :=
  (∃ offset data, msg = .fileChunk receiver.id offset data ∧ receiver.OutOfOrder offset data) ∨
    ∃ hash, msg = .fileComplete receiver.id hash ∧ receiver.received ≠ receiver.size

/-- After an `Ok` a live receiver goes on, is done, or has cancelled on its own. -/
theorem handle_ok {io : Io} {receiver next : FileReceiver} {disk after : Disk UInt8}
    {msg : Message} {more : List Message} (hlive : receiver.Live)
    (h : receiver.handle sha256 io disk msg = (.ok more, next, after)) :
    ((next.Live ∨ next.done = true ∧ next.failed = none) ∧ ¬ receiver.CancelsOn msg) ∨
      (next.done = false ∧ next.failed ≠ none ∧ receiver.CancelsOn msg ∧
        ∃ reason, more = [.fileCancel receiver.id reason]) := by
  have hhandled := handled sha256 io disk msg hlive
  rw [h] at hhandled
  cases hhandled with
  | ignored hmsg =>
      refine Or.inl ⟨Or.inl hlive, ?_⟩
      rintro (⟨_, _, rfl, -⟩ | ⟨_, rfl, -⟩) <;> exact hmsg rfl
  | written horder =>
      refine Or.inl ⟨Or.inl hlive, ?_⟩
      rintro (⟨_, _, hmsg, hcancel⟩ | ⟨_, hmsg, -⟩)
      · cases hmsg
        exact horder hcancel
      · cases hmsg
  | outOfOrder horder =>
      exact Or.inr ⟨hlive.1, by simp [abort], Or.inl ⟨_, _, rfl, horder⟩, _, rfl⟩
  | tooEarly hreceived =>
      exact Or.inr ⟨hlive.1, by simp [abort], Or.inr ⟨_, rfl, hreceived⟩, _, rfl⟩
  | saved hreceived =>
      refine Or.inl ⟨Or.inr ⟨rfl, hlive.2⟩, ?_⟩
      rintro (⟨_, _, hmsg, -⟩ | ⟨_, -, hearly⟩)
      · cases hmsg
      · exact hearly hreceived

/-- The messages on which a receiver gives up with an error: a chunk that cannot be
written, another hash than that of the bytes, and a file that cannot be saved. -/
inductive FailsOn (io : Io) (receiver : FileReceiver) : Message → Prop
  | notWritten {offset : UInt64} {data : Bytes} (horder : ¬ receiver.OutOfOrder offset data)
      (hio : io.writeAll ≠ none) : FailsOn io receiver (.fileChunk receiver.id offset data)
  | mismatch {hash : Digest} (hreceived : receiver.received = receiver.size)
      (hhash : sha256 receiver.hasher ≠ hash) :
      FailsOn io receiver (.fileComplete receiver.id hash)
  | notSaved {hash : Digest} (hreceived : receiver.received = receiver.size)
      (hhash : sha256 receiver.hasher = hash)
      (hio : io.flush ≠ none ∨ io.syncAll ≠ none ∨ io.rename ≠ none) :
      FailsOn io receiver (.fileComplete receiver.id hash)

/-- With an open file, saving fails when flush, sync or rename does. -/
theorem closeFile_rename_iff {io : Io} {receiver : FileReceiver} (hfile : receiver.file ≠ none) :
    (receiver.closeFile io <|> io.rename) ≠ none ↔
      io.flush ≠ none ∨ io.syncAll ≠ none ∨ io.rename ≠ none := by
  obtain ⟨file, hopen⟩ := Option.ne_none_iff_exists'.mp hfile
  rw [closeFile, hopen]
  cases io.flush <;> cases io.syncAll <;> cases io.rename <;> simp

/-- An error of a live receiver comes from itself or from a cancel of the peer. -/
theorem failsOn_or_cancelled {io : Io} {receiver next : FileReceiver} {disk after : Disk UInt8}
    {msg : Message} {err : FileTransferError} (hlive : receiver.Live)
    (hfile : receiver.file ≠ none)
    (h : receiver.handle sha256 io disk msg = (.error err, next, after)) :
    receiver.FailsOn sha256 io msg ∨ ∃ reason, msg = .fileCancel receiver.id reason := by
  have hhandled := handled sha256 io disk msg hlive
  rw [h] at hhandled
  cases hhandled with
  | closed _ hclosed => exact absurd hclosed hfile
  | writeFailed horder _ hio => exact Or.inl (FailsOn.notWritten horder (by simp [hio]))
  | mismatch hreceived hhash => exact Or.inl (FailsOn.mismatch hreceived hhash)
  | notSaved hreceived hhash hio =>
      exact Or.inl (FailsOn.notSaved hreceived hhash
        ((closeFile_rename_iff hfile).mp (by simp [hio])))
  | cancelled => exact Or.inr ⟨_, rfl⟩

/-- A live receiver that returns no error has not given up with one. -/
theorem not_failsOn_of_ok {io : Io} {receiver next : FileReceiver} {disk after : Disk UInt8}
    {msg : Message} {more : List Message} (hlive : receiver.Live) (hfile : receiver.file ≠ none)
    (h : receiver.handle sha256 io disk msg = (.ok more, next, after)) :
    ¬ receiver.FailsOn sha256 io msg := by
  intro hfails
  have hhandled := handled sha256 io disk msg hlive
  rw [h] at hhandled
  cases hhandled with
  | ignored hmsg => cases hfails <;> exact hmsg rfl
  | written _ _ hio =>
      cases hfails with
      | notWritten _ hfault => exact hfault hio
  | outOfOrder horder =>
      cases hfails with
      | notWritten hnot => exact hnot horder
  | tooEarly hreceived =>
      cases hfails with
      | mismatch hall => exact hreceived hall
      | notSaved hall => exact hreceived hall
  | saved _ hhash hio =>
      cases hfails with
      | mismatch _ hother => exact hother hhash
      | notSaved _ _ hfault => exact (closeFile_rename_iff hfile).mpr hfault hio

/-- Messages that end in an error are not those on which a receiver cancels on its
own. -/
theorem not_cancelsOn_of_error {io : Io} {receiver next : FileReceiver}
    {disk after : Disk UInt8} {msg : Message} {err : FileTransferError} (hlive : receiver.Live)
    (h : receiver.handle sha256 io disk msg = (.error err, next, after)) :
    ¬ receiver.CancelsOn msg := by
  have hhandled := handled sha256 io disk msg hlive
  rw [h] at hhandled
  cases hhandled with
  | closed horder => simp [CancelsOn, horder]
  | writeFailed horder => simp [CancelsOn, horder]
  | mismatch hreceived => simp [CancelsOn, hreceived]
  | notSaved hreceived => simp [CancelsOn, hreceived]
  | cancelled => simp [CancelsOn]

/-- A receiver that goes on keeps its file open. -/
theorem file_of_live {io : Io} {receiver next : FileReceiver} {disk after : Disk UInt8}
    {msg : Message} {more : List Message} (hlive : receiver.Live)
    (h : receiver.handle sha256 io disk msg = (.ok more, next, after)) (hnext : next.Live) :
    next.file = receiver.file := by
  have hhandled := handled sha256 io disk msg hlive
  rw [h] at hhandled
  cases hhandled with
  | ignored => rfl
  | written => rfl
  | outOfOrder => exact absurd hnext.2 (by simp [abort])
  | tooEarly => exact absurd hnext.2 (by simp [abort])
  | saved => exact absurd hnext.1 (by simp)

/-- What an accepted offer leads to. -/
theorem accept_ok {io : Io} {disk next : Disk UInt8} {dir : Path} {id : UInt32} {name : String}
    {size : UInt64} {receiver : FileReceiver} {reply : Message}
    (haccept : accept io disk dir id name size = (.ok (receiver, reply), next)) :
    receiver = ofOffer dir id name size ∧ reply = .fileAccept id ∧
      next = disk.create receiver.tempPath := by
  rw [accept] at haccept
  split at haccept
  · simp at haccept
  · simp at haccept
  · simp only [Prod.mk.injEq, Except.ok.injEq] at haccept
    obtain ⟨⟨rfl, rfl⟩, rfl⟩ := haccept
    exact ⟨rfl, rfl, rfl⟩

/-- An offer that is not accepted leaves no file. -/
theorem accept_error {io : Io} {disk next : Disk UInt8} {dir : Path} {id : UInt32}
    {name : String} {size : UInt64} {err : FileTransferError}
    (haccept : accept io disk dir id name size = (.error err, next)) : next = disk := by
  rw [accept] at haccept
  split at haccept
  · exact (Prod.mk.inj haccept).2.symm
  · exact (Prod.mk.inj haccept).2.symm
  · simp at haccept

/-- An offer is not accepted just when a call of the file system fails. -/
theorem accept_error_iff (io : Io) (disk : Disk UInt8) (dir : Path) (id : UInt32)
    (name : String) (size : UInt64) :
    (∃ err next, accept io disk dir id name size = (.error err, next)) ↔
      io.createDirAll ≠ none ∨ io.create ≠ none := by
  rw [accept]
  cases io.createDirAll <;> cases io.create <;> simp

/-- The next chunk is written and acknowledged. -/
theorem handle_chunk {io : Io} {receiver : FileReceiver} {disk : Disk UInt8} {offset : UInt64}
    {data : Bytes} {file : File} (hlive : receiver.Live) (hfile : receiver.file = some file)
    (hio : io.writeAll = none) (horder : ¬ receiver.OutOfOrder offset data) :
    receiver.handle sha256 io disk (.fileChunk receiver.id offset data) =
      (.ok [.fileAck receiver.id (receiver.absorb data).received], receiver.absorb data,
        disk.append file.path data) := by
  have hopen : (receiver.failed.isSome || receiver.done) = false := by simp [hlive.1, hlive.2]
  have horder' : ¬ (offset ≠ receiver.received ∨
      receiver.size < receiver.received + UInt64.ofNat data.length) := horder
  simp only [handle, hopen, Bool.false_eq_true, if_false, if_true, if_neg horder', hfile, hio,
    absorb]

/-- The completion after all bytes saves the file and is echoed. -/
theorem handle_complete {io : Io} {receiver : FileReceiver} {disk : Disk UInt8} {hash : Digest}
    (hlive : receiver.Live) (hreceived : receiver.received = receiver.size)
    (hhash : sha256 receiver.hasher = hash)
    (hio : (receiver.closeFile io <|> io.rename) = none) :
    receiver.handle sha256 io disk (.fileComplete receiver.id hash) =
      (.ok [.fileComplete receiver.id hash], { receiver with file := none, done := true },
        disk.rename receiver.tempPath receiver.finalPath) := by
  have hopen : (receiver.failed.isSome || receiver.done) = false := by simp [hlive.1, hlive.2]
  simp only [handle, hopen, Bool.false_eq_true, if_false, if_true, hreceived, hhash, ne_eq,
    not_true_eq_false, hio]

/-- A receiver that is done or failed ignores everything. -/
theorem handle_of_not_live (io : Io) {receiver : FileReceiver} (disk : Disk UInt8)
    (msg : Message) (h : ¬ receiver.Live) :
    receiver.handle sha256 io disk msg = (.ok [], receiver, disk) := by
  have hended : (receiver.failed.isSome || receiver.done) = true := by
    by_contra hopen
    refine h ?_
    simpa [and_comm, FileReceiver.Live, Option.isSome_iff_ne_none] using hopen
  unfold handle
  rw [if_pos hended]

/-- Only a live receiver fails. -/
theorem live_of_handle_error {io : Io} {receiver next : FileReceiver} {disk after : Disk UInt8}
    {msg : Message} {err : FileTransferError}
    (hhandle : receiver.handle sha256 io disk msg = (.error err, next, after)) :
    receiver.Live := by
  by_contra hended
  rw [handle_of_not_live sha256 io disk msg hended] at hhandle
  cases hhandle

end FileReceiver

end OmarchyConnect.Protocol
