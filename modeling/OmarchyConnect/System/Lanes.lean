/-
# One direction of an exchange

What belongs to the transfers of one side makes a lane: the sender, the receiver, the
messages between them, the directory that is saved into and the records. `LaneOk` says
at which point of a transfer a lane can be.
-/

import OmarchyConnect.System.Exchange

namespace OmarchyConnect.System

open OmarchyConnect.Library.Wire OmarchyConnect.Library.Files OmarchyConnect.Library.Window
open OmarchyConnect.Protocol OmarchyConnect.Host OmarchyConnect.Client

/-! ## Points of a transfer -/

/-- `forward` holds what the sender wrote and `backward` what the receiver wrote. -/
structure Lane where
  out : Option FileSender
  inc : Option FileReceiver
  forward : List Message
  backward : List Message
  saved : String → Option Bytes
  started : List (UInt32 × Path)
  confirmed : List UInt32
  finished : List Saved

/-- The name that the sender offers. -/
def offeredName (path : Path) : String := sanitizeFileName (path.getLast?.getD "file.bin")

/-- The name of the temp file. -/
def tempName (id : UInt32) (path : Path) : String :=
  "." ++ savedName path ++ "." ++ toString id ++ ".partial"

/-- The acknowledgements of offsets. -/
def ackMessages (id : UInt32) (numbers : List ℕ) : List Message :=
  numbers.map fun number => .fileAck id (UInt64.ofNat number)

section

variable (setup : Setup) (side : Side) (id : UInt32) (path : Path)

/-- The file that is sent. -/
def Setup.content : Bytes := (setup.files side path).val

/-- How long the file is. -/
def Setup.size : UInt64 := UInt64.ofNat (setup.content side path).length

/-- The sender that has sent up to `next`, of which `acked` is acknowledged. -/
def Setup.sender (accepted : Bool) (next acked : UInt64) : FileSender where
  id := id
  name := offeredName path
  size := setup.size side path
  file := { path }
  nextOffset := next
  acked := acked
  offered := true
  accepted := accepted
  hasher := (setup.content side path).take next.toNat

/-- The sender that has sent the hash. -/
def Setup.completer : FileSender :=
  { setup.sender side id path true (setup.size side path) (setup.size side path) with
    hash := some (setup.sha256 (setup.content side path))
    completeSent := true }

/-- The receiver that has received up to `received`. -/
def Setup.receiver (received : UInt64) : FileReceiver :=
  { FileReceiver.ofOffer (setup.downloads side.peer) id (offeredName path)
      (setup.size side path) with
    hasher := (setup.content side path).take received.toNat
    received := received }

/-- The hash of the whole file. -/
def Setup.completion : Message :=
  .fileComplete id (setup.sha256 (setup.content side path))

/-- The content between the two ends: the receiver has it up to `received`, the pieces
up to `next` are on the way, and the numbers tell how far the acks on the way lead. -/
structure Flowing (lane : Lane) (next acked received : UInt64) (pieces : List (ℕ × Bytes))
    (numbers : List ℕ) : Prop where
  incoming : lane.inc = some (setup.receiver side id path received)
  temp : lane.saved (tempName id path) = some ((setup.content side path).take received.toNat)
  chunks : lane.forward = chunkMessages id pieces
  consecutive : Pieces (setup.content side path) received.toNat next.toNat pieces
  sent : next.toNat ≤ (setup.content side path).length
  rising : Rising acked.toNat received.toNat numbers

/-- The points of a transfer before its file is saved. -/
inductive Transferring (lane : Lane) : Prop
  | offered (hout : lane.out = some (setup.sender side id path false 0 0)) (hinc : lane.inc = none)
      (hforward : lane.forward = [.fileOffer id (offeredName path) (setup.size side path)])
      (hbackward : lane.backward = [])
  | accepted (hout : lane.out = some (setup.sender side id path false 0 0))
      (hflow : Flowing setup side id path lane 0 0 0 [] [])
      (hbackward : lane.backward = [.fileAccept id])
  | streaming {next acked received : UInt64} {pieces : List (ℕ × Bytes)} {numbers : List ℕ}
      (hout : lane.out = some (setup.sender side id path true next acked))
      (hflow : Flowing setup side id path lane next acked received pieces numbers)
      (hbackward : lane.backward = ackMessages id numbers)
      (hunfinished : acked.toNat < (setup.content side path).length)
      (hstop : ¬ (setup.sender side id path true next acked).canSend)
  | completing (hout : lane.out = some (setup.completer side id path))
      (hinc : lane.inc = some (setup.receiver side id path (setup.size side path)))
      (htemp : lane.saved (tempName id path) = some (setup.content side path))
      (hforward : lane.forward = [setup.completion side id path]) (hbackward : lane.backward = [])

/-- What stands in the directory after the transfers were saved one after another. -/
def Setup.savedFiles (transfers : List (UInt32 × Path)) : String → Option Bytes :=
  transfers.foldl
    (fun files transfer =>
      Function.update files (savedName transfer.2) (some (setup.content side transfer.2)))
    (fun name => setup.disk.files (setup.downloads side.peer ++ [name]))

/-- The records and the saved files are those of the given transfers. Names that start
with a dot are left to the temp files. -/
structure Ledger (lane : Lane) (told kept : List (UInt32 × Path)) : Prop where
  confirmed : lane.confirmed = told.map Prod.fst
  finished : lane.finished = kept.map (setup.savedRecord side)
  saved : ∀ name, name.toList.head? ≠ some '.' →
    lane.saved name = setup.savedFiles side kept name

/-- Where a lane can be. -/
inductive LaneOk (lane : Lane) : Prop
  | idle (hout : lane.out = none) (hinc : lane.inc = none) (hforward : lane.forward = [])
      (hbackward : lane.backward = [])
      (hledger : Ledger setup side lane lane.started lane.started)
  | busy {before : List (UInt32 × Path)} {id : UInt32} {path : Path}
      (hstarted : lane.started = before ++ [(id, path)]) (hside : sideOf id = side)
      (hstage : Transferring setup side id path lane)
      (hledger : Ledger setup side lane before before)
  | echoed {before : List (UInt32 × Path)} {id : UInt32} {path : Path}
      (hstarted : lane.started = before ++ [(id, path)]) (hside : sideOf id = side)
      (hout : lane.out = some (setup.completer side id path)) (hinc : lane.inc = none)
      (hforward : lane.forward = []) (hbackward : lane.backward = [setup.completion side id path])
      (hledger : Ledger setup side lane before lane.started)

end

/-! ## Small facts -/

section

variable {setup : Setup} {side : Side} {id : UInt32} {path : Path}

/-- A file is shorter than 2^64 bytes. -/
theorem toNat_size (setup : Setup) (side : Side) (path : Path) :
    (setup.size side path).toNat = (setup.content side path).length := by
  have hlt : (setup.content side path).length < UInt64.size := (setup.files side path).property
  rw [Setup.size, UInt64.toNat_ofNat_of_lt' hlt]

/-- Positions in a file do not wrap. -/
theorem toNat_add_length (side : Side) (path : Path) {position : UInt64} {data : Bytes}
    (hfits : position.toNat + data.length ≤ (setup.content side path).length) :
    (position + UInt64.ofNat data.length).toNat = position.toNat + data.length := by
  have hsize := (setup.size side path).toNat_lt
  rw [toNat_size] at hsize
  exact toNat_add_ofNat (by omega)

/-- The disk reads the files of the setup. -/
theorem fixedIo_reads (setup : Setup) (side : Side) (path : Path) :
    (Exchange.io setup side).Reads path (setup.content side path) where
  size := rfl
  piece := by
    intro offset n hfits
    have hlength : (((setup.content side path).drop offset.toNat).take n).length = n := by
      rw [List.length_take, List.length_drop]
      omega
    exact ⟨⟨_, hlength⟩, dif_pos hlength, rfl⟩

/-- The receiver is of this transfer. -/
theorem id_receiver (setup : Setup) (side : Side) (id : UInt32) (path : Path) (received : UInt64) :
    (setup.receiver side id path received).id = id := rfl

/-- The receiver writes to the temp file of this transfer. -/
theorem tempPath_receiver (setup : Setup) (side : Side) (id : UInt32) (path : Path)
    (received : UInt64) : (setup.receiver side id path received).tempPath =
      setup.downloads side.peer ++ [tempName id path] := rfl

/-- The receiver saves where the setup says. -/
theorem finalPath_receiver (setup : Setup) (side : Side) (id : UInt32) (path : Path)
    (received : UInt64) : (setup.receiver side id path received).finalPath =
      setup.savedAt side path := rfl

/-- One more offset is acknowledged. -/
theorem ackMessages_concat (id : UInt32) (numbers : List ℕ) (position : UInt64) :
    ackMessages id (numbers ++ [position.toNat]) =
      ackMessages id numbers ++ [.fileAck id position] := by
  rw [ackMessages, List.map_append, List.map_singleton, UInt64.ofNat_toNat, ackMessages]

/-- A temp name starts with a dot. -/
theorem head?_tempName (id : UInt32) (path : Path) :
    (tempName id path).toList.head? = some '.' := by
  simp [tempName]

/-- A saved name does not start with a dot. -/
theorem head?_savedName (path : Path) : (savedName path).toList.head? ≠ some '.' :=
  head?_sanitizeFileName _

/-- One more file is saved, over one of its name. -/
theorem savedFiles_concat (setup : Setup) (side : Side) (transfers : List (UInt32 × Path))
    (id : UInt32) (path : Path) :
    setup.savedFiles side (transfers ++ [(id, path)]) =
      Function.update (setup.savedFiles side transfers) (savedName path)
        (some (setup.content side path)) := by
  simp [Setup.savedFiles]

/-- A file stands in the directory until another is saved under its name. -/
theorem savedFiles_split (setup : Setup) (side : Side) (front : List (UInt32 × Path)) (id : UInt32)
    (path : Path) {back : List (UInt32 × Path)}
    (hlater : ∀ later ∈ back, savedName later.2 ≠ savedName path) :
    setup.savedFiles side (front ++ (id, path) :: back) (savedName path) =
      some (setup.content side path) := by
  induction back using List.reverseRecOn with
  | nil => rw [savedFiles_concat, Function.update_self]
  | append_singleton back later ih =>
      have hother := hlater later (by simp)
      have hrest := ih fun other hmem => hlater other (by simp [hmem])
      rw [← List.cons_append, ← List.append_assoc, savedFiles_concat,
        Function.update_of_ne hother.symm, hrest]

/-- An offer makes a receiver without any bytes. -/
theorem receiver_zero (setup : Setup) (side : Side) (id : UInt32) (path : Path) :
    FileReceiver.ofOffer (setup.downloads side.peer) id (offeredName path) (setup.size side path) =
      setup.receiver side id path 0 := by
  rw [Setup.receiver, UInt64.toNat_zero, List.take_zero, FileReceiver.ofOffer]

/-- The sender has sent and hashed its file up to `next`. -/
theorem sent_sender (setup : Setup) (side : Side) (id : UInt32) (path : Path) (accepted : Bool)
    {next : UInt64} (acked : UInt64) (hnext : next.toNat ≤ (setup.content side path).length) :
    (setup.sender side id path accepted next acked).Sent (setup.content side path) :=
  ⟨toNat_size setup side path, hnext, rfl⟩

/-- An accepted sender is open. -/
theorem open_sender (setup : Setup) (side : Side) (id : UInt32) (path : Path)
    (next acked : UInt64) : (setup.sender side id path true next acked).Open :=
  ⟨rfl, rfl, rfl, rfl, rfl⟩

/-- The id of a message says whose transfer it is of. -/
theorem direction_of_fileId {msg : Message} (hside : sideOf id = side)
    (hid : fileId msg = some id) :
    direction msg = some side := by
  rw [direction, hid, Option.map_some, hside]

/-- Messages of one transfer, none of which gives it up. -/
def Carries (id : UInt32) (msgs : List Message) : Prop :=
  ∀ msg ∈ msgs, fileId msg = some id ∧ ∀ other reason, msg ≠ .fileCancel other reason

/-- One message of a transfer. -/
theorem carries_singleton {msg : Message} (hid : fileId msg = some id)
    (hkept : ∀ other reason, msg ≠ .fileCancel other reason) : Carries id [msg] := by
  intro other hother
  rw [List.mem_singleton.mp hother]
  exact ⟨hid, hkept⟩

/-- The chunks are of their transfer. -/
theorem carries_chunkMessages (id : UInt32) (pieces : List (ℕ × Bytes)) :
    Carries id (chunkMessages id pieces) := by
  intro msg hmsg
  obtain ⟨piece, -, rfl⟩ := List.mem_map.mp hmsg
  exact ⟨rfl, by simp⟩

end

end OmarchyConnect.System
