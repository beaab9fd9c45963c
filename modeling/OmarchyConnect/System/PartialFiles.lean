/-
# Partial files of a receiving side

A receiver writes to a temp file and removes it when the peer cancels, a chunk is out of
order or the hash is wrong. It does not when a write, a flush, a sync or the rename fails,
nor when the session ends and drops it. A side is followed through its sessions with the
temp paths of all receivers it has had: `cleared_iff` says that these are the only ways
to leave a partial file behind.
-/

import OmarchyConnect.System.Ends

namespace OmarchyConnect.System

open OmarchyConnect.Library.Wire OmarchyConnect.Library.Files OmarchyConnect.Library.Runs
open OmarchyConnect.Protocol OmarchyConnect.Host OmarchyConnect.Client

variable (sha256 : Bytes → Digest) (downloadDir : Path)

/-! ## A side through its sessions -/

/-- Something happens during a session, or the session ends. -/
inductive SessionEvent
  | during (event : Event)
  | ends

/-- The slots of a session go with it, and the files on the disk stay. -/
def HostEnd.turn (state : HostEnd) : SessionEvent → HostEnd
  | .during event => state.step sha256 downloadDir event
  | .ends => { state with xfer := {} }

/-- An event of a session of the client, or its end. -/
def ClientEnd.turn (state : ClientEnd) : SessionEvent → ClientEnd
  | .during event => state.step sha256 downloadDir event
  | .ends => { state with live := {} }

/-- The temp path of the receiver in the slot. -/
def slotTemps (side : HostEnd) : List Path :=
  (side.xfer.incoming.map fun receiver => receiver.tempPath).toList

/-- A side, and the temp paths of the receivers it has had in its slot. -/
structure Folder (σ : Type) where
  side : σ
  temps : List Path := []

/-- A turn of the side, seen as a host end. -/
def Folder.step {σ : Type} (turn : σ → SessionEvent → σ) (asHost : σ → HostEnd)
    (state : Folder σ) (event : SessionEvent) : Folder σ :=
  let side := turn state.side event
  { side, temps := state.temps ++ slotTemps (asHost side) }

/-- The folder of a host in a session. -/
abbrev hostFolder : Folder HostEnd → SessionEvent → Folder HostEnd :=
  Folder.step (HostEnd.turn sha256 downloadDir) id

/-- The folder of a client in a session. -/
abbrev clientFolder : Folder ClientEnd → SessionEvent → Folder ClientEnd :=
  Folder.step (ClientEnd.turn sha256 downloadDir) ClientEnd.asHost

/-- No receiver that is gone has left its temp file. -/
def Cleared (side : HostEnd) (temps : List Path) : Prop :=
  ∀ path ∈ temps, (∀ receiver ∈ side.xfer.incoming, receiver.tempPath ≠ path) →
    side.disk.files path = none

/-- The failures of a live receiver that leave its temp file: a chunk that cannot be
written, and a whole file that cannot be flushed, synced or renamed. -/
inductive LeavesPartial (io : Io) (receiver : FileReceiver) : Message → Prop
  | notWritten {offset : UInt64} {data : Bytes} (horder : ¬ receiver.OutOfOrder offset data)
      (hio : io.writeAll ≠ none) : LeavesPartial io receiver (.fileChunk receiver.id offset data)
  | notSaved {hash : Digest} (hreceived : receiver.received = receiver.size)
      (hhash : sha256 receiver.hasher = hash)
      (hio : io.flush ≠ none ∨ io.syncAll ≠ none ∨ io.rename ≠ none) :
      LeavesPartial io receiver (.fileComplete receiver.id hash)

/-- The event takes a live receiver out of its slot and leaves its temp file. -/
def Leaves (xfer : Transfers) : SessionEvent → Prop
  | .during (.message io msg) => ∃ receiver ∈ xfer.incoming, receiver.Live ∧
      xfer.PassesSender msg ∧ LeavesPartial sha256 io receiver msg
  | .during (.send _ _ _) => False
  | .ends => ∃ receiver ∈ xfer.incoming, receiver.Live

/-- Removing a file succeeds. -/
def SessionEvent.Removes : SessionEvent → Prop
  | .during (.message io _) => io.removeFile = none
  | .during (.send io _ _) => io.removeFile = none
  | .ends => True

/-! ## A receiver and its temp file -/

/-- The path of a temp file in the download directory. -/
def IsTemp (path : Path) : Prop :=
  ∃ id name size, path = (FileReceiver.ofOffer downloadDir id name size).tempPath

/-- A receiver in its slot: while it is live its file is open and there, and when it has
failed the file is gone. -/
structure Holds (disk : Disk UInt8) (receiver : FileReceiver) : Prop where
  temp : IsTemp downloadDir receiver.tempPath
  final : ∃ id name size, receiver.finalPath =
    (FileReceiver.ofOffer downloadDir id name size).finalPath
  undone : receiver.done = false
  live : receiver.failed = none →
    receiver.file = some { path := receiver.tempPath } ∧ disk.files receiver.tempPath ≠ none
  dead : receiver.failed ≠ none → disk.files receiver.tempPath = none

variable {sha256} {downloadDir} {io : Io} {disk after : Disk UInt8} {receiver next : FileReceiver}
  {msg : Message}

/-- A temp name is not where a receiver saves. -/
theorem IsTemp.ne_final {path : Path} (h : IsTemp downloadDir path)
    (hholds : Holds downloadDir disk receiver) : path ≠ receiver.finalPath := by
  obtain ⟨id, name, size, rfl⟩ := h
  obtain ⟨other, another, length, hfinal⟩ := hholds.final
  rw [hfinal]
  exact FileReceiver.temp_ne_final downloadDir id other name another size length

/-- What a call of `handle` leaves: other temp files are untouched. A receiver that goes on
holds its own file; one that is done or fails has none, but for the failures that
leave it. -/
structure Contract (sha256 : Bytes → Digest) (downloadDir : Path) (io : Io)
    (disk after : Disk UInt8) (receiver next : FileReceiver) (msg : Message)
    (result : Except FileTransferError (List Message)) : Prop where
  path : next.tempPath = receiver.tempPath
  frame : ∀ path, IsTemp downloadDir path → path ≠ receiver.tempPath →
    after.files path = disk.files path
  goes : ∀ more, result = .ok more → next.done = false → Holds downloadDir after next
  done : ∀ more, result = .ok more → next.done = true → after.files receiver.tempPath = none
  kept : ∀ more, result = .ok more → ¬ LeavesPartial sha256 io receiver msg
  failed : ∀ err, result = .error err →
    (after.files receiver.tempPath = none ↔ ¬ LeavesPartial sha256 io receiver msg)

/-- A call after which the receiver goes on. -/
theorem Contract.goesOn {more : List Message} (hpath : next.tempPath = receiver.tempPath)
    (hframe : ∀ path, IsTemp downloadDir path → path ≠ receiver.tempPath →
      after.files path = disk.files path)
    (hnext : Holds downloadDir after next) (hkept : ¬ LeavesPartial sha256 io receiver msg) :
    Contract sha256 downloadDir io disk after receiver next msg (.ok more) where
  path := hpath
  frame := hframe
  goes _ _ _ := hnext
  done _ _ hdone := absurd (hdone.symm.trans hnext.undone) (by simp)
  kept _ _ := hkept
  failed := by rintro _ ⟨⟩

/-- A call that fails. -/
theorem Contract.fails {err : FileTransferError} (hpath : next.tempPath = receiver.tempPath)
    (hframe : ∀ path, IsTemp downloadDir path → path ≠ receiver.tempPath →
      after.files path = disk.files path)
    (hiff : after.files receiver.tempPath = none ↔ ¬ LeavesPartial sha256 io receiver msg) :
    Contract sha256 downloadDir io disk after receiver next msg (.error err) where
  path := hpath
  frame := hframe
  goes := by rintro _ ⟨⟩
  done := by rintro _ ⟨⟩
  kept := by rintro _ ⟨⟩
  failed _ _ := hiff

/-- A receiver that has cancelled holds no file. -/
theorem Holds.abort (h : Holds downloadDir disk receiver) (reason : String) :
    Holds downloadDir (disk.remove receiver.tempPath) (receiver.abort reason) where
  temp := h.temp
  final := h.final
  undone := h.undone
  live := by simp [FileReceiver.abort]
  dead := fun _ => Disk.files_remove_self disk receiver.tempPath

/-- A receiver that absorbs a chunk keeps its temp file. -/
theorem Holds.absorb (h : Holds downloadDir disk receiver) (hlive : receiver.Live)
    (data : Bytes) :
    Holds downloadDir (disk.append receiver.tempPath data) (receiver.absorb data) where
  temp := h.temp
  final := h.final
  undone := h.undone
  live := fun hfailed => by
    obtain ⟨hfile, hthere⟩ := h.live hfailed
    refine ⟨hfile, ?_⟩
    show (disk.append receiver.tempPath data).files receiver.tempPath ≠ none
    simpa using hthere
  dead := fun hfailed => absurd hlive.2 hfailed

/-- What a receiver does with a message it keeps to its contract. -/
theorem handle_contract (h : Holds downloadDir disk receiver) (hlive : receiver.Live)
    (hio : io.removeFile = none) {result : Except FileTransferError (List Message)}
    (hhandle : receiver.handle sha256 io disk msg = (result, next, after)) :
    Contract sha256 downloadDir io disk after receiver next msg result := by
  obtain ⟨hfile, hthere⟩ := h.live hlive.2
  have hremove : receiver.removeTemp io disk = disk.remove receiver.tempPath := by
    simp only [FileReceiver.removeTemp, hio]
  have hsave : (receiver.closeFile io <|> io.rename) ≠ none ↔
      io.flush ≠ none ∨ io.syncAll ≠ none ∨ io.rename ≠ none :=
    FileReceiver.closeFile_rename_iff (by rw [hfile]; simp)
  have hhandled := FileReceiver.handled sha256 io disk msg hlive
  rw [hhandle] at hhandled
  cases hhandled with
  | ignored hmsg =>
      refine .goesOn rfl (fun _ _ _ => rfl) h fun hleaves => ?_
      cases hleaves <;> exact hmsg rfl
  | @written offset data file horder hopen hwrite =>
      obtain rfl := Option.some.inj (hopen.symm.trans hfile)
      refine .goesOn rfl (fun path _ hne => Disk.files_append_of_ne disk data hne)
        (h.absorb hlive data) fun hleaves => ?_
      cases hleaves with
      | notWritten _ hfault => exact hfault hwrite
  | outOfOrder horder =>
      rw [hremove]
      refine .goesOn rfl (fun path _ hne => Disk.files_remove_of_ne disk hne) (h.abort _)
        fun hleaves => ?_
      cases hleaves with
      | notWritten hnot => exact hnot horder
  | closed _ hclosed => exact absurd (hclosed.symm.trans hfile) (by simp)
  | @writeFailed offset data file err written horder hopen hwrite =>
      obtain rfl := Option.some.inj (hopen.symm.trans hfile)
      refine .fails rfl (fun path _ hne => Disk.files_append_of_ne disk _ hne)
        (iff_of_false ?_ (not_not.mpr ?_))
      · simpa using hthere
      · exact .notWritten horder (by simp [hwrite])
  | tooEarly hreceived =>
      rw [hremove]
      refine .goesOn rfl (fun path _ hne => Disk.files_remove_of_ne disk hne) (h.abort _)
        fun hleaves => ?_
      cases hleaves with
      | notSaved hall => exact hreceived hall
  | mismatch hreceived hhash =>
      rw [hremove]
      refine .fails rfl (fun path _ hne => Disk.files_remove_of_ne disk hne)
        (iff_of_true (Disk.files_remove_self _ _) fun hleaves => ?_)
      cases hleaves with
      | notSaved _ hsame => exact hhash hsame
  | notSaved hreceived hhash hfault =>
      refine .fails rfl (fun _ _ _ => rfl) (iff_of_false hthere (not_not.mpr ?_))
      exact .notSaved hreceived hhash (hsave.mp (by simp [hfault]))
  | saved hreceived hhash hsaved =>
      have hne := h.temp.ne_final h
      refine ⟨rfl, fun path htemp hother => ?_, fun _ _ hdone => ?_, fun _ _ _ => ?_,
        fun _ _ hleaves => ?_, by rintro _ ⟨⟩⟩
      · exact Disk.files_rename_of_ne disk hother (htemp.ne_final h)
      · exact absurd hdone (by simp)
      · exact Disk.files_rename_source disk hne
      · cases hleaves with
        | notSaved _ _ hfault => exact hsave.mpr hfault hsaved
  | cancelled =>
      rw [hremove]
      refine .fails rfl (fun path _ hne => Disk.files_remove_of_ne disk hne)
        (iff_of_true (Disk.files_remove_self _ _) fun hleaves => ?_)
      cases hleaves

/-! ## One step of a side -/

/-- The temp file of a slot is that of the receiver in it. -/
theorem mem_slotTemps {side : HostEnd} {path : Path} :
    path ∈ slotTemps side ↔ ∃ receiver ∈ side.xfer.incoming, receiver.tempPath = path := by
  cases hin : side.xfer.incoming <;> simp [slotTemps, hin, eq_comm]

/-- What holds of a side that has left no partial file. -/
structure Tidy (downloadDir : Path) (side : HostEnd) (temps : List Path) : Prop where
  paths : ∀ path ∈ temps, IsTemp downloadDir path
  slot : ∀ receiver ∈ side.xfer.incoming, Holds downloadDir side.disk receiver
  known : ∀ receiver ∈ side.xfer.incoming, receiver.tempPath ∈ temps
  cleared : Cleared side temps

variable {side : HostEnd} {temps : List Path}

/-- The rule for one step: what is in the slot holds its file, and the temp files that
were known are gone or in the slot. -/
theorem Tidy.afterStep (h : Tidy downloadDir side temps) {after : HostEnd}
    (hslot : ∀ receiver ∈ after.xfer.incoming, Holds downloadDir after.disk receiver)
    (hcleared : Cleared after temps) : Tidy downloadDir after (temps ++ slotTemps after) where
  paths path hpath := by
    rw [List.mem_append, mem_slotTemps] at hpath
    cases hpath with
    | inl hold => exact h.paths path hold
    | inr hnew =>
        obtain ⟨receiver, hreceiver, rfl⟩ := hnew
        exact (hslot receiver hreceiver).temp
  slot := hslot
  known receiver hreceiver := by
    rw [List.mem_append, mem_slotTemps]
    exact Or.inr ⟨receiver, hreceiver, rfl⟩
  cleared path hpath hgone := by
    rw [List.mem_append, mem_slotTemps] at hpath
    refine hcleared path (hpath.resolve_right ?_) hgone
    rintro ⟨receiver, hreceiver, heq⟩
    exact hgone receiver hreceiver heq

/-- Nothing happens to the incoming slot and the files. -/
theorem Tidy.same (h : Tidy downloadDir side temps) {after : HostEnd}
    (hin : after.xfer.incoming = side.xfer.incoming) (hdisk : after.disk = side.disk) :
    Tidy downloadDir after (temps ++ slotTemps after) := by
  refine h.afterStep ?_ ?_
  · rw [hin, hdisk]
    exact h.slot
  · rw [Cleared, hin, hdisk]
    exact h.cleared

/-- The files of the transfers before the one in the slot stay gone. -/
theorem Tidy.earlier (h : Tidy downloadDir side temps) {receiver next : FileReceiver}
    {after : Disk UInt8} {result : Except FileTransferError (List Message)}
    (hin : side.xfer.incoming = some receiver)
    (hcontract : Contract sha256 downloadDir io side.disk after receiver next msg result)
    {path : Path} (hpath : path ∈ temps) (hne : path ≠ receiver.tempPath) :
    after.files path = none := by
  rw [hcontract.frame path (h.paths path hpath) hne]
  refine h.cleared path hpath fun other hother heq => ?_
  rw [← Option.some.inj (hin.symm.trans hother)] at heq
  exact hne heq.symm

/-- A step that leaves no partial file, unless it is one of those that do. -/
structure TidyUnless (downloadDir : Path) (temps : List Path) (after : HostEnd) (leaves : Prop) :
    Prop where
  tidy : ¬ leaves → Tidy downloadDir after (temps ++ slotTemps after)
  left : leaves → ¬ Cleared after (temps ++ slotTemps after)

/-- A tidy end is one that leaves nothing. -/
theorem TidyUnless.of_tidy {after : HostEnd} {leaves : Prop}
    (h : Tidy downloadDir after (temps ++ slotTemps after)) (hleaves : ¬ leaves) :
    TidyUnless downloadDir temps after leaves :=
  ⟨fun _ => h, fun hno => absurd hno hleaves⟩

/-- A receiver that was just accepted holds its file. -/
theorem holds_accepted {id : UInt32} {name : String} {size : UInt64} {receiver : FileReceiver}
    {reply : Message} {after : Disk UInt8}
    (haccept : FileReceiver.accept io disk downloadDir id name size =
      (.ok (receiver, reply), after)) : Holds downloadDir after receiver := by
  obtain ⟨rfl, -, rfl⟩ := FileReceiver.accept_ok haccept
  exact {
    temp := ⟨id, name, size, rfl⟩
    final := ⟨id, name, size, rfl⟩
    undone := rfl
    live := fun _ => ⟨rfl, by rw [Disk.files_create_self]; simp⟩
    dead := fun hfailed => absurd rfl hfailed }

/-- A receiver goes into the empty slot. -/
theorem Tidy.accepted (h : Tidy downloadDir side temps) (hin : side.xfer.incoming = none)
    {id : UInt32} {name : String} {size : UInt64} {receiver : FileReceiver} {reply : Message}
    (haccept : FileReceiver.accept io side.disk downloadDir id name size =
      (.ok (receiver, reply), disk)) :
    let after : HostEnd := { xfer := { side.xfer with incoming := some receiver }, disk }
    Tidy downloadDir after (temps ++ slotTemps after) := by
  intro after
  have hcreated := (FileReceiver.accept_ok haccept).2.2
  refine h.afterStep ?_ ?_
  · intro other hother
    obtain rfl := Option.some.inj hother
    exact holds_accepted haccept
  · intro path hpath hgone
    have hne : path ≠ receiver.tempPath := fun heq => hgone receiver rfl heq.symm
    show disk.files path = none
    rw [hcreated, Disk.files_create_of_ne _ hne]
    refine h.cleared path hpath fun other hother => ?_
    rw [hin] at hother
    cases hother

/-- The receiver takes the message, and stays in the slot unless it is done. -/
theorem Tidy.handled (h : Tidy downloadDir side temps) (hio : io.removeFile = none)
    (hin : side.xfer.incoming = some receiver) {more : List Message}
    (hhandle : receiver.handle sha256 io side.disk msg = (.ok more, next, disk)) :
    let after : HostEnd :=
      { xfer := { side.xfer with incoming := if next.isComplete then none else some next }, disk }
    TidyUnless downloadDir temps after (Leaves sha256 side.xfer (.during (.message io msg))) := by
  intro after
  have hholds := h.slot receiver hin
  by_cases hlive : receiver.Live
  · have hcontract := handle_contract hholds hlive hio hhandle
    refine .of_tidy (h.afterStep ?_ ?_) ?_
    · intro other hother
      by_cases hdone : next.isComplete = true
      · simp [after, hdone] at hother
      · simp only [after, if_neg hdone] at hother
        obtain rfl := Option.some.inj hother
        exact hcontract.goes _ rfl (Bool.eq_false_iff.mpr hdone)
    · intro path hpath hgone
      by_cases hne : path = receiver.tempPath
      · subst hne
        by_cases hdone : next.isComplete = true
        · exact hcontract.done _ rfl hdone
        · exact absurd hcontract.path (hgone next (by simp [after, hdone]))
      · exact h.earlier hin hcontract hpath hne
    · rintro ⟨other, hother, -, -, hleaves⟩
      obtain rfl := Option.some.inj (hin.symm.trans hother)
      exact absurd hleaves (hcontract.kept _ rfl)
  · rw [FileReceiver.handle_of_not_live sha256 io side.disk msg hlive] at hhandle
    cases hhandle
    have hdone : receiver.isComplete = false := hholds.undone
    refine .of_tidy (h.same ?_ rfl) ?_
    · simp [after, hdone, hin]
    · rintro ⟨other, hother, hotherLive, -⟩
      obtain rfl := Option.some.inj (hin.symm.trans hother)
      exact absurd hotherLive hlive

/-- The receiver fails on the message and leaves the slot, with or without its file. -/
theorem Tidy.handleFailed (h : Tidy downloadDir side temps) (hio : io.removeFile = none)
    (hin : side.xfer.incoming = some receiver) (hpass : side.xfer.PassesSender msg)
    {err : FileTransferError}
    (hhandle : receiver.handle sha256 io side.disk msg = (.error err, next, disk)) :
    let after : HostEnd := { xfer := { side.xfer with incoming := none }, disk }
    TidyUnless downloadDir temps after (Leaves sha256 side.xfer (.during (.message io msg))) := by
  intro after
  have hlive := FileReceiver.live_of_handle_error sha256 hhandle
  have hcontract := handle_contract (h.slot receiver hin) hlive hio hhandle
  have hiff := hcontract.failed err rfl
  have hslot : ∀ other, other ∉ after.xfer.incoming := by
    rintro other ⟨⟩
  constructor
  · intro hno
    refine h.afterStep (fun other hother => absurd hother (hslot other)) fun path hpath _ => ?_
    by_cases hne : path = receiver.tempPath
    · subst hne
      exact hiff.mpr fun hleaves => hno ⟨receiver, hin, hlive, hpass, hleaves⟩
    · exact h.earlier hin hcontract hpath hne
  · rintro ⟨other, hother, -, -, hleaves⟩ hcleared
    obtain rfl := Option.some.inj (hin.symm.trans hother)
    refine hiff.mp (hcleared receiver.tempPath ?_ fun other hother => ?_) hleaves
    · exact List.mem_append_left _ (h.known receiver hin)
    · exact absurd hother (hslot other)

/-- A message leaves a partial file just when the receiver in the slot fails in one of
the ways that do. -/
theorem tidy_dispatch (h : Tidy downloadDir side temps) (hio : io.removeFile = none)
    {outcome : Dispatched}
    (hdispatch : Dispatch sha256 io side.xfer side.disk downloadDir msg outcome) :
    TidyUnless downloadDir temps { xfer := outcome.2.1, disk := outcome.2.2 }
      (Leaves sha256 side.xfer (.during (.message io msg))) := by
  -- A message that the sender takes does not reach the receiver.
  have htaken : ∀ {sender next : FileSender} {result : Except FileTransferError Bool},
      side.xfer.outgoing = some sender → sender.Taken msg (result, next) → result ≠ .ok false →
        ¬ Leaves sha256 side.xfer (.during (.message io msg)) := by
    rintro sender next result hout hsender hresult ⟨receiver, -, -, hpass, -⟩
    exact hpass sender hout (hsender.forSender hresult)
  cases hdispatch with
  | polled hout hsender => exact .of_tidy (h.same rfl rfl) (htaken hout hsender (by simp))
  | pollFailed hout hsender => exact .of_tidy (h.same rfl rfl) (htaken hout hsender (by simp))
  | senderFailed hout hsender => exact .of_tidy (h.same rfl rfl) (htaken hout hsender (by simp))
  | busy => exact .of_tidy (h.same rfl rfl) (by rintro ⟨_, _, _, _, ⟨⟩⟩)
  | notAccepted hin haccept =>
      exact .of_tidy (h.same rfl (FileReceiver.accept_error haccept))
        (by rintro ⟨_, _, _, _, ⟨⟩⟩)
  | accepted hin haccept =>
      exact .of_tidy (h.accepted hin haccept) (by rintro ⟨_, _, _, _, ⟨⟩⟩)
  | idle _ _ hin =>
      refine .of_tidy (h.same rfl rfl) ?_
      rintro ⟨receiver, hreceiver, -⟩
      rw [hin] at hreceiver
      cases hreceiver
  | handled _ _ hin hhandle => exact h.handled hio hin hhandle
  | handleFailed hpass _ hin hhandle => exact h.handleFailed hio hin hpass hhandle

/-- The session ends: a live receiver leaves its file, and a failed one had none. -/
theorem tidy_ends (h : Tidy downloadDir side temps) :
    TidyUnless downloadDir temps { side with xfer := {} } (Leaves sha256 side.xfer .ends) := by
  have hslot : ∀ other, other ∉ ({} : Transfers).incoming := by
    rintro other ⟨⟩
  constructor
  · intro hno
    refine h.afterStep (fun other hother => absurd hother (hslot other)) fun path hpath _ => ?_
    by_cases hmine : ∀ receiver ∈ side.xfer.incoming, receiver.tempPath ≠ path
    · exact h.cleared path hpath hmine
    · simp only [not_forall, not_not] at hmine
      obtain ⟨receiver, hin, rfl⟩ := hmine
      have hholds := h.slot receiver hin
      refine hholds.dead fun hfailed => hno ⟨receiver, hin, hholds.undone, hfailed⟩
  · rintro ⟨receiver, hin, hlive⟩ hcleared
    refine ((h.slot receiver hin).live hlive.2).2 (hcleared receiver.tempPath ?_ ?_)
    · exact List.mem_append_left _ (h.known receiver hin)
    · exact fun other hother => absurd hother (hslot other)

/-- One turn of a host end leaves a partial file in the ways of `Leaves` only. -/
theorem tidy_turn (sha256 : Bytes → Digest) (h : Tidy downloadDir side temps) {event : SessionEvent}
    (hio : event.Removes) :
    TidyUnless downloadDir temps (side.turn sha256 downloadDir event)
      (Leaves sha256 side.xfer event) := by
  cases event with
  | ends => exact tidy_ends h
  | during event =>
      cases event with
      | send io id path =>
          obtain ⟨hin, hdisk⟩ := HostEnd.step_send sha256 downloadDir side io id path
          exact .of_tidy (h.same hin hdisk) not_false
      | message io msg =>
          exact tidy_dispatch h hio (dispatch sha256 io side.xfer side.disk downloadDir msg)

/-! ## Runs of a side -/

/-- The client's end of a session is the host's. -/
theorem asHost_turn (sha256 : Bytes → Digest) (downloadDir : Path) (side : ClientEnd)
    (event : SessionEvent) :
    (side.turn sha256 downloadDir event).asHost = side.asHost.turn sha256 downloadDir event := by
  cases event with
  | during event => exact asHost_step sha256 downloadDir side event
  | ends => rfl

/-- At first there are no temp files. -/
theorem tidy_start (downloadDir : Path) (disk : Disk UInt8) :
    Tidy downloadDir { disk } [] where
  paths := by simp
  slot := by rintro receiver ⟨⟩
  known := by rintro receiver ⟨⟩
  cleared := by simp [Cleared]

/-- Files are removed whenever that is tried. Then at either end, through any sessions, no
receiver that is gone has left its partial file, just when no live receiver fails to
write or save its file and no session ends while a receiver is live. -/
theorem cleared_iff (sha256 : Bytes → Digest) (downloadDir : Path) (disk : Disk UInt8)
    (events : List SessionEvent) (hio : ∀ event ∈ events, event.Removes) :
    ((∀ front, front <+: events →
        let state := run (hostFolder sha256 downloadDir) { side := { disk } } front
        Cleared state.side state.temps) ↔
      Along (hostFolder sha256 downloadDir)
        (fun state event => ¬ Leaves sha256 state.side.xfer event) { side := { disk } } events) ∧
    ((∀ front, front <+: events →
        let state := run (clientFolder sha256 downloadDir) { side := { disk } } front
        Cleared state.side.asHost state.temps) ↔
      Along (clientFolder sha256 downloadDir)
        (fun state event => ¬ Leaves sha256 state.side.live.transfers event)
        { side := { disk } } events) := by
  constructor
  · have hkeep : ∀ (state : Folder HostEnd) (event : SessionEvent),
        Tidy downloadDir state.side state.temps → event.Removes →
          ¬ Leaves sha256 state.side.xfer event →
            Tidy downloadDir (hostFolder sha256 downloadDir state event).side
              (hostFolder sha256 downloadDir state event).temps :=
      fun state event h hremoves => (tidy_turn sha256 h hremoves).tidy
    exact prefixes_iff_along_of_ok (hostFolder sha256 downloadDir) hkeep (fun _ h => h.cleared)
      (fun state event h hremoves => (tidy_turn sha256 h hremoves).left)
      (tidy_start downloadDir disk)
      (along_of_mem _ _ hio)
  · have hturn : ∀ (state : Folder ClientEnd) (event : SessionEvent),
        Tidy downloadDir state.side.asHost state.temps → event.Removes →
          TidyUnless downloadDir state.temps
            (clientFolder sha256 downloadDir state event).side.asHost
            (Leaves sha256 state.side.live.transfers event) := by
      intro state event h hremoves
      have hhost := tidy_turn sha256 h hremoves
      simp only [clientFolder, Folder.step, asHost_turn]
      exact hhost
    have hstart : Tidy downloadDir
        ({ side := { disk } } : Folder ClientEnd).side.asHost
        ({ side := { disk } } : Folder ClientEnd).temps := tidy_start downloadDir disk
    exact prefixes_iff_along_of_ok (clientFolder sha256 downloadDir)
      (fun state event h hremoves => (hturn state event h hremoves).tidy) (fun _ h => h.cleared)
      (fun state event h hremoves => (hturn state event h hremoves).left) hstart
      (along_of_mem _ _ hio)

/-- An offer that is accepted, and a session that ends before the first chunk. -/
def acceptedOnly : List SessionEvent := [.during (.message quietIo (.fileOffer 9 "a.bin" 4)), .ends]

/-- The accepted transfer, at either end. -/
theorem cleared_iff_acceptedOnly :
    ((∀ front, front <+: acceptedOnly →
        let state := run (hostFolder sampleSha256 ["in"])
          { side := { disk := { files := fun _ => none } } } front
        Cleared state.side state.temps) ↔
      Along (hostFolder sampleSha256 ["in"])
        (fun state event => ¬ Leaves sampleSha256 state.side.xfer event)
        { side := { disk := { files := fun _ => none } } } acceptedOnly) ∧
    ((∀ front, front <+: acceptedOnly →
        let state := run (clientFolder sampleSha256 ["in"])
          { side := { disk := { files := fun _ => none } } } front
        Cleared state.side.asHost state.temps) ↔
      Along (clientFolder sampleSha256 ["in"])
        (fun state event => ¬ Leaves sampleSha256 state.side.live.transfers event)
        { side := { disk := { files := fun _ => none } } } acceptedOnly) :=
  cleared_iff sampleSha256 ["in"] { files := fun _ => none } acceptedOnly
    (by simp [acceptedOnly, SessionEvent.Removes, quietIo])

/-- The disk is full: a chunk cannot be written, and the partial file stays. -/
theorem fullDisk_leaves :
    ¬ ∀ events : List SessionEvent, (∀ event ∈ events, event.Removes) →
      let state := run (hostFolder sampleSha256 ["in"])
        { side := { disk := { files := fun _ => none } } } events
      Cleared state.side state.temps := by
  intro hall
  have hcleared := hall
    [.during (.message quietIo (.fileOffer 9 "a.bin" 4)),
      .during (.message { quietIo with writeAll := some (⟨"no space left on device"⟩, 0) }
        (.fileChunk 9 0 [0x61]))]
    (by simp [SessionEvent.Removes, quietIo])
  have hgone := hcleared ["in", ".a.bin.9.partial"] (by decide +kernel) (by decide +kernel)
  revert hgone
  decide +kernel

end OmarchyConnect.System
