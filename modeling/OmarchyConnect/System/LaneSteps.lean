/-
# From one point of a transfer to the next

Whatever arrives on a lane takes it from one point to another: `received` says so of
the receiving end, `answered` of the sending end and `offered` of the start. Neither
end returns an error or gives the transfer up.
-/

import OmarchyConnect.System.Lanes

namespace OmarchyConnect.System

open OmarchyConnect.Library.Wire OmarchyConnect.Library.Files OmarchyConnect.Library.Window
open OmarchyConnect.Protocol OmarchyConnect.Host OmarchyConnect.Client

/-! ## The receiving end -/

section

variable {setup : Setup} {side : Side} {id : UInt32} {path : Path} {lane : Lane}

/-- What the receiving end does with the next message of a lane: its incoming slot and
the directory it saves into may change, and the lane stays at a point of a transfer. -/
structure Received (setup : Setup) (side : Side) (lane : Lane) (rest : List Message)
    (xfer : Transfers) (disk : Disk UInt8) (replies : List Message) (inc : Option FileReceiver)
    (after : Disk UInt8) : Prop where
  carries : ∃ id, sideOf id = side ∧ Carries id replies
  others : ∀ path, (∀ name, path ≠ setup.downloads side.peer ++ [name]) →
    after.files path = disk.files path
  lane : LaneOk setup side
    { lane with
      inc
      forward := rest
      backward := lane.backward ++ replies
      saved := fun name => after.files (setup.downloads side.peer ++ [name])
      finished := lane.finished ++ finishedBy xfer { xfer with incoming := inc } after }

/-- What does not touch the records and the saved files keeps the ledger. -/
theorem Ledger.congr {other : Lane} {told kept : List (UInt32 × Path)}
    (h : Ledger setup side lane told kept) (hconfirmed : other.confirmed = lane.confirmed)
    (hfinished : other.finished = lane.finished)
    (hsaved : ∀ name, name.toList.head? ≠ some '.' → other.saved name = lane.saved name) :
    Ledger setup side other told kept where
  confirmed := hconfirmed.trans h.confirmed
  finished := hfinished.trans h.finished
  saved := fun name hname => (hsaved name hname).trans (h.saved name hname)

/-- A name that does not start with a dot is no temp name. -/
theorem ne_tempName {name : String} (hname : name.toList.head? ≠ some '.') :
    setup.downloads side.peer ++ [name] ≠ setup.downloads side.peer ++ [tempName id path] := by
  intro hsame
  obtain rfl := List.singleton_inj.mp (List.append_cancel_left hsame)
  exact hname (head?_tempName id path)

/-- The offer is accepted. -/
theorem received_offer {before : List (UInt32 × Path)} {io : Io} {xfer : Transfers}
    {disk : Disk UInt8} (hio : io.Succeeds) (hin : xfer.incoming = none)
    (hdisk : ∀ name, disk.files (setup.downloads side.peer ++ [name]) = lane.saved name)
    (hstarted : lane.started = before ++ [(id, path)]) (hside : sideOf id = side)
    (hout : lane.out = some (setup.sender side id path false 0 0)) (hbackward : lane.backward = [])
    (hledger : Ledger setup side lane before before) :
    ∃ replies inc after, takeIncoming setup.sha256 io xfer disk (setup.downloads side.peer)
        (.fileOffer id (offeredName path) (setup.size side path)) =
          (.ok replies, { xfer with incoming := inc }, after) ∧
      Received setup side lane [] xfer disk replies inc after := by
  refine ⟨[.fileAccept id], some (setup.receiver side id path 0),
    disk.create (setup.downloads side.peer ++ [tempName id path]), ?_, ?_⟩
  · simp only [takeIncoming, hin, FileReceiver.accept, hio.createDirAll, hio.create, receiver_zero,
      tempPath_receiver]
  · have hkept : finishedBy xfer { xfer with incoming := some (setup.receiver side id path 0) }
        (disk.create (setup.downloads side.peer ++ [tempName id path])) = [] := by
      rw [finishedBy, hin]
    have htemp : (disk.create (setup.downloads side.peer ++ [tempName id path])).files
        (setup.downloads side.peer ++ [tempName id path]) =
          some ((setup.content side path).take (0 : UInt64).toNat) := by
      rw [UInt64.toNat_zero, List.take_zero, Disk.files_create_self]
    refine ⟨⟨id, hside, carries_singleton rfl (by simp)⟩, ?_, ?_⟩
    · exact fun other hother => Disk.files_create_of_ne _ (hother _)
    · refine .busy hstarted hside
        (.accepted hout ⟨rfl, htemp, rfl, .nil _, Nat.zero_le _, .nil _⟩ ?_)
        (hledger.congr rfl ?_ ?_)
      · rw [hbackward, List.nil_append]
      · rw [hkept, List.append_nil]
      · intro name hname
        exact (Disk.files_create_of_ne _ (ne_tempName hname)).trans (hdisk name)

/-- A chunk leads from one point of the receiver to another. -/
theorem absorb_receiver (id : UInt32) {received : UInt64} {data : Bytes}
    (hpiece : data = ((setup.content side path).drop received.toNat).take data.length)
    (hnext : (received + UInt64.ofNat data.length).toNat = received.toNat + data.length) :
    (setup.receiver side id path received).absorb data =
      setup.receiver side id path (received + UInt64.ofNat data.length) := by
  simp only [Setup.receiver, FileReceiver.absorb, hnext]
  rw [take_append_piece hpiece]

/-- A receiver that takes chunks is alive. -/
theorem live_receiver (setup : Setup) (side : Side) (id : UInt32) (path : Path)
    (received : UInt64) : (setup.receiver side id path received).Live := ⟨rfl, rfl⟩

/-- The next chunk is written to the temp file. -/
theorem handle_receiver_chunk {io : Io} (hio : io.Succeeds) (disk : Disk UInt8) (id : UInt32)
    {received : UInt64} {data : Bytes} (hne : data ≠ [])
    (hpiece : data = ((setup.content side path).drop received.toNat).take data.length) :
    (setup.receiver side id path received).handle setup.sha256 io disk
        (.fileChunk id (UInt64.ofNat received.toNat) data) =
      (.ok [.fileAck id (received + UInt64.ofNat data.length)],
        setup.receiver side id path (received + UInt64.ofNat data.length),
        disk.append (setup.downloads side.peer ++ [tempName id path]) data) := by
  have hfits := piece_fits hne hpiece
  have hafter := toNat_add_length side path hfits
  have horder : ¬ (setup.receiver side id path received).OutOfOrder
      (UInt64.ofNat received.toNat) data := by
    rintro (hoffset | hpast)
    · exact hoffset UInt64.ofNat_toNat
    · have hlt : (setup.size side path).toNat < (received + UInt64.ofNat data.length).toNat :=
        UInt64.lt_iff_toNat_lt.mp hpast
      rw [hafter, toNat_size] at hlt
      omega
  have habsorb := absorb_receiver id hpiece hafter
  have hlive := live_receiver setup side id path received
  rw [← habsorb]
  exact FileReceiver.handle_chunk setup.sha256 hlive rfl hio.writeAll horder

/-- The completion saves the file. -/
theorem handle_receiver_complete {io : Io} (hio : io.Succeeds) (disk : Disk UInt8)
    (setup : Setup) (side : Side) (id : UInt32) (path : Path) :
    (setup.receiver side id path (setup.size side path)).handle setup.sha256 io disk
        (setup.completion side id path) =
      (.ok [setup.completion side id path],
        { setup.receiver side id path (setup.size side path) with file := none, done := true },
        disk.rename (setup.downloads side.peer ++ [tempName id path])
          (setup.savedAt side path)) := by
  have hlive := live_receiver setup side id path (setup.size side path)
  have hhash : setup.sha256 (setup.receiver side id path (setup.size side path)).hasher =
      setup.sha256 (setup.content side path) := by
    rw [Setup.receiver, toNat_size, List.take_length]
  have hclose : ((setup.receiver side id path (setup.size side path)).closeFile io <|> io.rename) =
      none := by
    simp [FileReceiver.closeFile, Setup.receiver, FileReceiver.ofOffer, hio.flush, hio.syncAll,
      hio.rename]
  exact FileReceiver.handle_complete setup.sha256 hlive rfl hhash hclose

/-- A chunk is written and acknowledged. -/
theorem received_chunk {before : List (UInt32 × Path)} {io : Io} {xfer : Transfers}
    {disk : Disk UInt8} {next acked received : UInt64} {data : Bytes}
    {pieces : List (ℕ × Bytes)} {numbers : List ℕ} (hio : io.Succeeds)
    (hin : xfer.incoming = lane.inc)
    (hdisk : ∀ name, disk.files (setup.downloads side.peer ++ [name]) = lane.saved name)
    (hstarted : lane.started = before ++ [(id, path)]) (hside : sideOf id = side)
    (hout : lane.out = some (setup.sender side id path true next acked))
    (hflow : Flowing setup side id path lane next acked received ((received.toNat, data) :: pieces)
      numbers)
    (hbackward : lane.backward = ackMessages id numbers)
    (hunfinished : acked.toNat < (setup.content side path).length)
    (hstop : ¬ (setup.sender side id path true next acked).canSend)
    (hledger : Ledger setup side lane before before) :
    ∃ replies inc after, takeIncoming setup.sha256 io xfer disk (setup.downloads side.peer)
        (.fileChunk id (UInt64.ofNat received.toNat) data) =
          (.ok replies, { xfer with incoming := inc }, after) ∧
      Received setup side lane (chunkMessages id pieces) xfer disk replies inc after := by
  obtain ⟨-, hne, hpiece, hrest⟩ := hflow.consecutive.of_cons
  have hfits := piece_fits hne hpiece
  have hpos := List.length_pos_iff.mpr hne
  have hafter := toNat_add_length side path hfits
  have hslot := hin.trans hflow.incoming
  have hhandle := handle_receiver_chunk hio disk id hne hpiece
  have hkept : finishedBy xfer { xfer with
        incoming := some (setup.receiver side id path (received + UInt64.ofNat data.length)) }
      (disk.append (setup.downloads side.peer ++ [tempName id path]) data) = [] := by
    rw [finishedBy, hslot]
  have hwritten : (disk.append (setup.downloads side.peer ++ [tempName id path]) data).files
      (setup.downloads side.peer ++ [tempName id path]) =
        some ((setup.content side path).take (received + UInt64.ofNat data.length).toNat) := by
    rw [Disk.files_append_self, hdisk, hflow.temp, Option.map_some, take_append_piece hpiece,
      hafter]
  have hrising : Rising acked.toNat (received + UInt64.ofNat data.length).toNat
      (numbers ++ [(received + UInt64.ofNat data.length).toNat]) :=
    hflow.rising.concat (by omega)
  rw [← hafter] at hrest
  refine ⟨_, some (setup.receiver side id path (received + UInt64.ofNat data.length)), _,
    takeIncoming_of_handled setup.sha256 (by simp) hslot hhandle,
    ⟨id, hside, carries_singleton rfl (by simp)⟩, ?_, ?_⟩
  · exact fun other hother => Disk.files_append_of_ne _ _ (hother _)
  · refine .busy hstarted hside
      (.streaming hout ⟨rfl, hwritten, rfl, hrest, hflow.sent, hrising⟩ ?_ hunfinished hstop)
      (hledger.congr rfl ?_ ?_)
    · rw [hbackward, ackMessages_concat]
    · rw [hkept, List.append_nil]
    · intro name hname
      exact (Disk.files_append_of_ne _ _ (ne_tempName hname)).trans (hdisk name)

/-- The completion is echoed and the file is saved. -/
theorem received_completion {before : List (UInt32 × Path)} {io : Io} {xfer : Transfers}
    {disk : Disk UInt8} (hio : io.Succeeds)
    (hin : xfer.incoming = some (setup.receiver side id path (setup.size side path)))
    (hdisk : ∀ name, disk.files (setup.downloads side.peer ++ [name]) = lane.saved name)
    (hstarted : lane.started = before ++ [(id, path)]) (hside : sideOf id = side)
    (hout : lane.out = some (setup.completer side id path))
    (htemp : lane.saved (tempName id path) = some (setup.content side path))
    (hbackward : lane.backward = []) (hledger : Ledger setup side lane before before) :
    ∃ replies inc after, takeIncoming setup.sha256 io xfer disk (setup.downloads side.peer)
        (setup.completion side id path) = (.ok replies, { xfer with incoming := inc }, after) ∧
      Received setup side lane [] xfer disk replies inc after := by
  have hhandle := handle_receiver_complete hio disk setup side id path
  refine ⟨_, none, _, takeIncoming_of_handled setup.sha256 (by simp [Setup.completion]) hin hhandle,
    ⟨id, hside, carries_singleton rfl (by simp [Setup.completion])⟩, ?_, ?_⟩
  · exact fun other hother => Disk.files_rename_of_ne _ (hother _) (hother _)
  · have htarget : (disk.rename (setup.downloads side.peer ++ [tempName id path])
        (setup.savedAt side path)).files (setup.savedAt side path) =
          some (setup.content side path) :=
      Disk.files_rename_target _ ((hdisk _).trans htemp)
    have hkept : finishedBy xfer { xfer with incoming := none }
        (disk.rename (setup.downloads side.peer ++ [tempName id path])
          (setup.savedAt side path)) = [setup.savedRecord side (id, path)] := by
      simp only [finishedBy, hin, finalPath_receiver, htarget, id_receiver]
      rw [Setup.savedRecord, Setup.content]
    refine .echoed hstarted hside hout rfl rfl ?_ ⟨hledger.confirmed, ?_, ?_⟩
    · rw [hbackward, List.nil_append]
    · rw [hkept, hledger.finished, hstarted, List.map_append, List.map_singleton]
    · intro name hname
      rw [hstarted, savedFiles_concat]
      by_cases hsame : name = savedName path
      · rw [hsame, Function.update_self]
        exact htarget
      · rw [Function.update_of_ne hsame, ← hledger.saved name hname, ← hdisk name]
        refine Disk.files_rename_of_ne _ (ne_tempName hname) ?_
        exact fun heq => hsame (List.singleton_inj.mp (List.append_cancel_left heq))

/-- The receiving end answers the next message of a lane without an error. -/
theorem received {io : Io} {xfer : Transfers} {disk : Disk UInt8} {msg : Message}
    {rest : List Message} (hio : io.Succeeds) (hok : LaneOk setup side lane)
    (hin : xfer.incoming = lane.inc)
    (hdisk : ∀ name, disk.files (setup.downloads side.peer ++ [name]) = lane.saved name)
    (hforward : lane.forward = msg :: rest) :
    ∃ replies inc after, takeIncoming setup.sha256 io xfer disk (setup.downloads side.peer) msg =
        (.ok replies, { xfer with incoming := inc }, after) ∧
      Received setup side lane rest xfer disk replies inc after := by
  cases hok with
  | idle _ _ hnone => exact absurd (hforward.symm.trans hnone) (List.cons_ne_nil _ _)
  | echoed _ _ _ _ hnone => exact absurd (hforward.symm.trans hnone) (List.cons_ne_nil _ _)
  | busy hstarted hside hstage hledger =>
      cases hstage with
      | offered hout hinc hone hbackward =>
          obtain ⟨rfl, rfl⟩ := List.cons.inj (hforward.symm.trans hone)
          exact received_offer hio (hin.trans hinc) hdisk hstarted hside hout hbackward hledger
      | accepted _ hflow =>
          exact absurd (hforward.symm.trans hflow.chunks) (List.cons_ne_nil _ _)
      | @streaming next acked reached pieces numbers hout hflow hbackward hunfinished hstop =>
          cases pieces with
          | nil => exact absurd (hforward.symm.trans hflow.chunks) (List.cons_ne_nil _ _)
          | cons piece pieces =>
              obtain ⟨start, data⟩ := piece
              obtain ⟨rfl, -⟩ := hflow.consecutive.of_cons
              obtain ⟨rfl, rfl⟩ := List.cons.inj (hforward.symm.trans hflow.chunks)
              exact received_chunk hio hin hdisk hstarted hside hout hflow hbackward hunfinished
                hstop hledger
      | completing hout hinc htemp hone hbackward =>
          obtain ⟨rfl, rfl⟩ := List.cons.inj (hforward.symm.trans hone)
          exact received_completion hio (hin.trans hinc) hdisk hstarted hside hout htemp hbackward
            hledger

end

/-! ## The sending end -/

section

variable {setup : Setup} {side : Side} {id : UInt32} {path : Path} {lane : Lane}

/-- What the sending end does with the next message of a lane: its outgoing slot may
change, and the lane stays at a point of a transfer. -/
structure Answered (setup : Setup) (side : Side) (lane : Lane) (rest : List Message)
    (xfer : Transfers) (replies : List Message) (out : Option FileSender) : Prop where
  carries : ∃ id, sideOf id = side ∧ Carries id replies
  lane : LaneOk setup side
    { lane with
      out
      forward := lane.forward ++ replies
      backward := rest
      confirmed := lane.confirmed ++ confirmedBy xfer { xfer with outgoing := out } }

/-- The sender is accepted. -/
theorem onPeer_accept (setup : Setup) (side : Side) (id : UInt32) (path : Path) :
    (setup.sender side id path false 0 0).onPeer (.fileAccept id) =
      (.ok true, setup.sender side id path true 0 0) := by
  simp [FileSender.onPeer, Setup.sender]

/-- An ack of what was sent is taken. -/
theorem onPeer_ack {next acked reached : UInt64} (hnew : acked.toNat ≤ reached.toNat)
    (hsent : reached.toNat ≤ next.toNat)
    (hnext : next.toNat ≤ (setup.content side path).length) :
    (setup.sender side id path true next acked).onPeer (.fileAck id reached) =
      (.ok true, setup.sender side id path true next reached) := by
  have hold : ¬ reached < acked := by
    rw [UInt64.lt_iff_toNat_lt]
    omega
  have hpast : ¬ (next < reached ∨ setup.size side path < reached) := by
    rw [UInt64.lt_iff_toNat_lt, UInt64.lt_iff_toNat_lt, toNat_size]
    omega
  simp [FileSender.onPeer, Setup.sender, hold, hpast]

/-- The echo of the hash confirms the transfer. -/
theorem onPeer_completion (setup : Setup) (side : Side) (id : UInt32) (path : Path) :
    (setup.completer side id path).onPeer (setup.completion side id path) =
      (.ok true, { setup.completer side id path with peerConfirmed := true }) := by
  simp [FileSender.onPeer, Setup.completer, Setup.completion, Setup.sender]

/-- Once all bytes are acknowledged, the hash is sent. -/
theorem poll_sender_complete (setup : Setup) (side : Side) (id : UInt32) (path : Path) (io : Io) :
    (setup.sender side id path true (setup.size side path) (setup.size side path)).poll
        setup.sha256 io =
      (.ok [setup.completion side id path], setup.completer side id path) := by
  have hsent := sent_sender setup side id path true (setup.size side path)
    (toNat_size setup side path).le
  exact FileSender.poll_complete setup.sha256 io (open_sender setup side id path _ _) hsent rfl rfl

/-- Before that, the window is filled. -/
theorem poll_sender_streaming {io : Io} {next acked : UInt64} (id : UInt32)
    (hio : io.Reads path (setup.content side path))
    (hnext : next.toNat ≤ (setup.content side path).length)
    (hunfinished : acked.toNat < (setup.content side path).length) :
    ∃ pieces last, Pieces (setup.content side path) next.toNat last.toNat pieces ∧
      (setup.sender side id path true next acked).poll setup.sha256 io =
        (.ok (chunkMessages id pieces), setup.sender side id path true last acked) ∧
      last.toNat ≤ (setup.content side path).length ∧
        ¬ (setup.sender side id path true last acked).canSend := by
  have hsize := toNat_size setup side path
  have hacked : acked ≠ setup.size side path := by
    intro hsame
    rw [← hsize, ← hsame] at hunfinished
    exact lt_irrefl _ hunfinished
  have hnonempty : setup.size side path ≠ 0 := by
    intro hzero
    rw [hzero, UInt64.toNat_zero] at hsize
    omega
  have hpoll := FileSender.poll_streaming setup.sha256 (open_sender setup side id path next acked)
    hio (sent_sender setup side id path true acked hnext) hacked hnonempty
  simpa only [Setup.sender] using hpoll

/-- A sender that was told how far the receiver is goes on to the next point: to the
hash when all bytes are there, to more chunks when they are not. -/
theorem polled {io : Io} {next acked received : UInt64} {pieces : List (ℕ × Bytes)}
    {numbers : List ℕ} (hio : io.Reads path (setup.content side path))
    (hflow : Flowing setup side id path lane next acked received pieces numbers) :
    ∃ replies after, (setup.sender side id path true next acked).poll setup.sha256 io =
        (.ok replies, after) ∧ after.isComplete = false ∧ Carries id replies ∧
      Transferring setup side id path
        { lane with
          out := some after
          forward := lane.forward ++ replies
          backward := ackMessages id numbers } := by
  have hreached := hflow.consecutive.le
  have hacked := hflow.rising.le
  have hsent := hflow.sent
  by_cases hunfinished : acked.toNat < (setup.content side path).length
  · obtain ⟨more, last, hmore, hpoll, hlast, hstop⟩ :=
      poll_sender_streaming id hio hflow.sent hunfinished
    refine ⟨_, _, hpoll, rfl, carries_chunkMessages id more, ?_⟩
    refine .streaming rfl ⟨hflow.incoming, hflow.temp, ?_, hflow.consecutive.append hmore, hlast,
      hflow.rising⟩ rfl hunfinished hstop
    rw [hflow.chunks, chunkMessages_append]
  · have hsize := toNat_size setup side path
    obtain rfl : acked = setup.size side path := UInt64.toNat_inj.mp (by omega)
    obtain rfl : received = setup.size side path := UInt64.toNat_inj.mp (by omega)
    obtain rfl : next = setup.size side path := UInt64.toNat_inj.mp (by omega)
    obtain rfl := hflow.consecutive.eq_nil
    obtain rfl := hflow.rising.eq_nil
    have htemp := hflow.temp
    rw [hsize, List.take_length] at htemp
    refine ⟨_, _, poll_sender_complete setup side id path io, rfl,
      carries_singleton rfl (by simp [Setup.completion]), ?_⟩
    refine .completing rfl hflow.incoming htemp ?_ rfl
    rw [hflow.chunks]
    rfl

/-- A message that tells the sender how far the receiver is keeps the lane going. -/
theorem answered_progress {before : List (UInt32 × Path)} {io : Io} {xfer : Transfers}
    (disk : Disk UInt8) (downloadDir : Path) {msg : Message} {sender : FileSender}
    {next acked received : UInt64} {pieces : List (ℕ × Bytes)} {numbers : List ℕ}
    (hio : io.Reads path (setup.content side path)) (hxfer : xfer.outgoing = some sender)
    (htaken : sender.onPeer msg = (.ok true, setup.sender side id path true next acked))
    (hstarted : lane.started = before ++ [(id, path)]) (hside : sideOf id = side)
    (hflow : Flowing setup side id path lane next acked received pieces numbers)
    (hledger : Ledger setup side lane before before) :
    ∃ replies out, takeFileReplies setup.sha256 io xfer disk downloadDir msg =
        (.ok replies, { xfer with outgoing := out }, disk) ∧
      Answered setup side lane (ackMessages id numbers) xfer replies out := by
  obtain ⟨replies, after, hpoll, hgoes, hcarries, hstage⟩ := polled hio hflow
  have htakes : takeFileReplies setup.sha256 io xfer disk downloadDir msg =
      (.ok replies, { xfer with outgoing := if after.isComplete then none else some after },
        disk) :=
    takeFileReplies_of_polled setup.sha256 hxfer htaken hpoll
  have hkept : confirmedBy xfer { xfer with outgoing := some after } = [] := by
    rw [confirmedBy, hxfer]
  rw [hgoes] at htakes
  refine ⟨replies, some after, htakes, ⟨id, hside, hcarries⟩, ?_⟩
  rw [hkept, List.append_nil]
  exact .busy hstarted hside hstage (hledger.congr rfl rfl fun _ _ => rfl)

/-- The echo ends the transfer. -/
theorem answered_completion {before : List (UInt32 × Path)} {io : Io} {xfer : Transfers}
    (disk : Disk UInt8) (downloadDir : Path)
    (hxfer : xfer.outgoing = some (setup.completer side id path))
    (hstarted : lane.started = before ++ [(id, path)]) (hside : sideOf id = side)
    (hinc : lane.inc = none) (hforward : lane.forward = [])
    (hledger : Ledger setup side lane before lane.started) :
    ∃ replies out, takeFileReplies setup.sha256 io xfer disk downloadDir
        (setup.completion side id path) = (.ok replies, { xfer with outgoing := out }, disk) ∧
      Answered setup side lane [] xfer replies out := by
  have hpoll : ({ setup.completer side id path with peerConfirmed := true }).poll setup.sha256 io =
      (.ok [], { setup.completer side id path with peerConfirmed := true }) := by
    simp [FileSender.poll, Setup.completer]
  have hkept : confirmedBy xfer { xfer with outgoing := none } = [id] := by
    rw [confirmedBy, hxfer]
    rfl
  refine ⟨[], none, takeFileReplies_of_polled setup.sha256 hxfer
    (onPeer_completion setup side id path) hpoll, ⟨id, hside, by simp [Carries]⟩, ?_⟩
  refine .idle rfl hinc ?_ rfl ⟨?_, hledger.finished, hledger.saved⟩
  · rw [hforward, List.append_nil]
  · rw [hkept, hledger.confirmed, hstarted, List.map_append, List.map_singleton]

/-- The sending end answers the next message of a lane without an error. -/
theorem answered {io : Io} {xfer : Transfers} (disk : Disk UInt8) (downloadDir : Path)
    {msg : Message} {rest : List Message}
    (hio : ∀ path, io.Reads path (setup.content side path)) (hok : LaneOk setup side lane)
    (hout : xfer.outgoing = lane.out) (hbackward : lane.backward = msg :: rest) :
    ∃ replies out, takeFileReplies setup.sha256 io xfer disk downloadDir msg =
        (.ok replies, { xfer with outgoing := out }, disk) ∧
      Answered setup side lane rest xfer replies out := by
  cases hok with
  | idle _ _ _ hnone => exact absurd (hbackward.symm.trans hnone) (List.cons_ne_nil _ _)
  | @echoed before id path hstarted hside hxfer hinc hforward hone hledger =>
      obtain ⟨rfl, rfl⟩ := List.cons.inj (hbackward.symm.trans hone)
      exact answered_completion disk downloadDir (hout.trans hxfer) hstarted hside hinc hforward
        hledger
  | @busy before id path hstarted hside hstage hledger =>
      cases hstage with
      | offered _ _ _ hnone => exact absurd (hbackward.symm.trans hnone) (List.cons_ne_nil _ _)
      | accepted hxfer hflow hone =>
          obtain ⟨rfl, rfl⟩ := List.cons.inj (hbackward.symm.trans hone)
          exact answered_progress disk downloadDir (hio path) (hout.trans hxfer)
            (onPeer_accept setup side id path) hstarted hside hflow hledger
      | @streaming next acked received pieces numbers hxfer hflow hacks hunfinished hstop =>
          cases numbers with
          | nil => exact absurd (hbackward.symm.trans hacks) (List.cons_ne_nil _ _)
          | cons number numbers =>
              obtain ⟨rfl, rfl⟩ := List.cons.inj (hbackward.symm.trans hacks)
              obtain ⟨hnew, hrest⟩ := hflow.rising.of_cons
              have hreached := hrest.le
              have hsent := hflow.consecutive.le
              have hbound := received.toNat_lt
              have hnumber : (UInt64.ofNat number).toNat = number :=
                UInt64.toNat_ofNat_of_lt' (by show number < 2 ^ 64; omega)
              rw [← hnumber] at hnew hreached hrest
              exact answered_progress disk downloadDir (hio path) (hout.trans hxfer)
                (onPeer_ack hnew.le (hreached.trans hsent) hflow.sent) hstarted hside
                ⟨hflow.incoming, hflow.temp, hflow.chunks, hflow.consecutive, hflow.sent, hrest⟩
                hledger
      | completing _ _ _ _ hnone =>
          exact absurd (hbackward.symm.trans hnone) (List.cons_ne_nil _ _)

/-! ## The start -/

/-- While a transfer is under way its sender is in the slot. -/
theorem Transferring.out (h : Transferring setup side id path lane) :
    ∃ sender, lane.out = some sender ∧ sender.id = id := by
  cases h with
  | offered hout => exact ⟨_, hout, rfl⟩
  | accepted hout => exact ⟨_, hout, rfl⟩
  | streaming hout => exact ⟨_, hout, rfl⟩
  | completing hout => exact ⟨_, hout, rfl⟩

/-- The sender in the slot has an id of its side. -/
theorem LaneOk.sideOf_out {sender : FileSender} (hok : LaneOk setup side lane)
    (hout : lane.out = some sender) : sideOf sender.id = side := by
  cases hok with
  | idle hnone => exact absurd (hnone.symm.trans hout) (by simp)
  | echoed _ hside hxfer =>
      obtain rfl := Option.some.inj (hxfer.symm.trans hout)
      exact hside
  | busy _ hside hstage =>
      obtain ⟨other, hxfer, hid⟩ := hstage.out
      obtain rfl := Option.some.inj (hxfer.symm.trans hout)
      rw [hid]
      exact hside

/-- Offering a file puts its sender into the slot. -/
theorem offerFile_eq {io : Io} (xfer : Transfers) (id : UInt32)
    (hio : io.Reads path (setup.content side path)) :
    offerFile setup.sha256 io xfer id path =
      (.ok [.fileOffer id (offeredName path) (setup.size side path)],
        { xfer with outgoing := some (setup.sender side id path false 0 0) }) := by
  simp [offerFile, FileSender.openFile, hio.size, FileSender.poll, Setup.sender, offeredName,
    Setup.size]

/-- A lane with a free slot can start a transfer. -/
theorem offered (id : UInt32) (path : Path) (hok : LaneOk setup side lane)
    (hfree : lane.out = none) (hside : sideOf id = side) :
    LaneOk setup side
      { lane with
        out := some (setup.sender side id path false 0 0)
        forward := lane.forward ++ [.fileOffer id (offeredName path) (setup.size side path)]
        started := lane.started ++ [(id, path)] } := by
  cases hok with
  | idle _ hinc hforward hbackward hledger =>
      refine .busy rfl hside (.offered rfl hinc ?_ hbackward) (hledger.congr rfl rfl fun _ _ => rfl)
      rw [hforward, List.nil_append]
  | echoed _ _ hxfer => exact absurd (hfree.symm.trans hxfer) (by simp)
  | busy _ _ hstage =>
      obtain ⟨sender, hxfer, -⟩ := hstage.out
      exact absurd (hfree.symm.trans hxfer) (by simp)

/-- A lane on which nothing is on the way is between two transfers. -/
theorem LaneOk.eq_idle (hok : LaneOk setup side lane) (hforward : lane.forward = [])
    (hbackward : lane.backward = []) :
    lane.out = none ∧ lane.inc = none ∧ Ledger setup side lane lane.started lane.started := by
  cases hok with
  | idle hout hinc _ _ hledger => exact ⟨hout, hinc, hledger⟩
  | echoed _ _ _ _ _ hone => exact absurd (hbackward.symm.trans hone) (by simp)
  | @busy _ id path _ _ hstage =>
      exfalso
      cases hstage with
      | offered _ _ hone => exact absurd (hforward.symm.trans hone) (by simp)
      | accepted _ _ hone => exact absurd (hbackward.symm.trans hone) (by simp)
      | completing _ _ _ hone => exact absurd (hforward.symm.trans hone) (by simp)
      | @streaming next acked received pieces numbers _ hflow hacks hunfinished hstop =>
          -- all that was sent has arrived and is acknowledged, so the window is open
          obtain rfl : pieces = [] := List.map_eq_nil_iff.mp (hflow.chunks.symm.trans hforward)
          obtain rfl : numbers = [] := List.map_eq_nil_iff.mp (hacks.symm.trans hbackward)
          have hsent := hflow.consecutive.eq_of_nil
          have hacked := hflow.rising.eq_of_nil
          have hsize := toNat_size setup side path
          refine hstop ((FileSender.canSend_iff _).mpr ⟨?_, ?_⟩)
          · show next.toNat < (setup.size side path).toNat
            omega
          · show next.toNat - acked.toNat < 65536
            omega

end

end OmarchyConnect.System
