/-
# The window of a sender

A sender is followed through any calls while its file can be read. Whatever the peer
says, what the polls return is the offer, then chunks that continue the file from its
start, then its hash, and no more than a window lies behind what is acknowledged.

`left` is what the send loop still sends in one poll. Each round takes a chunk off it,
so four rounds end the loop.
-/

import OmarchyConnect.Protocol.ConfirmedSend

namespace OmarchyConnect.Protocol

open OmarchyConnect.Library.Wire OmarchyConnect.Library.Files OmarchyConnect.Library.Runs
open OmarchyConnect.Library.Window

namespace FileSender

/-! ## The rounds of the send loop -/

/-- The send loop of `poll` for at most `rounds` rounds; nothing, when it would go on. -/
def sendRounds (io : Io) : ℕ → FileSender → List Message →
    Option (Except FileTransferError (List Message) × FileSender)
  | 0, sender, out => if sender.canSend then none else some (.ok out, sender)
  | rounds + 1, sender, out =>
      if sender.canSend then
        match io.readAt sender.file sender.nextOffset sender.chunkLength.toNat with
        | .error err => some (.error (.io err), sender)
        | .ok data =>
            sendRounds io rounds (sender.advance data)
              (out ++ [.fileChunk sender.id sender.nextOffset data])
      else some (.ok out, sender)

/-- The bytes that the window and the file leave to send. -/
def left (sender : FileSender) : ℕ :=
  min (65536 - (sender.nextOffset.toNat - sender.acked.toNat))
    (sender.size.toNat - sender.nextOffset.toNat)

/-- A sender can send while it has something left in its window. -/
theorem canSend_iff_left (sender : FileSender) : sender.canSend ↔ 0 < sender.left := by
  rw [canSend_iff, left]
  omega

/-- A chunk is what is left, up to its greatest length. -/
theorem toNat_chunkLength_left {sender : FileSender} (h : sender.canSend) :
    sender.chunkLength.toNat = min sender.left 16384 := by
  rw [toNat_chunkLength h, left]
  omega

/-- Sending takes the chunk from what is left. -/
theorem left_advance {sender : FileSender} (hbehind : sender.acked.toNat ≤ sender.nextOffset.toNat)
    (h : sender.canSend) (data : Bytes) :
    (sender.advance data).left = sender.left - min sender.left 16384 := by
  have hnext := toNat_nextOffset_advance h data
  rw [toNat_chunkLength_left h] at hnext
  rw [left, acked_advance, size_advance, hnext, left]
  omega

/-- A loop that has a chunk for each round left at most ends within the rounds. -/
theorem sendRounds_eq (io : Io) {rounds : ℕ} {sender : FileSender} (out : List Message)
    (hbehind : sender.acked.toNat ≤ sender.nextOffset.toNat)
    (hleft : sender.left ≤ 16384 * rounds) :
    sendRounds io rounds sender out = some (sendChunks io sender out) := by
  induction rounds generalizing sender out with
  | zero =>
      have hstop : ¬ sender.canSend := by
        rw [canSend_iff_left]
        omega
      rw [sendRounds, sendChunks, if_neg hstop, dif_neg hstop]
  | succ rounds ih =>
      by_cases hcan : sender.canSend
      · rw [sendRounds, sendChunks, if_pos hcan, dif_pos hcan]
        cases io.readAt sender.file sender.nextOffset sender.chunkLength.toNat with
        | error err => rfl
        | ok data =>
            have hnext := toNat_nextOffset_advance hcan data.val
            refine ih _ ?_ ?_
            · rw [acked_advance, hnext]
              omega
            · rw [left_advance hbehind hcan]
              omega
      · rw [sendRounds, sendChunks, if_neg hcan, dif_neg hcan]

/-- A chunk is not larger than allowed. -/
def ShortChunk : Message → Prop
  | .fileChunk _ _ data => data.length ≤ fileChunkSize.toNat
  | _ => True

/-- The send loop does not go past the window, and its chunks are short. -/
theorem sendChunks_window (io : Io) (sender : FileSender) (out : List Message)
    (hwindow : sender.nextOffset.toNat ≤ sender.acked.toNat + 65536)
    (hout : ∀ msg ∈ out, ShortChunk msg) :
    (sendChunks io sender out).2.nextOffset.toNat ≤ sender.acked.toNat + 65536 ∧
      ∀ msgs, (sendChunks io sender out).1 = .ok msgs → ∀ msg ∈ msgs, ShortChunk msg := by
  induction sender, out using sendChunks.induct io with
  | case1 sender out hcan err hread =>
      rw [sendChunks, dif_pos hcan, hread]
      exact ⟨hwindow, by rintro _ ⟨⟩⟩
  | case2 sender out hcan data hread _ ih =>
      rw [sendChunks, dif_pos hcan, hread]
      have hlength := toNat_chunkLength hcan
      have hnext := toNat_nextOffset_advance hcan data.val
      rw [acked_advance] at ih
      refine ih ?_ fun msg hmsg => ?_
      · rw [hnext, hlength]
        omega
      · rw [List.mem_append, List.mem_singleton] at hmsg
        cases hmsg with
        | inl hold => exact hout msg hold
        | inr hnew =>
            subst hnew
            show data.val.length ≤ 16384
            rw [data.property, hlength]
            omega
  | case3 sender out hcan =>
      rw [sendChunks, dif_neg hcan]
      refine ⟨hwindow, ?_⟩
      rintro _ ⟨⟩
      exact hout

end FileSender

/-- Pieces of a content that follow each other carry what lies between their ends. -/
theorem chunkBytes_chunkMessages {content : Bytes} {start stop : ℕ} {pieces : List (ℕ × Bytes)}
    (id : UInt32) (h : Pieces content start stop pieces) :
    content.take start ++ chunkBytes (chunkMessages id pieces) = content.take stop := by
  induction h with
  | nil => simp [chunkMessages]
  | @cons start stop data pieces hne hpiece hrest ih =>
      have hhead : chunkBytes (chunkMessages id ((start, data) :: pieces)) =
          data ++ chunkBytes (chunkMessages id pieces) := rfl
      rw [hhead, ← List.append_assoc, take_append_piece hpiece, ih]

namespace SendRun

/-! ## What a sender has returned -/

/-- The offer, once it is made. -/
def offer (sender : FileSender) : List Message :=
  if sender.offered then [.fileOffer sender.id sender.name sender.size] else []

/-- The completion, once it is sent. -/
def ending (sender : FileSender) (hash : Digest) : List Message :=
  if sender.completeSent then [.fileComplete sender.id hash] else []

variable (sha256 : Bytes → Digest)

/-- What a sender of the content keeps to against any peer. -/
structure InWindow (content : Bytes) (state : SendRun) : Prop where
  behind : state.sender.acked ≤ state.sender.nextOffset
  inside : state.sender.nextOffset ≤ state.sender.size
  size : state.sender.size.toNat = content.length
  window : state.sender.nextOffset - state.sender.acked ≤ fileWindowBytes
  /-- The offer comes first and once, then chunks from the start of the content up to
  `nextOffset`, then at most one completion, with the hash of the content. -/
  returned : ∃ pieces, Pieces content 0 state.sender.nextOffset.toNat pieces ∧
    (∀ piece ∈ pieces, piece.2.length ≤ fileChunkSize.toNat) ∧
    state.returned = offer state.sender ++ chunkMessages state.sender.id pieces ++
      ending state.sender (sha256 content)
  bytes : chunkBytes state.returned = content.take state.sender.nextOffset.toNat
  first : state.sender.offered = false → state.returned = []
  accepted : ∀ id offset data, .fileChunk id offset data ∈ state.returned →
    .fileAccept state.sender.id ∈ state.heard
  complete : state.sender.completeSent = true → state.sender.acked = state.sender.size

/-- What every call keeps. -/
structure Streams (path : Path) (content : Bytes) (state : SendRun) : Prop where
  steady : state.sender.Steady sha256
  sent : state.sender.Sent content
  file : state.sender.file.path = path
  window : state.sender.nextOffset.toNat ≤ state.sender.acked.toNat + 65536
  returned : ∃ pieces, Pieces content 0 state.sender.nextOffset.toNat pieces ∧
    (∀ piece ∈ pieces, piece.2.length ≤ fileChunkSize.toNat) ∧
    state.returned = offer state.sender ++ chunkMessages state.sender.id pieces ++
      ending state.sender (sha256 content)
  first : state.sender.offered = false → state.returned = []
  chunks : ∀ id offset data, .fileChunk id offset data ∈ state.returned →
    .fileAccept state.sender.id ∈ state.heard
  heard : state.sender.accepted = true → .fileAccept state.sender.id ∈ state.heard

variable {sha256} {path : Path} {content : Bytes} {state : SendRun}

/-- What streams is in the window. -/
theorem Streams.inWindow (h : Streams sha256 path content state) :
    state.InWindow sha256 content := by
  have hbehind := UInt64.le_iff_toNat_le.mpr h.steady.acked
  have hacked := h.steady.acked
  constructor
  case behind => exact hbehind
  case inside => exact UInt64.le_iff_toNat_le.mpr h.steady.inside
  case size => exact h.sent.size
  case window =>
    have hwindow := h.window
    rw [UInt64.le_iff_toNat_le, UInt64.toNat_sub_of_le _ _ hbehind]
    show _ ≤ 65536
    omega
  case returned => exact h.returned
  case bytes =>
    obtain ⟨pieces, hpieces, -, hreturned⟩ := h.returned
    have hbytes := chunkBytes_chunkMessages state.sender.id hpieces
    have hoffer : chunkBytes (offer state.sender) = [] := by
      unfold offer
      split <;> rfl
    have hending : chunkBytes (ending state.sender (sha256 content)) = [] := by
      unfold ending
      split <;> rfl
    rw [hreturned, chunkBytes_append, chunkBytes_append, hoffer, hending]
    simpa using hbytes
  case first => exact h.first
  case accepted => exact h.chunks
  case complete => exact fun hcomplete => (h.steady.sent hcomplete).1

/-- What the send loop does while the file can be read. -/
theorem Streams.loop (h : Streams sha256 path content state) {io : Io}
    (hio : io.Reads path content) :
    ∃ pieces last, Pieces content state.sender.nextOffset.toNat last.toNat pieces ∧
      (∀ piece ∈ pieces, piece.2.length ≤ fileChunkSize.toNat) ∧
      last.toNat ≤ state.sender.acked.toNat + 65536 ∧
      state.sender.ReadsTo last (chunkBytes (chunkMessages state.sender.id pieces)) ∧
      FileSender.sendChunks io state.sender [] = (.ok (chunkMessages state.sender.id pieces),
        state.sender.read last (chunkBytes (chunkMessages state.sender.id pieces))) := by
  obtain ⟨pieces, last, hpieces, hloop, hlast, -⟩ :=
    FileSender.sendChunks_spec state.sender [] (h.file ▸ hio) h.sent
  obtain ⟨hwindow, hshort⟩ := FileSender.sendChunks_window io state.sender [] h.window (by simp)
  have hbytes := chunkBytes_chunkMessages state.sender.id hpieces
  have hread : ({ state.sender with nextOffset := last, hasher := content.take last.toNat } :
      FileSender) =
        state.sender.read last (chunkBytes (chunkMessages state.sender.id pieces)) := by
    rw [FileSender.read, h.sent.hasher, hbytes]
  rw [List.nil_append, hread] at hloop
  rw [hloop] at hwindow hshort
  refine ⟨pieces, last, hpieces, fun piece hpiece => ?_, hwindow, ⟨?_, ?_⟩, hloop⟩
  · exact hshort _ rfl _ (List.mem_map_of_mem hpiece)
  · have hlength := congrArg List.length hbytes
    have hle := hpieces.le
    have hnext := h.sent.next
    simp only [List.length_append, List.length_take] at hlength
    omega
  · rw [h.sent.size]
    exact hlast

/-! ## What every call keeps -/

/-- More chunks of an accepted transfer. -/
theorem Streams.send (h : Streams sha256 path content state) (hsending : state.sender.Sending)
    {last : UInt64} {pieces : List (ℕ × Bytes)}
    (hpieces : Pieces content state.sender.nextOffset.toNat last.toNat pieces)
    (hshort : ∀ piece ∈ pieces, piece.2.length ≤ fileChunkSize.toNat)
    (hwindow : last.toNat ≤ state.sender.acked.toNat + 65536)
    (hreads : state.sender.ReadsTo last (chunkBytes (chunkMessages state.sender.id pieces))) :
    Streams sha256 path content
      { state with
        sender := state.sender.read last (chunkBytes (chunkMessages state.sender.id pieces))
        returned := state.returned ++ chunkMessages state.sender.id pieces } := by
  obtain ⟨before, hbefore, hbeforeShort, hreturned⟩ := h.returned
  constructor
  case steady => exact h.steady.read hsending.unsent hreads
  case sent =>
    refine ⟨h.sent.size, ?_, ?_⟩
    · exact hreads.inside.trans h.sent.size.le
    · show state.sender.hasher ++ _ = _
      rw [h.sent.hasher]
      exact chunkBytes_chunkMessages state.sender.id hpieces
  case file => exact h.file
  case window => exact hwindow
  case returned =>
    refine ⟨before ++ pieces, hbefore.append hpieces, fun piece hpiece => ?_, ?_⟩
    · exact (List.mem_append.mp hpiece).elim (hbeforeShort piece) (hshort piece)
    · show state.returned ++ _ = _
      rw [hreturned, chunkMessages_append]
      simp [ending, offer, FileSender.read, hsending.unsent]
  case first =>
    intro hfresh
    exact absurd (hfresh.symm.trans hsending.offered) (by simp)
  case chunks => exact fun _ _ _ _ => h.heard hsending.accepted
  case heard => exact h.heard

/-- The completion, after all bytes are acknowledged. -/
theorem Streams.complete (h : Streams sha256 path content state)
    (hsending : state.sender.Sending) (hacked : state.sender.acked = state.sender.size) :
    Streams sha256 path content
      { state with
        sender := state.sender.completed sha256
        returned := state.returned ++
          [.fileComplete state.sender.id (sha256 state.sender.hasher)] } := by
  obtain ⟨pieces, hpieces, hshort, hreturned⟩ := h.returned
  have hall : state.sender.hasher = content := by
    have hbehind := h.steady.acked
    have hsize := h.sent.size
    rw [hacked] at hbehind
    rw [h.sent.hasher]
    exact List.take_of_length_le (by omega)
  constructor
  case steady =>
    exact ⟨h.steady.inside, h.steady.acked, h.steady.hasher, by simp [FileSender.completed],
      fun _ => ⟨hacked, rfl⟩⟩
  case sent => exact ⟨h.sent.size, h.sent.next, h.sent.hasher⟩
  case file => exact h.file
  case window => exact h.window
  case returned =>
    refine ⟨pieces, hpieces, hshort, ?_⟩
    show state.returned ++ _ = _
    rw [hreturned, hall]
    simp only [ending, hsending.unsent, FileSender.completed]
    simp [offer]
  case first =>
    intro hfresh
    exact absurd (hfresh.symm.trans hsending.offered) (by simp)
  case chunks =>
    intro id offset data hchunk
    rw [List.mem_append, List.mem_singleton] at hchunk
    exact h.chunks id offset data (hchunk.resolve_right (by simp))
  case heard => exact h.heard

/-- A poll keeps the stream in its window. -/
theorem Streams.poll (h : Streams sha256 path content state) {io : Io}
    (hio : io.Reads path content) : Streams sha256 path content (state.step sha256 (.poll io)) := by
  have hturn := FileSender.turn sha256 io state.sender
  obtain ⟨pieces, last, hpieces, hshort, hwindow, hreads, hread⟩ := h.loop hio
  simp only [step]
  generalize state.sender.poll sha256 io = result at hturn
  cases hturn with
  | idle =>
      simp only [afterPoll, List.append_nil]
      exact h
  | offered _ hfresh hunsent =>
      obtain ⟨before, hbefore, hbeforeShort, hreturned⟩ := h.returned
      have hnone := h.first hfresh
      have hchunks : chunkMessages state.sender.id before = [] := by
        rw [hnone] at hreturned
        simp only [offer, ending, hfresh, hunsent] at hreturned
        simpa using hreturned.symm
      simp only [afterPoll, hnone, List.nil_append]
      refine ⟨⟨h.steady.inside, h.steady.acked, h.steady.hasher, h.steady.unsent, h.steady.sent⟩,
        ⟨h.sent.size, h.sent.next, h.sent.hasher⟩, h.file, h.window, ?_, by simp, by simp, h.heard⟩
      refine ⟨before, hbefore, hbeforeShort, ?_⟩
      simp [hchunks, offer, ending, hunsent]
  | emptyFile hsending hsize =>
      have hacked : state.sender.acked = state.sender.size := by
        have hbehind := h.steady.acked
        have hinside := h.steady.inside
        rw [hsize] at hinside ⊢
        exact UInt64.toNat_inj.mp (Nat.le_zero.mp (hbehind.trans hinside))
      obtain ⟨hmsg, hnext⟩ :=
        FileSender.finishHash_of_unhashed sha256 (h.steady.unsent hsending.unsent)
      rw [hmsg, hnext]
      exact h.complete hsending hacked
  | broken hsending hloop =>
      rw [hread] at hloop
      cases hloop
  | chunks hsending hloop =>
      rw [hread] at hloop
      cases hloop
      exact h.send hsending hpieces hshort hwindow hreads
  | completed hsending hloop hacked =>
      rw [hread] at hloop
      cases hloop
      have hsent := h.send hsending hpieces hshort hwindow hreads
      obtain ⟨hmsg, hnext⟩ :=
        FileSender.finishHash_of_unhashed sha256 (hsent.steady.unsent hsending.unsent)
      have hcomplete := hsent.complete ⟨hsending.failed, hsending.unsent, hsending.offered,
        hsending.accepted⟩ hacked
      simp only at hmsg hnext hcomplete
      rw [hmsg, hnext]
      simp only [afterPoll]
      rw [← List.append_assoc]
      exact hcomplete

/-- A message keeps the stream in its window. -/
theorem Streams.onPeer (h : Streams sha256 path content state) (msg : Message) :
    Streams sha256 path content (state.step sha256 (.onPeer msg)) := by
  have htaken := FileSender.taken state.sender msg
  have hsteady := h.steady.onPeer msg
  have hheard : .fileAccept state.sender.id ∈ state.heard →
      .fileAccept state.sender.id ∈ state.heard ++ [msg] := List.mem_append_left [msg]
  have hsize := h.sent.size
  have hnext := h.sent.next
  have hhasher := h.sent.hasher
  simp only [step]
  generalize state.sender.onPeer msg = result at htaken hsteady
  cases htaken with
  | accepted =>
      exact ⟨hsteady, ⟨hsize, hnext, hhasher⟩, h.file, h.window, h.returned, h.first,
        fun id offset data hchunk => hheard (h.chunks id offset data hchunk), by simp⟩
  | acked hnew =>
      have hwindow := h.window
      rw [UInt64.lt_iff_toNat_lt] at hnew
      exact ⟨hsteady, ⟨hsize, hnext, hhasher⟩, h.file, by simp only; omega, h.returned, h.first,
        fun id offset data hchunk => hheard (h.chunks id offset data hchunk),
        fun haccepted => hheard (h.heard haccepted)⟩
  | _ =>
      exact ⟨hsteady, ⟨hsize, hnext, hhasher⟩, h.file, h.window, h.returned, h.first,
        fun id offset data hchunk => hheard (h.chunks id offset data hchunk),
        fun haccepted => hheard (h.heard haccepted)⟩

/-- A sender that was just opened on the content. -/
theorem streams_openFile (sha256 : Bytes → Digest) {io : Io} {id : UInt32} {sender : FileSender}
    (hopen : FileSender.openFile io id path = .ok sender) (hio : io.Reads path content)
    (hlength : content.length < 2 ^ 64) : Streams sha256 path content { sender } := by
  have hsteady := FileSender.steady_openFile sha256 hopen
  simp only [FileSender.openFile, hio.size] at hopen
  cases hopen
  have hsize : (UInt64.ofNat content.length).toNat = content.length :=
    UInt64.toNat_ofNat_of_lt' hlength
  exact ⟨hsteady, ⟨hsize, Nat.zero_le _, rfl⟩, rfl, Nat.zero_le _,
    ⟨[], .nil 0, by simp, rfl⟩, fun _ => rfl, by simp, by simp⟩

/-- Whatever the peer says, a sender whose file can be read keeps to its window and to the
order of the transfer, and the send loop of its next poll ends. -/
theorem inWindow_run (sha256 : Bytes → Digest) {io : Io} {id : UInt32} {path : Path}
    {sender : FileSender} {content : Bytes}
    (hopen : FileSender.openFile io id path = .ok sender) (hio : io.Reads path content)
    (hlength : content.length < 2 ^ 64) (events : List SendEvent)
    (hreads : ∀ call, .poll call ∈ events → call.Reads path content) :
    (run (step sha256) { sender } events).InWindow sha256 content ∧
      ∀ call : Io, FileSender.sendRounds call 4 (run (step sha256) { sender } events).sender [] =
        some (FileSender.sendChunks call (run (step sha256) { sender } events).sender []) := by
  have hstart := streams_openFile sha256 hopen hio hlength
  have hstreams : Streams sha256 path content (run (step sha256) { sender } events) := by
    refine invariant_of_mem (step sha256) (Streams sha256 path content)
      (fun event => ∀ call, event = .poll call → call.Reads path content)
      (fun state event hstate hok => ?_) hstart
      (fun event hevent call hcall => hreads call (hcall ▸ hevent))
    cases event with
    | poll call => exact hstate.poll (hok call rfl)
    | onPeer msg => exact hstate.onPeer msg
  refine ⟨hstreams.inWindow, fun call => ?_⟩
  refine FileSender.sendRounds_eq call [] hstreams.steady.acked ?_
  rw [FileSender.left]
  omega

/-- The file of four zeros is read without an error. -/
theorem fourZeros_reads : fourZeros.Reads ["a.bin"] (List.replicate 4 0) where
  size := by decide
  piece offset n hfits := by
    rw [List.length_replicate] at hfits
    refine ⟨_, rfl, ?_⟩
    rw [List.drop_replicate, List.take_replicate, min_eq_left (by omega)]

/-- The transfer of four zeros. -/
theorem inWindow_run_fourZeros :
    (run (step sampleSha256) { sender := fourZerosSender } fourZerosSend).InWindow sampleSha256
        (List.replicate 4 0) ∧
      ∀ call : Io, FileSender.sendRounds call 4
          (run (step sampleSha256) { sender := fourZerosSender } fourZerosSend).sender [] =
        some (FileSender.sendChunks call
          (run (step sampleSha256) { sender := fourZerosSender } fourZerosSend).sender []) :=
  inWindow_run sampleSha256 openFile_fourZeros fourZeros_reads (by decide) fourZerosSend
    (by simpa [fourZerosSend] using fourZeros_reads)

end SendRun

end OmarchyConnect.Protocol
