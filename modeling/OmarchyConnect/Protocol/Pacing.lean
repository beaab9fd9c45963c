/-
# The chunks of a window

The window is a whole number of chunks and only whole chunks are acknowledged, so a
sender stands at a multiple of the chunk size or at the end of its file, and so do the
offsets of its chunks and of the acknowledgements.
-/

import OmarchyConnect.Library.Window
import OmarchyConnect.Protocol.Receiving
import OmarchyConnect.Protocol.Sending

namespace OmarchyConnect.Protocol

open OmarchyConnect.Library.Wire OmarchyConnect.Library.Files OmarchyConnect.Library.Window

/-- A position at a chunk's end. -/
abbrev ChunkMark (size : UInt64) (position : ℕ) : Prop := AtMark 16384 size.toNat position

/-- A chunk ends at a mark. -/
def ChunkOnMarks (size : UInt64) : Message → Prop
  | .fileChunk _ offset data => ChunkMark size (offset.toNat + data.length)
  | _ => True

/-- An acknowledgement is of bytes up to a mark. -/
def AckOnMarks (size : UInt64) : Message → Prop
  | .fileAck _ offset => ChunkMark size offset.toNat
  | _ => True

namespace FileSender

/-- The sender stands at a mark, not further than a window from what is acknowledged. -/
structure OnMarks (sender : FileSender) : Prop where
  acked : ChunkMark sender.size sender.acked.toNat
  next : ChunkMark sender.size sender.nextOffset.toNat
  behind : sender.acked.toNat ≤ sender.nextOffset.toNat
  inside : sender.nextOffset.toNat ≤ sender.size.toNat
  window : sender.nextOffset.toNat ≤ sender.acked.toNat + 65536

variable {sender : FileSender}

/-- The next chunk ends at a mark and inside the window. -/
theorem OnMarks.chunk (h : sender.OnMarks) (hcan : sender.canSend) :
    ChunkMark sender.size (sender.nextOffset.toNat + sender.chunkLength.toNat) ∧
      sender.nextOffset.toNat + sender.chunkLength.toNat ≤ sender.acked.toNat + 65536 := by
  have hlength := toNat_chunkLength hcan
  obtain ⟨hlt, hroom⟩ := (canSend_iff sender).mp hcan
  have hbehind := h.behind
  have hnext : 16384 ∣ sender.nextOffset.toNat := h.next.resolve_right (by omega)
  have hacked : 16384 ∣ sender.acked.toNat := h.acked.resolve_right (by omega)
  refine ⟨?_, by omega⟩
  by_cases hlast : sender.size.toNat - sender.nextOffset.toNat ≤ 16384
  · exact Or.inr (by omega)
  · exact Or.inl (by omega)

/-- A chunk ends at a mark. -/
theorem OnMarks.advance (h : sender.OnMarks) (hcan : sender.canSend) (data : Bytes) :
    (sender.advance data).OnMarks := by
  have hnext := toNat_nextOffset_advance hcan data
  have hsize := size_advance sender data
  have hacked := acked_advance sender data
  obtain ⟨hmark, hwindow⟩ := h.chunk hcan
  have hinside := (chunkLength_bounds hcan).2
  constructor
  case acked =>
    rw [hsize, hacked]
    exact h.acked
  case next =>
    rw [hnext, hsize]
    exact hmark
  case behind =>
    rw [hnext, hacked]
    exact h.behind.trans (Nat.le_add_right _ _)
  case inside =>
    rw [hnext, hsize]
    exact hinside
  case window =>
    rw [hnext, hacked]
    exact hwindow

/-- The send loop stays on the marks, and its chunks end there. -/
theorem OnMarks.sendChunks (io : Io) (out : List Message) (h : sender.OnMarks)
    (hout : ∀ msg ∈ out, ChunkOnMarks sender.size msg) :
    (FileSender.sendChunks io sender out).2.OnMarks ∧
      (FileSender.sendChunks io sender out).2.size = sender.size ∧
      ∀ msgs, (FileSender.sendChunks io sender out).1 = .ok msgs →
        ∀ msg ∈ msgs, ChunkOnMarks sender.size msg := by
  induction sender, out using sendChunks.induct io with
  | case1 sender out hcan err hread =>
      rw [FileSender.sendChunks, dif_pos hcan, hread]
      exact ⟨h, rfl, by rintro _ ⟨⟩⟩
  | case2 sender out hcan data hread _ ih =>
      rw [FileSender.sendChunks, dif_pos hcan, hread]
      have hsize := size_advance sender data.val
      rw [hsize] at ih
      refine ih (h.advance hcan data.val) fun msg hmsg => ?_
      rw [List.mem_append, List.mem_singleton] at hmsg
      cases hmsg with
      | inl hold => exact hout msg hold
      | inr hnew =>
          subst hnew
          have hmark := (h.chunk hcan).1
          rw [← data.property] at hmark
          exact hmark
  | case3 sender out hcan =>
      rw [FileSender.sendChunks, dif_neg hcan]
      refine ⟨h, rfl, ?_⟩
      rintro _ ⟨⟩
      exact hout

/-- The hash of the file keeps the sender on the marks. -/
theorem OnMarks.finish (h : sender.OnMarks) (sha256 : Bytes → Digest) :
    ({ sender.finishHash sha256 with completeSent := true } : FileSender).OnMarks ∧
      (sender.finishHash sha256).size = sender.size := by
  unfold finishHash
  split
  · exact ⟨⟨h.acked, h.next, h.behind, h.inside, h.window⟩, rfl⟩
  · exact ⟨⟨h.acked, h.next, h.behind, h.inside, h.window⟩, rfl⟩

/-- `poll` stays on the marks, and its chunks end there. -/
theorem OnMarks.poll (h : sender.OnMarks) (sha256 : Bytes → Digest) (io : Io)
    {msgs : List Message} {after : FileSender}
    (hpoll : sender.poll sha256 io = (.ok msgs, after)) :
    after.OnMarks ∧ after.size = sender.size ∧ ∀ msg ∈ msgs, ChunkOnMarks sender.size msg := by
  have hturn := turn sha256 io sender
  have hchunks := h.sendChunks io [] (by simp)
  rw [hpoll] at hturn
  cases hturn with
  | idle => exact ⟨h, rfl, by simp⟩
  | offered =>
      exact ⟨⟨h.acked, h.next, h.behind, h.inside, h.window⟩, rfl, by simp [ChunkOnMarks]⟩
  | emptyFile =>
      obtain ⟨hmarks, hsize⟩ := h.finish sha256
      exact ⟨hmarks, hsize, by simp [ChunkOnMarks, completeMessage]⟩
  | chunks _ hloop =>
      rw [hloop] at hchunks
      exact ⟨hchunks.1, hchunks.2.1, hchunks.2.2 msgs rfl⟩
  | @completed out _ _ hloop =>
      rw [hloop] at hchunks
      obtain ⟨hsent, hsame, hout⟩ := hchunks
      obtain ⟨hmarks, hsize⟩ := hsent.finish sha256
      refine ⟨hmarks, hsize.trans hsame, fun msg hmsg => ?_⟩
      rw [List.mem_append, List.mem_singleton] at hmsg
      cases hmsg with
      | inl hchunk => exact hout out rfl msg hchunk
      | inr hlast =>
          rw [hlast]
          trivial

/-- An acknowledgement up to a mark keeps the sender on the marks. -/
theorem OnMarks.taken (h : sender.OnMarks) {msg : Message} {after : FileSender}
    (hmsg : AckOnMarks sender.size msg) (htaken : sender.Taken msg (.ok true, after)) :
    after.OnMarks ∧ after.size = sender.size := by
  cases htaken with
  | accepted => exact ⟨⟨h.acked, h.next, h.behind, h.inside, h.window⟩, rfl⟩
  | oldAck => exact ⟨h, rfl⟩
  | @acked offset hnew hsent =>
      simp only [PastSent, not_or, UInt64.lt_iff_toNat_lt, not_lt] at hnew hsent
      have hwindow := h.window
      exact ⟨⟨hmsg, h.next, hsent.1, h.inside, by simp only; omega⟩, rfl⟩
  | confirmed => exact ⟨⟨h.acked, h.next, h.behind, h.inside, h.window⟩, rfl⟩

end FileSender

/-- A receiver that takes a chunk up to a mark stands there, and acknowledges it. -/
theorem FileReceiver.handle_onMarks (sha256 : Bytes → Digest) {io : Io}
    {receiver next : FileReceiver} {disk after : Disk UInt8} {msg : Message} {more : List Message}
    (hlive : receiver.Live) (hreceived : ChunkMark receiver.size receiver.received.toNat)
    (hmsg : ChunkOnMarks receiver.size msg)
    (hfits : ∀ id offset data, msg = .fileChunk id offset data →
      offset.toNat + data.length < 2 ^ 64)
    (hhandle : receiver.handle sha256 io disk msg = (.ok more, next, after)) :
    ChunkMark receiver.size next.received.toNat ∧
      ∀ reply ∈ more, AckOnMarks receiver.size reply := by
  have hhandled := FileReceiver.handled sha256 io disk msg hlive
  rw [hhandle] at hhandled
  cases hhandled with
  | ignored => exact ⟨hreceived, by simp⟩
  | @written offset data file horder =>
      have hsmall := hfits _ _ _ rfl
      have hoffset : offset = receiver.received := by
        by_contra hne
        exact horder (Or.inl hne)
      rw [hoffset] at hsmall hmsg
      have hposition : (receiver.absorb data).received.toNat =
          receiver.received.toNat + data.length := by
        rw [FileReceiver.absorb]
        exact toNat_add_ofNat hsmall
      have hmark : ChunkMark receiver.size (receiver.absorb data).received.toNat := by
        rw [hposition]
        exact hmsg
      refine ⟨hmark, fun reply hreply => ?_⟩
      rw [List.mem_singleton.mp hreply]
      exact hmark
  | outOfOrder => exact ⟨hreceived, by simp [AckOnMarks]⟩
  | tooEarly => exact ⟨hreceived, by simp [AckOnMarks]⟩
  | saved => exact ⟨hreceived, by simp [AckOnMarks]⟩

end OmarchyConnect.Protocol
