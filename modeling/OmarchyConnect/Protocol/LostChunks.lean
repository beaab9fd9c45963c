/-
# Chunks that a failed poll loses

`poll` counts a chunk as sent and hashes it as soon as it is read. When a later read of
the same poll fails, the chunks are dropped with the error, and nobody sends them again.
`kept_iff` says that this is the only way to lose bytes, and `plan` which reads a poll
makes.
-/

import OmarchyConnect.Protocol.ConfirmedSend

namespace OmarchyConnect.Protocol

open OmarchyConnect.Library.Wire OmarchyConnect.Library.Files OmarchyConnect.Library.Runs

namespace FileSender

/-! ## The reads of a poll -/

/-- The reads that the send loop makes as long as they are answered: where each starts
and how long it is. -/
def plan (sender : FileSender) : List (UInt64 × ℕ) :=
  if h : sender.canSend then
    have := remaining_advance_lt h []
    (sender.nextOffset, sender.chunkLength.toNat) :: plan (sender.advance [])
  else []
termination_by sender.size.toNat - sender.nextOffset.toNat

/-- A sender that can send plans the next chunk first. -/
theorem plan_of_canSend {sender : FileSender} (h : sender.canSend) :
    sender.plan = (sender.nextOffset, sender.chunkLength.toNat) :: (sender.advance []).plan := by
  rw [plan, dif_pos h]

/-- A sender that cannot send plans nothing. -/
theorem plan_of_not_canSend {sender : FileSender} (h : ¬ sender.canSend) : sender.plan = [] := by
  rw [plan, dif_neg h]

/-- The plan is made from the offsets alone. -/
theorem plan_congr {first second : FileSender} (hsize : second.size = first.size)
    (hacked : second.acked = first.acked) (hnext : second.nextOffset = first.nextOffset) :
    second.plan = first.plan := by
  have hcan : second.canSend ↔ first.canSend := by rw [canSend, canSend, hsize, hacked, hnext]
  have hlength : second.chunkLength = first.chunkLength := by
    rw [chunkLength, chunkLength, hsize, hacked, hnext]
  induction first using plan.induct generalizing second with
  | case1 first h _ ih =>
      have hadvanced : (second.advance []).nextOffset = (first.advance []).nextOffset := by
        rw [advance, advance, hnext, hlength]
      have hsizes : (second.advance []).size = (first.advance []).size := by
        rw [size_advance, size_advance, hsize]
      have hackeds : (second.advance []).acked = (first.advance []).acked := by
        rw [acked_advance, acked_advance, hacked]
      have hrest : (second.advance []).plan = (first.advance []).plan := by
        refine ih hsizes hackeds hadvanced ?_ ?_
        · rw [canSend, canSend, hsizes, hackeds, hadvanced]
        · rw [chunkLength, chunkLength, hsizes, hackeds, hadvanced]
      rw [plan_of_canSend h, plan_of_canSend (hcan.mpr h), hnext, hlength, hrest]
  | case2 first h =>
      rw [plan_of_not_canSend h, plan_of_not_canSend (hcan.not.mpr h)]

/-- The plan does not depend on what was read. -/
theorem plan_advance (sender : FileSender) (data : Bytes) :
    (sender.advance data).plan = (sender.advance []).plan := by
  have hsize : (sender.advance data).size = (sender.advance []).size := by
    rw [size_advance, size_advance]
  have hacked : (sender.advance data).acked = (sender.advance []).acked := by
    rw [acked_advance, acked_advance]
  have hnext : (sender.advance data).nextOffset = (sender.advance []).nextOffset := by
    rw [advance, advance]
  exact plan_congr hsize hacked hnext

/-- The file system does not answer one of the reads. -/
def Unanswered (io : Io) (file : File) (reads : List (UInt64 × ℕ)) : Prop :=
  ∃ offset n err, (offset, n) ∈ reads ∧ io.readAt file offset n = .error err

/-- A read of the plan fails, but not the first one. -/
def LosesChunk (io : Io) (sender : FileSender) : Prop :=
  ¬ Unanswered io sender.file (sender.plan.take 1) ∧ Unanswered io sender.file sender.plan

/-- The send loop ends with an error just when a read of its plan fails. -/
theorem sendChunks_error_iff (io : Io) (sender : FileSender) (out : List Message) :
    (∃ err, (sendChunks io sender out).1 = .error err) ↔
      Unanswered io sender.file sender.plan := by
  induction sender, out using sendChunks.induct io with
  | case1 sender out hcan err hread =>
      rw [sendChunks, dif_pos hcan, hread, plan_of_canSend hcan]
      exact iff_of_true ⟨_, rfl⟩ ⟨_, _, err, List.mem_cons_self, hread⟩
  | case2 sender out hcan data hread _ ih =>
      rw [sendChunks, dif_pos hcan, hread, plan_of_canSend hcan]
      rw [plan_advance, file_advance] at ih
      refine ih.trans ⟨?_, ?_⟩
      · rintro ⟨offset, n, err, hmem, hfails⟩
        exact ⟨offset, n, err, List.mem_cons_of_mem _ hmem, hfails⟩
      · rintro ⟨offset, n, err, hmem, hfails⟩
        cases hmem with
        | head => exact absurd (hread.symm.trans hfails) (by simp)
        | tail _ hlater => exact ⟨offset, n, err, hlater, hfails⟩
  | case3 sender out hcan =>
      rw [sendChunks, dif_neg hcan, plan_of_not_canSend hcan]
      exact iff_of_false (by simp) (by simp [Unanswered])

/-- A poll ends with an error just when it comes to its loop and a read fails there. -/
theorem poll_error_iff (sha256 : Bytes → Digest) (io : Io) (sender : FileSender) :
    (∃ err, (sender.poll sha256 io).1 = .error err) ↔
      sender.Sending ∧ Unanswered io sender.file sender.plan := by
  have hturn := turn sha256 io sender
  have hloop := sendChunks_error_iff io sender []
  generalize sender.poll sha256 io = result at hturn
  cases hturn with
  | idle hsending => exact iff_of_false (by simp) (fun h => hsending h.1)
  | offered hsending => exact iff_of_false (by simp) (fun h => hsending h.1)
  | emptyFile hsending hsize =>
      have hstop : ¬ sender.canSend := by
        rw [canSend_iff, hsize]
        simp
      rw [plan_of_not_canSend hstop]
      exact iff_of_false (by simp) (by simp [Unanswered])
  | broken hsending hbroken =>
      rw [hbroken] at hloop
      exact iff_of_true ⟨_, rfl⟩ ⟨hsending, hloop.mp ⟨_, rfl⟩⟩
  | chunks hsending hok =>
      rw [hok] at hloop
      exact iff_of_false (by simp) (fun h => absurd (hloop.mpr h.2) (by simp))
  | completed hsending hok =>
      rw [hok] at hloop
      exact iff_of_false (by simp) (fun h => absurd (hloop.mpr h.2) (by simp))

/-- A loop whose first read fails has changed nothing. One that fails later has read. -/
theorem sendChunks_broken {io : Io} {sender next : FileSender} {err : FileTransferError}
    (hloop : sendChunks io sender [] = (.error err, next)) :
    (LosesChunk io sender → sender.hasher.length < next.hasher.length) ∧
      (¬ LosesChunk io sender → next = sender) := by
  have hfails : Unanswered io sender.file sender.plan :=
    (sendChunks_error_iff io sender []).mp ⟨err, by rw [hloop]⟩
  have hcan : sender.canSend := by
    by_contra hstop
    rw [plan_of_not_canSend hstop] at hfails
    obtain ⟨_, _, _, hmem, -⟩ := hfails
    cases hmem
  have hfirst : Unanswered io sender.file (sender.plan.take 1) ↔
      ∃ err, io.readAt sender.file sender.nextOffset sender.chunkLength.toNat = .error err := by
    simp [plan_of_canSend hcan, Unanswered]
  rw [LosesChunk, and_iff_left hfails, not_not, hfirst]
  rw [sendChunks, dif_pos hcan] at hloop
  cases hread : io.readAt sender.file sender.nextOffset sender.chunkLength.toNat with
  | error other =>
      rw [hread] at hloop
      cases hloop
      exact ⟨fun h => absurd ⟨other, rfl⟩ h, fun _ => rfl⟩
  | ok data =>
      rw [hread] at hloop
      have hbounds := chunkLength_bounds hcan
      have hnext := toNat_nextOffset_advance hcan data.val
      obtain ⟨last, added, -, hread, -⟩ := sendChunks_reads io (sender.advance data.val)
        ([] ++ [.fileChunk sender.id sender.nextOffset data.val])
        (by rw [hnext, size_advance]; exact hbounds.2)
      simp only at hloop
      rw [hloop] at hread
      simp only at hread
      refine ⟨fun _ => ?_, by rintro ⟨_, ⟨⟩⟩⟩
      rw [hread, read_advance, FileSender.read]
      have hlength := data.property
      simp only [List.length_append]
      omega

end FileSender

/-- The hash is no chunk. -/
@[simp]
theorem chunkBytes_complete (id : UInt32) (hash : Digest) :
    chunkBytes [.fileComplete id hash] = [] := rfl

namespace SendRun

variable (sha256 : Bytes → Digest)

/-- The chunks that were returned are all that was read, hashed and counted. -/
def Kept (state : SendRun) : Prop :=
  chunkBytes state.returned = state.sender.hasher ∧
    (chunkBytes state.returned).length = state.sender.nextOffset.toNat

/-- A poll comes to its loop, reads a chunk and then fails to read another. -/
def Loses (state : SendRun) : SendEvent → Prop
  | .poll io => state.sender.Sending ∧ FileSender.LosesChunk io state.sender
  | .onPeer _ => False

variable {sha256}

/-- The chunks are kept just when what was sent is what was hashed. -/
theorem kept_iff_bytes {state : SendRun} (hsteady : state.sender.Steady sha256) :
    state.Kept ↔ chunkBytes state.returned = state.sender.hasher := by
  refine ⟨And.left, fun h => ⟨h, ?_⟩⟩
  rw [h]
  exact hsteady.hasher

/-- A poll keeps what was read unless it loses a chunk. -/
theorem kept_poll_iff {state : SendRun} (hsteady : state.sender.Steady sha256)
    (hkept : chunkBytes state.returned = state.sender.hasher) (io : Io) :
    (chunkBytes (state.step sha256 (.poll io)).returned =
        (state.step sha256 (.poll io)).sender.hasher) ↔ ¬ state.Loses (.poll io) := by
  have hturn := FileSender.turn sha256 io state.sender
  have herror := FileSender.sendChunks_error_iff io state.sender []
  obtain ⟨next, added, -, hloop, hmsgs⟩ :=
    FileSender.sendChunks_reads io state.sender [] hsteady.inside
  -- A loop that ends well has no read that fails.
  have hwhole : ∀ {msgs : List Message},
      (FileSender.sendChunks io state.sender []).1 = .ok msgs → ¬ state.Loses (.poll io) := by
    rintro msgs hok ⟨-, hloses⟩
    obtain ⟨err, hfails⟩ := herror.mpr hloses.2
    exact absurd (hok.symm.trans hfails) (by simp)
  simp only [step]
  generalize state.sender.poll sha256 io = result at hturn
  cases hturn with
  | idle hsending => exact iff_of_true (by simpa [afterPoll] using hkept) (fun h => hsending h.1)
  | offered hsending =>
      exact iff_of_true (by simpa [afterPoll, chunkBytes] using hkept) (fun h => hsending h.1)
  | emptyFile hsending hsize =>
      have hstop : ¬ state.sender.canSend := by
        rw [FileSender.canSend_iff, hsize]
        simp
      have hok : FileSender.sendChunks io state.sender [] = (.ok [], state.sender) := by
        rw [FileSender.sendChunks, dif_neg hstop]
      obtain ⟨hmsg, hnext⟩ :=
        FileSender.finishHash_of_unhashed sha256 (hsteady.unsent hsending.unsent)
      rw [hmsg, hnext]
      refine iff_of_true ?_ (hwhole (congrArg Prod.fst hok))
      simpa [afterPoll, chunkBytes, FileSender.completed] using hkept
  | broken hsending hbroken =>
      obtain ⟨hlost, hsame⟩ := FileSender.sendChunks_broken hbroken
      rw [Loses, and_iff_right hsending]
      simp only [afterPoll]
      rw [hkept]
      constructor
      · intro heq hloses
        exact absurd (hlost hloses) (by rw [heq]; exact lt_irrefl _)
      · intro hkeeps
        rw [hsame hkeeps]
  | chunks hsending hok =>
      refine iff_of_true ?_ (hwhole (congrArg Prod.fst hok))
      rw [hok] at hloop hmsgs
      obtain rfl := hloop
      obtain ⟨chunks, rfl, hchunks⟩ := hmsgs _ rfl
      simp [afterPoll, hkept, hchunks.carried, FileSender.read]
  | completed hsending hok =>
      refine iff_of_true ?_ (hwhole (congrArg Prod.fst hok))
      rw [hok] at hloop hmsgs
      obtain rfl := hloop
      obtain ⟨chunks, rfl, hchunks⟩ := hmsgs _ rfl
      have hread : (state.sender.read next added).hash = none := hsteady.unsent hsending.unsent
      obtain ⟨hmsg, hnext⟩ := FileSender.finishHash_of_unhashed sha256 hread
      rw [hmsg, hnext]
      simp [afterPoll, hkept, hchunks.carried, FileSender.read, FileSender.completed]

/-- A call keeps a sender steady. -/
theorem steady_step {state : SendRun} (hsteady : state.sender.Steady sha256)
    (event : SendEvent) : (state.step sha256 event).sender.Steady sha256 := by
  cases event with
  | poll io =>
      have hpoll := hsteady.poll io
      simp only [step]
      generalize state.sender.poll sha256 io = result at hpoll ⊢
      obtain ⟨result, next⟩ := result
      cases result <;> exact hpoll
  | onPeer msg => exact hsteady.onPeer msg

/-- A step keeps what was read unless it loses a chunk. -/
theorem kept_step_iff {state : SendRun} (hsteady : state.sender.Steady sha256)
    (hkept : state.Kept) (event : SendEvent) :
    (state.step sha256 event).Kept ↔ ¬ state.Loses event := by
  rw [kept_iff_bytes (steady_step hsteady event)]
  cases event with
  | poll io => exact kept_poll_iff hsteady hkept.1 io
  | onPeer msg =>
      have htaken := FileSender.taken state.sender msg
      refine iff_of_true ?_ not_false
      simp only [step]
      generalize state.sender.onPeer msg = result at htaken ⊢
      cases htaken <;> exact hkept.1

/-- Exactly when no poll fails behind a chunk that it read, the chunks that were returned
are all that was read, in every state that the calls reach. -/
theorem kept_iff (sha256 : Bytes → Digest) {io : Io} {id : UInt32} {path : Path}
    {sender : FileSender} (hopen : FileSender.openFile io id path = .ok sender)
    (events : List SendEvent) :
    (∀ front, front <+: events → (run (step sha256) { sender } front).Kept) ↔
      Along (step sha256) (fun state event => ¬ state.Loses event) { sender } events := by
  have hsteady := FileSender.steady_openFile sha256 hopen
  have hfresh : ({ sender } : SendRun).Kept := by
    rw [kept_iff_bytes hsteady]
    exact (FileSender.fresh_openFile hopen).1.symm
  have hkeep : ∀ (state : SendRun) (event : SendEvent),
      (state.sender.Steady sha256 ∧ state.Kept) → ¬ state.Loses event →
        (state.step sha256 event).sender.Steady sha256 ∧ (state.step sha256 event).Kept :=
    fun state event h hgood => ⟨steady_step h.1 event, (kept_step_iff h.1 h.2 event).mpr hgood⟩
  have hloses : ∀ (state : SendRun) (event : SendEvent),
      (state.sender.Steady sha256 ∧ state.Kept) → state.Loses event →
        ¬ (state.step sha256 event).Kept :=
    fun state event h hbad hkept => (kept_step_iff h.1 h.2 event).mp hkept hbad
  exact prefixes_iff_along_of_inv (step sha256) hkeep (fun _ h => h.2) hloses
    ⟨hsteady, hfresh⟩ events

/-- Nothing of the four zeros is lost. -/
theorem kept_iff_fourZeros :
    (∀ front, front <+: fourZerosSend →
      (run (step sampleSha256) { sender := fourZerosSender } front).Kept) ↔
      Along (step sampleSha256) (fun state event => ¬ state.Loses event)
        { sender := fourZerosSender } fourZerosSend :=
  kept_iff sampleSha256 openFile_fourZeros fourZerosSend

/-- A system with a file of 20000 bytes, of which only the first chunk is left. -/
def shrunkFile : Io :=
  { quietIo with
    metadata := fun _ => .ok 20000
    readAt := fun file offset n =>
      if offset = 0 then quietIo.readAt file offset n else .error ⟨"failed to fill whole buffer"⟩ }

/-- The sender of a file that is to be cut short. -/
def shrunkSender : FileSender :=
  { id := 9, name := "a.bin", size := 20000, file := { path := ["a.bin"] } }

/-- The file shrinks while it is sent: the first chunk is counted and never returned. -/
theorem shrunkFile_loses :
    FileSender.openFile shrunkFile 9 ["a.bin"] = .ok shrunkSender ∧
      ¬ (run (step sampleSha256) { sender := shrunkSender }
        [.poll shrunkFile, .onPeer (.fileAccept 9), .poll shrunkFile]).Kept := by
  refine ⟨by decide +kernel, ?_⟩
  intro hkept
  have hcounted := hkept.2
  revert hcounted
  decide +kernel

end SendRun

end OmarchyConnect.Protocol
