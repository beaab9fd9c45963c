/-
# Integrity of a received file

A receiver that accepted an offer takes any messages in any order while the calls
of the file system succeed. `Stage` ties its counter, its running hash, the two
flags and the files on disk to the chunks that were acknowledged so far. A step
keeps it, and `receiver_integrity` reads the promises off it.
-/

import OmarchyConnect.Protocol.Receiving

namespace OmarchyConnect.Protocol

open OmarchyConnect.Library.Wire OmarchyConnect.Library.Files OmarchyConnect.Library.Runs

/-- One call of `handle`: what the system answers and the message. -/
structure Call where
  io : Io
  msg : Message

/-- A receiver with the disk that it writes to. -/
structure Receiving where
  receiver : FileReceiver
  disk : Disk UInt8

/-- The bytes that a message carries. -/
def Call.data (call : Call) : Bytes :=
  match call.msg with
  | .fileChunk _ _ data => data
  | _ => []

namespace Receiving

variable (sha256 : Bytes → Digest)

/-- One call of `handle`. -/
def step (state : Receiving) (call : Call) : Receiving :=
  let outcome := state.receiver.handle sha256 call.io state.disk call.msg
  { receiver := outcome.2.1, disk := outcome.2.2 }

/-- The bytes that a call accepts: those of a chunk that is acknowledged. -/
def acceptedBytes (state : Receiving) (call : Call) : Bytes :=
  match (state.receiver.handle sha256 call.io state.disk call.msg).1 with
  | .ok [.fileAck _ _] => call.data
  | _ => []

/-- The accepted chunks of a run, one after another. -/
def accepted (state : Receiving) : List Call → Bytes
  | [] => []
  | call :: calls =>
      state.acceptedBytes sha256 call ++ accepted (state.step sha256 call) calls

/-- What was accepted in two parts of a run. -/
theorem accepted_append (state : Receiving) (first second : List Call) :
    state.accepted sha256 (first ++ second) =
      state.accepted sha256 first ++ (run (step sha256) state first).accepted sha256 second := by
  induction first generalizing state with
  | nil => rfl
  | cons call first ih =>
      rw [List.cons_append, accepted, accepted, ih, List.append_assoc, run_cons]

/-- What holds of a receiver, its disk and the chunks accepted so far. `before` is
the disk before the offer was accepted. -/
inductive Stage (before : Disk UInt8) (state : Receiving) (got : Bytes) : Prop
  | live (hlive : state.receiver.Live)
      (hfile : state.receiver.file = some { path := state.receiver.tempPath })
      (hhasher : state.receiver.hasher = got)
      (hreceived : state.receiver.received.toNat = got.length)
      (hsize : got.length ≤ state.receiver.size.toNat)
      (htemp : state.disk.files state.receiver.tempPath = some got)
      (hfinal : state.disk.files state.receiver.finalPath = before.files state.receiver.finalPath)
      (hwrites : state.disk.writesTo state.receiver.finalPath =
        before.writesTo state.receiver.finalPath)
  | done (hdone : state.receiver.done = true) (hfailed : state.receiver.failed = none)
      (htemp : state.disk.files state.receiver.tempPath = none)
      (hfinal : state.disk.files state.receiver.finalPath = some got)
      (hwrites : state.disk.writesTo state.receiver.finalPath =
        before.writesTo state.receiver.finalPath + 1)
  | failed (hdone : state.receiver.done = false) (hfailed : state.receiver.failed ≠ none)
      (htemp : state.disk.files state.receiver.tempPath = none)
      (hfinal : state.disk.files state.receiver.finalPath = before.files state.receiver.finalPath)
      (hwrites : state.disk.writesTo state.receiver.finalPath =
        before.writesTo state.receiver.finalPath)

/-- The promises of a receiver over a run of calls. -/
structure Integrity (before : Disk UInt8) (start : Receiving) (calls : List Call) : Prop where
  /-- While the transfer lives, the temp file is exactly the accepted chunks. -/
  temp : ∀ front, front <+: calls →
    let state := run (step sha256) start front
    state.receiver.Live →
      state.disk.files start.receiver.tempPath = some (start.accepted sha256 front) ∧
        (start.accepted sha256 front).length = state.receiver.received.toNat ∧
        (start.accepted sha256 front).length ≤ start.receiver.size.toNat
  /-- The final path is written at most once. -/
  once : (run (step sha256) start calls).disk.writesTo start.receiver.finalPath ≤
    before.writesTo start.receiver.finalPath + 1
  /-- Only a completion after all bytes and with their hash writes the final path. -/
  complete : ∀ front call back, calls = front ++ call :: back →
    let state := run (step sha256) start front
    let next := state.step sha256 call
    (next.disk.files start.receiver.finalPath = state.disk.files start.receiver.finalPath ∧
      next.disk.writesTo start.receiver.finalPath =
        state.disk.writesTo start.receiver.finalPath) ∨
      (state.receiver.Live ∧ state.receiver.received = start.receiver.size ∧
        call.msg = .fileComplete start.receiver.id (sha256 (start.accepted sha256 front)) ∧
        next.disk.files start.receiver.finalPath = some (start.accepted sha256 front))
  /-- A transfer that is done or failed changes nothing any more. -/
  frozen : ∀ front back, calls = front ++ back →
    ¬ (run (step sha256) start front).receiver.Live →
      run (step sha256) start calls = run (step sha256) start front
  /-- A failed transfer leaves no temp file and the final path as it was. -/
  failed : ∀ front, front <+: calls →
    let state := run (step sha256) start front
    state.receiver.failed ≠ none →
      state.disk.files start.receiver.tempPath = none ∧
        state.disk.files start.receiver.finalPath = before.files start.receiver.finalPath

/-! ## One step -/

/-- The parts of a receiver that never change. -/
def SameTransfer (first second : FileReceiver) : Prop :=
  second.id = first.id ∧ second.size = first.size ∧ second.tempPath = first.tempPath ∧
    second.finalPath = first.finalPath

/-- A call keeps the transfer. -/
theorem sameTransfer_step (state : Receiving) (call : Call) :
    SameTransfer state.receiver (state.step sha256 call).receiver := by
  obtain ⟨io, msg⟩ := call
  by_cases hlive : state.receiver.Live
  · have hhandled := FileReceiver.handled sha256 io state.disk msg hlive
    rw [step]
    generalize state.receiver.handle sha256 io state.disk msg = outcome at hhandled ⊢
    cases hhandled <;> exact ⟨rfl, rfl, rfl, rfl⟩
  · rw [step, FileReceiver.handle_of_not_live sha256 io state.disk msg hlive]
    exact ⟨rfl, rfl, rfl, rfl⟩

/-- A receiver that is done or has failed does nothing more. -/
theorem step_of_not_live (state : Receiving) (call : Call) (h : ¬ state.receiver.Live) :
    state.step sha256 call = state ∧ state.acceptedBytes sha256 call = [] := by
  rw [step, acceptedBytes, FileReceiver.handle_of_not_live sha256 call.io state.disk call.msg h]
  exact ⟨rfl, rfl⟩

/-- A chunk that fits is added to the temp file. -/
theorem Stage.absorb {before : Disk UInt8} {state : Receiving} {got : Bytes}
    (h : Stage before state got) (hlive : state.receiver.Live)
    (hne : state.receiver.tempPath ≠ state.receiver.finalPath) {data : Bytes}
    (hroom : got.length + data.length < 2 ^ 64)
    (hfits : (state.receiver.absorb data).received ≤ state.receiver.size) :
    Stage before
      { receiver := state.receiver.absorb data
        disk := state.disk.append state.receiver.tempPath data } (got ++ data) := by
  cases h with
  | done hdone => exact absurd hlive.1 (by simp [hdone])
  | failed hdone hfailed => exact absurd hlive.2 hfailed
  | live _ hfile hhasher hreceived hsize htemp hfinal hwrites =>
      have hcount : (state.receiver.absorb data).received.toNat = got.length + data.length := by
        rw [← hreceived]
        refine toNat_add_ofNat ?_
        rw [hreceived]
        exact hroom
      refine Stage.live hlive hfile ?_ ?_ ?_ ?_ ?_ ?_
      · rw [FileReceiver.absorb, hhasher]
      · rw [hcount, List.length_append]
      · rw [List.length_append, ← hcount]
        exact UInt64.le_iff_toNat_le.mp hfits
      · exact (Disk.files_append_self _ _ _).trans (by rw [htemp]; rfl)
      · exact (Disk.files_append_of_ne _ _ hne.symm).trans hfinal
      · exact (Disk.writesTo_append_of_ne _ _ hne.symm).trans hwrites

/-- An abort removes the temp file. -/
theorem Stage.abort {before : Disk UInt8} {state : Receiving} {got : Bytes}
    (h : Stage before state got) (hlive : state.receiver.Live)
    (hne : state.receiver.tempPath ≠ state.receiver.finalPath) {io : Io}
    (hremove : io.removeFile = none) (reason : String) :
    Stage before
      { receiver := state.receiver.abort reason
        disk := state.receiver.removeTemp io state.disk } got := by
  have hremoved : state.receiver.removeTemp io state.disk =
      state.disk.remove state.receiver.tempPath := by
    simp only [FileReceiver.removeTemp, hremove]
  rw [hremoved]
  cases h with
  | done hdone => exact absurd hlive.1 (by simp [hdone])
  | failed hdone hfailed => exact absurd hlive.2 hfailed
  | live _ _ _ _ _ _ hfinal hwrites =>
      refine Stage.failed hlive.1 (by simp [FileReceiver.abort]) ?_ ?_ ?_
      · exact Disk.files_remove_self _ _
      · exact (Disk.files_remove_of_ne _ hne.symm).trans hfinal
      · exact (Disk.writesTo_remove _ _ _).trans hwrites

/-- The temp file of a live transfer becomes the final one. -/
theorem Stage.save {before : Disk UInt8} {state : Receiving} {got : Bytes}
    (h : Stage before state got) (hlive : state.receiver.Live)
    (hne : state.receiver.tempPath ≠ state.receiver.finalPath) :
    Stage before
      { receiver := { state.receiver with file := none, done := true }
        disk := state.disk.rename state.receiver.tempPath state.receiver.finalPath } got := by
  cases h with
  | done hdone => exact absurd hlive.1 (by simp [hdone])
  | failed hdone hfailed => exact absurd hlive.2 hfailed
  | live _ _ _ _ _ htemp _ hwrites =>
      refine Stage.done rfl hlive.2 ?_ ?_ ?_
      · exact Disk.files_rename_source _ hne
      · exact Disk.files_rename_target _ htemp
      · exact (Disk.writesTo_rename_target _ _ _).trans (by rw [hwrites])

/-- A receiver that is alive has its temp file open. -/
theorem Stage.file {before : Disk UInt8} {state : Receiving} {got : Bytes}
    (h : Stage before state got) (hlive : state.receiver.Live) :
    state.receiver.file = some { path := state.receiver.tempPath } := by
  cases h with
  | done hdone => exact absurd hlive.1 (by simp [hdone])
  | failed hdone hfailed => exact absurd hlive.2 hfailed
  | live _ hfile => exact hfile

/-- A step keeps the stage, with the chunk that it accepts added. -/
theorem Stage.step {before : Disk UInt8} {state : Receiving} {got : Bytes} {call : Call}
    (hne : state.receiver.tempPath ≠ state.receiver.finalPath) (hio : call.io.Succeeds)
    (hroom : got.length + call.data.length < 2 ^ 64) (h : Stage before state got) :
    Stage before (state.step sha256 call) (got ++ state.acceptedBytes sha256 call) := by
  by_cases hlive : state.receiver.Live
  · obtain ⟨io, msg⟩ := call
    replace hio : io.Succeeds := hio
    have hfile := h.file hlive
    have haborted := fun reason => (h.abort hlive hne hio.removeFile reason)
    have hhandled := FileReceiver.handled sha256 io state.disk msg hlive
    simp only [Receiving.step, acceptedBytes]
    rw [← List.append_nil got] at haborted
    generalize state.receiver.handle sha256 io state.disk msg = outcome at hhandled ⊢
    cases hhandled with
    | ignored =>
        rw [List.append_nil]
        exact h
    | @written offset data file horder hopen _ =>
        have hpath : file.path = state.receiver.tempPath := by
          rw [hfile] at hopen
          rw [← Option.some.inj hopen]
        show Stage before
          { receiver := state.receiver.absorb data
            disk := state.disk.append file.path data } (got ++ data)
        rw [hpath]
        exact h.absorb hlive hne hroom (UInt64.not_lt.mp (not_or.mp horder).2)
    | outOfOrder => exact haborted _
    | closed _ hclosed => exact absurd (hfile.symm.trans hclosed) (by simp)
    | writeFailed _ _ hfault => exact absurd (hio.writeAll.symm.trans hfault) (by simp)
    | tooEarly => exact haborted _
    | mismatch => exact haborted _
    | notSaved _ _ hfault =>
        simp [FileReceiver.closeFile, hfile, hio.flush, hio.syncAll, hio.rename] at hfault
    | saved =>
        rw [List.append_nil]
        exact h.save hlive hne
    | cancelled => exact haborted _
  · obtain ⟨hstep, haccepted⟩ := step_of_not_live sha256 state call hlive
    rw [hstep, haccepted, List.append_nil]
    exact h

/-- A step that touches the final path is a completion with the right hash. -/
theorem step_finalPath {before : Disk UInt8} {state : Receiving} {got : Bytes} (call : Call)
    (hne : state.receiver.tempPath ≠ state.receiver.finalPath) (hio : call.io.Succeeds)
    (h : Stage before state got) :
    ((state.step sha256 call).disk.files state.receiver.finalPath =
          state.disk.files state.receiver.finalPath ∧
        (state.step sha256 call).disk.writesTo state.receiver.finalPath =
          state.disk.writesTo state.receiver.finalPath) ∨
      (state.receiver.Live ∧ state.receiver.received = state.receiver.size ∧
        call.msg = .fileComplete state.receiver.id (sha256 got) ∧
        (state.step sha256 call).disk.files state.receiver.finalPath = some got) := by
  by_cases hlive : state.receiver.Live
  · obtain ⟨io, msg⟩ := call
    replace hio : io.Succeeds := hio
    cases h with
    | done hdone => exact absurd hlive.1 (by simp [hdone])
    | failed hdone hfailed => exact absurd hlive.2 hfailed
    | live _ hfile hhasher _ _ htemp _ _ =>
        have hhandled := FileReceiver.handled sha256 io state.disk msg hlive
        have hkept :
            (state.receiver.removeTemp io state.disk).files state.receiver.finalPath =
                state.disk.files state.receiver.finalPath ∧
              (state.receiver.removeTemp io state.disk).writesTo state.receiver.finalPath =
                state.disk.writesTo state.receiver.finalPath := by
          simp only [FileReceiver.removeTemp, hio.removeFile]
          exact ⟨Disk.files_remove_of_ne _ hne.symm, Disk.writesTo_remove _ _ _⟩
        simp only [Receiving.step]
        generalize state.receiver.handle sha256 io state.disk msg = outcome at hhandled ⊢
        cases hhandled with
        | ignored => exact Or.inl ⟨rfl, rfl⟩
        | written _ hopen =>
            rw [hfile] at hopen
            rw [← Option.some.inj hopen]
            exact Or.inl ⟨Disk.files_append_of_ne _ _ hne.symm,
              Disk.writesTo_append_of_ne _ _ hne.symm⟩
        | outOfOrder => exact Or.inl hkept
        | closed => exact Or.inl ⟨rfl, rfl⟩
        | writeFailed _ _ hfault => exact absurd (hio.writeAll.symm.trans hfault) (by simp)
        | tooEarly => exact Or.inl hkept
        | mismatch => exact Or.inl hkept
        | notSaved => exact Or.inl ⟨rfl, rfl⟩
        | saved hreceived hhash =>
            refine Or.inr ⟨hlive, hreceived, ?_, Disk.files_rename_target _ htemp⟩
            rw [← hhash, hhasher]
        | cancelled => exact Or.inl hkept
  · rw [(step_of_not_live sha256 state call hlive).1]
    exact Or.inl ⟨rfl, rfl⟩

/-! ## Whole runs -/

/-- How many bytes arrive in a run. -/
def totalBytes (calls : List Call) : ℕ := (calls.map fun call => call.data.length).sum

/-- The bytes of two lists of calls. -/
theorem totalBytes_append (first second : List Call) :
    totalBytes (first ++ second) = totalBytes first + totalBytes second := by
  simp [totalBytes]

/-- A call accepts at most its own bytes. -/
theorem length_acceptedBytes_le (state : Receiving) (call : Call) :
    (state.acceptedBytes sha256 call).length ≤ call.data.length := by
  rw [acceptedBytes]
  split
  · exact le_rfl
  · exact Nat.zero_le _

/-- A run accepts at most the bytes of its calls. -/
theorem length_accepted_le (state : Receiving) (calls : List Call) :
    (state.accepted sha256 calls).length ≤ totalBytes calls := by
  induction calls generalizing state with
  | nil => exact le_rfl
  | cons call calls ih =>
      have hfirst := length_acceptedBytes_le sha256 state call
      have hlater := ih (state.step sha256 call)
      rw [accepted, List.length_append]
      simp only [totalBytes, List.map_cons, List.sum_cons] at hlater ⊢
      omega

/-- A run keeps the transfer. -/
theorem sameTransfer_run (start : Receiving) (calls : List Call) :
    SameTransfer start.receiver (run (step sha256) start calls).receiver := by
  refine invariant_of_step (step sha256)
    (fun state => SameTransfer start.receiver state.receiver) ?_ ⟨rfl, rfl, rfl, rfl⟩ calls
  intro state call hsame
  obtain ⟨hid, hsize, htemp, hfinal⟩ := sameTransfer_step sha256 state call
  exact ⟨hid.trans hsame.1, hsize.trans hsame.2.1, htemp.trans hsame.2.2.1,
    hfinal.trans hsame.2.2.2⟩

/-- The stage is kept by whole runs. -/
theorem stage_run {before : Disk UInt8} {start : Receiving} (hstart : Stage before start [])
    (hne : start.receiver.tempPath ≠ start.receiver.finalPath) (calls : List Call)
    (hio : ∀ call ∈ calls, call.io.Succeeds) (hbytes : totalBytes calls < 2 ^ 64) :
    Stage before (run (step sha256) start calls) (start.accepted sha256 calls) := by
  induction calls using List.reverseRecOn with
  | nil => exact hstart
  | append_singleton calls call ih =>
      rw [totalBytes_append] at hbytes
      have hone : totalBytes [call] = call.data.length := by simp [totalBytes]
      have hgot := length_accepted_le sha256 start calls
      have hbefore := ih (fun other hmem => hio other (List.mem_append_left _ hmem))
        (by omega)
      obtain ⟨-, -, htemp, hfinal⟩ := sameTransfer_run sha256 start calls
      rw [run_append_singleton, accepted_append, accepted, accepted, List.append_nil]
      refine hbefore.step sha256 ?_ (hio call (by simp)) (by omega)
      rw [htemp, hfinal]
      exact hne

/-- A receiver that is done or has failed stays so. -/
theorem run_of_not_live (state : Receiving) (calls : List Call) (h : ¬ state.receiver.Live) :
    run (step sha256) state calls = state := by
  induction calls with
  | nil => rfl
  | cons call calls ih => rw [run_cons, (step_of_not_live sha256 state call h).1, ih]

/-- The receiver of an accepted offer, with the disk that it created its temp file
on, starts in a live stage. -/
theorem stage_accept {io : Io} {before disk : Disk UInt8} {dir : Path} {id : UInt32}
    {name : String} {size : UInt64} {receiver : FileReceiver} {reply : Message}
    (haccept : FileReceiver.accept io before dir id name size = (.ok (receiver, reply), disk)) :
    receiver.tempPath ≠ receiver.finalPath ∧ Stage before ⟨receiver, disk⟩ [] := by
  obtain ⟨rfl, -, rfl⟩ := FileReceiver.accept_ok haccept
  have hne := FileReceiver.tempPath_ne_finalPath dir id name size
  refine ⟨hne, Stage.live ⟨rfl, rfl⟩ rfl rfl rfl (Nat.zero_le _) ?_ ?_ ?_⟩
  · exact Disk.files_create_self _ _
  · exact Disk.files_create_of_ne _ hne.symm
  · exact Disk.writesTo_create_of_ne _ hne.symm

/-- Whatever a peer sends to a receiver that accepted its offer, while the calls of
the file system succeed and fewer than 2^64 bytes arrive, the promises hold. -/
theorem receiver_integrity {io : Io} {before disk : Disk UInt8} {dir : Path} {id : UInt32}
    {name : String} {size : UInt64} {receiver : FileReceiver} {reply : Message}
    (haccept : FileReceiver.accept io before dir id name size = (.ok (receiver, reply), disk))
    (calls : List Call) (hio : ∀ call ∈ calls, call.io.Succeeds)
    (hbytes : totalBytes calls < 2 ^ 64) :
    Integrity sha256 before ⟨receiver, disk⟩ calls := by
  obtain ⟨hne, hstart⟩ := stage_accept haccept
  have hstage : ∀ front back, calls = front ++ back →
      Stage before (run (step sha256) ⟨receiver, disk⟩ front)
        (accepted sha256 ⟨receiver, disk⟩ front) := by
    intro front back hsplit
    rw [hsplit, totalBytes_append] at hbytes
    refine stage_run sha256 hstart hne front (fun call hmem => hio call ?_) (by omega)
    rw [hsplit]
    exact List.mem_append_left _ hmem
  have hsame := sameTransfer_run sha256 ⟨receiver, disk⟩
  constructor
  · rintro front ⟨back, hsplit⟩ state hlive
    obtain ⟨-, hsize, htemp, -⟩ := hsame front
    cases hstage front back hsplit.symm with
    | live _ _ _ hreceived hbound hcontent _ _ =>
        rw [htemp] at hcontent
        rw [hsize] at hbound
        exact ⟨hcontent, hreceived.symm, hbound⟩
    | done hdone => exact absurd hlive.1 (by simp [state, hdone])
    | failed _ hfailed => exact absurd hlive.2 hfailed
  · obtain ⟨-, -, -, hfinal⟩ := hsame calls
    cases hstage calls [] (by simp) with
    | live _ _ _ _ _ _ _ hwrites => rw [hfinal] at hwrites; omega
    | done _ _ _ _ hwrites => rw [hfinal] at hwrites; omega
    | failed _ _ _ _ hwrites => rw [hfinal] at hwrites; omega
  · intro front call back hsplit state next
    obtain ⟨hid, hsize, htemp, hfinal⟩ := hsame front
    have hcall : call.io.Succeeds := hio call (by simp [hsplit])
    have hstep := step_finalPath sha256 call (by rw [htemp, hfinal]; exact hne) hcall
      (hstage front (call :: back) hsplit)
    rw [hid, hsize, hfinal] at hstep
    exact hstep
  · intro front back hsplit hended
    rw [hsplit, run_append, run_of_not_live sha256 _ back hended]
  · rintro front ⟨back, hsplit⟩ state hfailed
    obtain ⟨-, -, htemp, hfinal⟩ := hsame front
    cases hstage front back hsplit.symm with
    | live hlive => exact absurd hlive.2 hfailed
    | done _ hnone => exact absurd hnone hfailed
    | failed _ _ hgone hkept _ =>
        rw [htemp] at hgone
        rw [hfinal] at hkept
        exact ⟨hgone, hkept⟩

/-- A file of four bytes, sent in two chunks and completed. -/
def fourBytes : List Call :=
  [⟨quietIo, .fileChunk 9 0 [0x61, 0x62]⟩, ⟨quietIo, .fileChunk 9 2 [0x63, 0x64]⟩,
    ⟨quietIo, .fileComplete 9 (sampleSha256 [0x61, 0x62, 0x63, 0x64])⟩]

/-- Four bytes that are received and saved. -/
theorem receiver_integrity_fourBytes :
    Integrity sampleSha256 { files := fun _ => none }
      ⟨FileReceiver.ofOffer ["in"] 9 "a.bin" 4,
        Disk.create { files := fun _ => none }
          (FileReceiver.ofOffer ["in"] 9 "a.bin" 4).tempPath⟩ fourBytes :=
  receiver_integrity sampleSha256
    (rfl : FileReceiver.accept quietIo { files := fun _ => none } ["in"] 9 "a.bin" 4 = _) fourBytes
    (by
      intro call hcall
      simp only [fourBytes, List.mem_cons, List.not_mem_nil, or_false] at hcall
      rcases hcall with rfl | rfl | rfl <;> exact quietIo_succeeds)
    (by decide)

end Receiving

end OmarchyConnect.Protocol
