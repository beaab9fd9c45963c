/-
# The two ends of a session

At either end a file is queued now and then and a message of the peer arrives now
and then. A host end and a client end take the same events, and a client end seen
without what only the client keeps is a host end.
-/

import OmarchyConnect.Client.Transfers
import OmarchyConnect.Library.Runs

namespace OmarchyConnect.System

open OmarchyConnect.Library.Wire OmarchyConnect.Library.Files OmarchyConnect.Library.Runs
open OmarchyConnect.Protocol OmarchyConnect.Host OmarchyConnect.Client

/-- What happens at an end: a file is sent under a new id, or a message arrives.
Both come with the answers of the operating system. -/
inductive Event
  | send (io : Io) (id : UInt32) (path : Path)
  | message (io : Io) (msg : Message)

/-- The host's slots and its disk. -/
structure HostEnd where
  xfer : Transfers := {}
  disk : Disk UInt8

/-- The client's slots and its disk. -/
structure ClientEnd where
  live : Live := {}
  disk : Disk UInt8

variable (sha256 : Bytes → Digest) (downloadDir : Path)

/-- The host offers its file while no other file is going out. -/
def HostEnd.step (state : HostEnd) : Event → HostEnd
  | .send io id path =>
      match state.xfer.outgoing with
      | some _ => state
      | none => { state with xfer := (offerFile sha256 io state.xfer id path).2 }
  | .message io msg =>
      let outcome := takeFileReplies sha256 io state.xfer state.disk downloadDir msg
      { xfer := outcome.2.1, disk := outcome.2.2 }

/-- An event at the client's end. -/
def ClientEnd.step (state : ClientEnd) : Event → ClientEnd
  | .send io id path => { state with live := (queueSend sha256 io state.live id path).2 }
  | .message io msg =>
      let outcome := takeFile sha256 io state.live state.disk downloadDir msg
      { live := outcome.2.1, disk := outcome.2.2 }

/-- A client end without what only the client keeps. -/
def ClientEnd.asHost (state : ClientEnd) : HostEnd :=
  { xfer := state.live.transfers, disk := state.disk }

/-- The two ends go in step. -/
theorem asHost_step (state : ClientEnd) (event : Event) :
    (state.step sha256 downloadDir event).asHost =
      state.asHost.step sha256 downloadDir event := by
  cases event with
  | send io id path =>
      cases hout : state.live.outgoing with
      | some sender => simp [ClientEnd.step, HostEnd.step, queueSend, hout, ClientEnd.asHost,
          Live.transfers]
      | none =>
          have hqueue := queueSend_eq sha256 io hout id path
          have hslot : state.asHost.xfer.outgoing = none := hout
          simp only [HostEnd.step, hslot]
          simp only [ClientEnd.step, ClientEnd.asHost, hqueue]
  | message io msg =>
      have htake := takeFile_eq sha256 io state.live state.disk downloadDir msg
      have hslots := congrArg (fun outcome => outcome.2.1) htake
      have hdisk := congrArg (fun outcome => outcome.2.2) htake
      simp only [Taken.dispatched] at hslots hdisk
      simp only [ClientEnd.step, HostEnd.step, ClientEnd.asHost, hslots, hdisk]

/-- Queueing a file leaves the incoming slot and the disk alone. -/
theorem HostEnd.step_send (state : HostEnd) (io : Io) (id : UInt32) (path : Path) :
    (state.step sha256 downloadDir (.send io id path)).xfer.incoming = state.xfer.incoming ∧
      (state.step sha256 downloadDir (.send io id path)).disk = state.disk := by
  simp only [HostEnd.step]
  split
  · exact ⟨rfl, rfl⟩
  · rw [offerFile]
    split
    · exact ⟨rfl, rfl⟩
    · split <;> exact ⟨rfl, rfl⟩

end OmarchyConnect.System
