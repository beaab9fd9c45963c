/-
# The messages that a transfer sends

A sender and a receiver send messages about files and no others. Whoever looks for messages
of another kind finds none among them.
-/

import OmarchyConnect.Protocol.Receiving
import OmarchyConnect.Protocol.Sending

namespace OmarchyConnect.Protocol

open OmarchyConnect.Library.Wire OmarchyConnect.Library.Files

/-- The messages that a transfer takes part in. -/
def isFile : Message → Bool
  | .fileOffer _ _ _ => true
  | .fileAccept _ => true
  | .fileChunk _ _ _ => true
  | .fileAck _ _ => true
  | .fileComplete _ _ => true
  | .fileCancel _ _ => true
  | _ => false

/-- All of the messages are about files. -/
def OnlyFiles (msgs : List Message) : Prop := ∀ msg ∈ msgs, isFile msg = true

/-- No messages at all are about files only. -/
theorem onlyFiles_nil : OnlyFiles [] := fun _ h => nomatch h

/-- One message about a file. -/
theorem onlyFiles_singleton {msg : Message} (h : isFile msg = true) : OnlyFiles [msg] :=
  fun _ hmem => List.mem_singleton.mp hmem ▸ h

/-- Messages about files stay so when more of them follow. -/
theorem OnlyFiles.append {first second : List Message} (hfirst : OnlyFiles first)
    (hsecond : OnlyFiles second) : OnlyFiles (first ++ second) :=
  fun msg hmem => (List.mem_append.mp hmem).elim (hfirst msg) (hsecond msg)

/-- Nothing else is among them. -/
theorem OnlyFiles.filterMap_eq_nil {α : Type} {view : Message → Option α} {msgs : List Message}
    (h : OnlyFiles msgs) (hview : ∀ msg, isFile msg = true → view msg = none) :
    msgs.filterMap view = [] :=
  List.filterMap_eq_nil_iff.mpr fun msg hmem => hview msg (h msg hmem)

/-- The loop of the sender adds chunks to what was there. -/
theorem onlyFiles_sendChunks (io : Io) (sender : FileSender) (out : List Message)
    (hout : OnlyFiles out) {msgs : List Message}
    (h : (sender.sendChunks io out).1 = .ok msgs) : OnlyFiles msgs := by
  induction sender, out using FileSender.sendChunks.induct io with
  | case1 sender out hcan err hread =>
      rw [FileSender.sendChunks, dif_pos hcan, hread] at h
      cases h
  | case2 sender out hcan data hread _ ih =>
      rw [FileSender.sendChunks, dif_pos hcan, hread] at h
      exact ih (hout.append (onlyFiles_singleton rfl)) h
  | case3 sender out hcan =>
      rw [FileSender.sendChunks, dif_neg hcan] at h
      cases h
      exact hout

variable (sha256 : Bytes → Digest)

/-- A poll returns an offer, chunks or a hash. -/
theorem onlyFiles_poll (io : Io) {sender : FileSender} {msgs : List Message}
    (h : (sender.poll sha256 io).1 = .ok msgs) : OnlyFiles msgs := by
  have hturn := FileSender.turn sha256 io sender
  have hchunks := fun out => @onlyFiles_sendChunks io sender [] onlyFiles_nil out
  generalize sender.poll sha256 io = result at h hturn
  cases hturn with
  | idle =>
      cases h
      exact onlyFiles_nil
  | offered =>
      cases h
      exact onlyFiles_singleton rfl
  | emptyFile =>
      cases h
      exact onlyFiles_singleton rfl
  | broken => cases h
  | chunks _ hloop =>
      cases h
      exact hchunks msgs (by rw [hloop])
  | completed _ hloop =>
      cases h
      exact (hchunks _ (by rw [hloop])).append (onlyFiles_singleton rfl)

/-- A receiver answers with an ack, a cancel or its own hash. -/
theorem onlyFiles_handle (io : Io) {receiver : FileReceiver} (disk : Disk UInt8) (msg : Message)
    {msgs : List Message} (h : (receiver.handle sha256 io disk msg).1 = .ok msgs) :
    OnlyFiles msgs := by
  by_cases hlive : receiver.Live
  · have hhandled := FileReceiver.handled sha256 io disk msg hlive
    generalize receiver.handle sha256 io disk msg = result at h hhandled
    cases hhandled with
    | ignored =>
        cases h
        exact onlyFiles_nil
    | written | outOfOrder | tooEarly | saved =>
        cases h
        exact onlyFiles_singleton rfl
    | _ => cases h
  · rw [FileReceiver.handle_of_not_live sha256 io disk msg hlive] at h
    cases h
    exact onlyFiles_nil

end OmarchyConnect.Protocol
