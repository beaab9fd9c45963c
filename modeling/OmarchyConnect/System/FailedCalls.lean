/-
# Transfers whose call failed

The dispatchers of both ends answer an error of a transfer by emptying its slot. They
do so in match arms for `on_peer`, `handle` and `accept`; an error of `poll` leaves by
`?` and skips that, so the sender stays in its slot. `releases_iff` says that nothing
else keeps a transfer that failed.
-/

import OmarchyConnect.Protocol.LostChunks
import OmarchyConnect.System.Ends

namespace OmarchyConnect.System

open OmarchyConnect.Library.Wire OmarchyConnect.Library.Files
open OmarchyConnect.Protocol OmarchyConnect.Host OmarchyConnect.Client

/-- The slot of a transfer. -/
inductive Slot
  | outgoing
  | incoming
  deriving DecidableEq

variable (sha256 : Bytes → Digest)

/-- A call of a transfer fails while the message is dispatched: its slot is given. -/
inductive CallFails (io : Io) (xfer : Transfers) (disk : Disk UInt8) (downloadDir : Path) :
    Message → Slot → Prop
  | onPeer {msg : Message} {sender failed : FileSender} {err : FileTransferError}
      (hout : xfer.outgoing = some sender) (hpeer : sender.onPeer msg = (.error err, failed)) :
      CallFails io xfer disk downloadDir msg .outgoing
  | poll {msg : Message} {sender taken next : FileSender} {err : FileTransferError}
      (hout : xfer.outgoing = some sender) (hpeer : sender.onPeer msg = (.ok true, taken))
      (hpoll : taken.poll sha256 io = (.error err, next)) :
      CallFails io xfer disk downloadDir msg .outgoing
  | accept {id : UInt32} {name : String} {size : UInt64} {err : FileTransferError}
      {after : Disk UInt8} (hin : xfer.incoming = none)
      (haccept : FileReceiver.accept io disk downloadDir id name size = (.error err, after)) :
      CallFails io xfer disk downloadDir (.fileOffer id name size) .incoming
  | handle {msg : Message} {receiver next : FileReceiver} {err : FileTransferError}
      {after : Disk UInt8} (hpass : xfer.PassesSender msg)
      (hoffer : ∀ id name size, msg ≠ .fileOffer id name size)
      (hin : xfer.incoming = some receiver)
      (hhandle : receiver.handle sha256 io disk msg = (.error err, next, after)) :
      CallFails io xfer disk downloadDir msg .incoming

/-- The slot is empty and the other one is as it was. -/
def Released (before after : Transfers) : Slot → Prop
  | .outgoing => after.outgoing = none ∧ after.incoming = before.incoming
  | .incoming => after.incoming = none ∧ after.outgoing = before.outgoing

/-- When the dispatcher returns an error, a call of a transfer failed, and the slot of
that transfer is released. -/
def ReleasesFailed (io : Io) (before : Transfers) (disk : Disk UInt8) (downloadDir : Path)
    (msg : Message) (result : Except FileTransferError (List Message)) (after : Transfers) :
    Prop :=
  ∀ err, result = .error err →
    (∃ slot, CallFails sha256 io before disk downloadDir msg slot) ∧
      ∀ slot, CallFails sha256 io before disk downloadDir msg slot → Released before after slot

/-- The sender takes the message, comes to its send loop, and a read fails there. -/
def ReadFails (io : Io) (xfer : Transfers) (msg : Message) : Prop :=
  ∃ sender ∈ xfer.outgoing, ∃ taken, sender.onPeer msg = (.ok true, taken) ∧
    taken.Sending ∧ FileSender.Unanswered io taken.file taken.plan

variable {sha256} {io : Io} {xfer : Transfers} {disk : Disk UInt8} {downloadDir : Path}
  {msg : Message}

/-- What a sender takes fails in no other slot. -/
theorem CallFails.eq_outgoing {sender : FileSender} {result : Except FileTransferError Bool}
    {next : FileSender} (hout : xfer.outgoing = some sender)
    (hpeer : sender.onPeer msg = (result, next)) (hmine : result ≠ .ok false) {slot : Slot}
    (h : CallFails sha256 io xfer disk downloadDir msg slot) : slot = .outgoing := by
  have hmsg := FileSender.forSender_of_onPeer hpeer hmine
  cases h with
  | onPeer => rfl
  | poll => rfl
  | accept => cases hmsg
  | handle hpass => exact absurd hmsg (hpass sender hout)

/-- What no sender takes fails in no slot of a sender. -/
theorem CallFails.eq_incoming (hpass : xfer.PassesSender msg) {slot : Slot}
    (h : CallFails sha256 io xfer disk downloadDir msg slot) : slot = .incoming := by
  cases h with
  | @onPeer _ sender _ _ hout hpeer =>
      exact absurd (FileSender.forSender_of_onPeer hpeer (by simp)) (hpass sender hout)
  | @poll _ sender _ _ _ hout hpeer =>
      exact absurd (FileSender.forSender_of_onPeer hpeer (by simp)) (hpass sender hout)
  | accept => rfl
  | handle => rfl

/-- An offer is for no sender. -/
theorem passesSender_offer (xfer : Transfers) (id : UInt32) (name : String) (size : UInt64) :
    xfer.PassesSender (.fileOffer id name size) := by
  intro sender _ hmsg
  cases hmsg

/-- Nothing but a read that fails keeps a transfer that failed in its slot. -/
theorem releasesFailed_dispatch_iff {outcome : Dispatched}
    (h : Dispatch sha256 io xfer disk downloadDir msg outcome) :
    ReleasesFailed sha256 io xfer disk downloadDir msg outcome.1 outcome.2.1 ↔
      ¬ ReadFails io xfer msg := by
  -- A sender that takes the message has no other way to fail.
  have hreads : ∀ {sender taken : FileSender}, xfer.outgoing = some sender →
      sender.onPeer msg = (.ok true, taken) →
        (ReadFails io xfer msg ↔ ∃ err, (taken.poll sha256 io).1 = .error err) := by
    intro sender taken hout hpeer
    rw [FileSender.poll_error_iff]
    constructor
    · rintro ⟨other, hother, result, hresult, hfails⟩
      obtain rfl := Option.some.inj (hout.symm.trans hother)
      obtain ⟨-, rfl⟩ := Prod.mk.inj (hpeer.symm.trans hresult)
      exact hfails
    · exact fun hfails => ⟨sender, hout, taken, hpeer, hfails⟩
  have hpassed : xfer.PassesSender msg → ¬ ReadFails io xfer msg := by
    rintro hpass ⟨sender, hout, taken, hpeer, -⟩
    exact hpass sender hout (FileSender.forSender_of_onPeer hpeer (by simp))
  cases h with
  | polled hout htaken hpoll =>
      refine iff_of_true (by rintro err ⟨⟩) ?_
      rw [hreads hout htaken.eq, hpoll]
      simp
  | pollFailed hout htaken hpoll =>
      refine iff_of_false (fun hall => ?_) (not_not.mpr ?_)
      · have hempty := ((hall _ rfl).2 _ (.poll hout htaken.eq hpoll)).1
        cases hempty
      · rw [hreads hout htaken.eq, hpoll]
        exact ⟨_, rfl⟩
  | senderFailed hout htaken =>
      refine iff_of_true (fun err _ => ⟨⟨_, .onPeer hout htaken.eq⟩, fun slot hslot => ?_⟩) ?_
      · rw [hslot.eq_outgoing hout htaken.eq (by simp)]
        exact ⟨rfl, rfl⟩
      · rintro ⟨other, hother, taken, hpeer, -⟩
        obtain rfl := Option.some.inj (hout.symm.trans hother)
        cases htaken.eq.symm.trans hpeer
  | busy => exact iff_of_true (by rintro err ⟨⟩) (hpassed (passesSender_offer xfer _ _ _))
  | @notAccepted id name size _ _ hin haccept =>
      have hpass := passesSender_offer xfer id name size
      refine iff_of_true (fun err _ => ⟨⟨_, .accept hin haccept⟩, fun slot hslot => ?_⟩)
        (hpassed hpass)
      rw [hslot.eq_incoming hpass]
      exact ⟨hin, rfl⟩
  | accepted => exact iff_of_true (by rintro err ⟨⟩) (hpassed (passesSender_offer xfer _ _ _))
  | idle hpass => exact iff_of_true (by rintro err ⟨⟩) (hpassed hpass)
  | handled hpass => exact iff_of_true (by rintro err ⟨⟩) (hpassed hpass)
  | handleFailed hpass hoffer hin hhandle =>
      refine iff_of_true
        (fun err _ => ⟨⟨_, .handle hpass hoffer hin hhandle⟩, fun slot hslot => ?_⟩) (hpassed hpass)
      rw [hslot.eq_incoming hpass]
      exact ⟨rfl, rfl⟩

/-- At either end, an error releases the slot of the transfer that failed and leaves the
other one alone, just when it is not a read of the sender that failed. -/
theorem releases_iff (sha256 : Bytes → Digest) (io : Io) (disk : Disk UInt8) (downloadDir : Path)
    (msg : Message) :
    (∀ xfer : Transfers,
      ReleasesFailed sha256 io xfer disk downloadDir msg
          (takeFileReplies sha256 io xfer disk downloadDir msg).1
          (takeFileReplies sha256 io xfer disk downloadDir msg).2.1 ↔
        ¬ ReadFails io xfer msg) ∧
    ∀ live : Live,
      ReleasesFailed sha256 io live.transfers disk downloadDir msg
          (takeFile sha256 io live disk downloadDir msg).1
          (takeFile sha256 io live disk downloadDir msg).2.1.transfers ↔
        ¬ ReadFails io live.transfers msg := by
  have hhost := fun xfer : Transfers =>
    releasesFailed_dispatch_iff (dispatch sha256 io xfer disk downloadDir msg)
  refine ⟨hhost, fun live => ?_⟩
  have hclient := takeFile_eq sha256 io live disk downloadDir msg
  have hresult := congrArg (fun outcome => outcome.1) hclient
  have hslots := congrArg (fun outcome => outcome.2.1) hclient
  simp only [Taken.dispatched] at hresult hslots
  rw [hresult, hslots]
  exact hhost live.transfers

/-- A system whose files cannot be read any more. -/
def unreadable : Io :=
  { quietIo with readAt := fun _ _ _ => .error ⟨"failed to fill whole buffer"⟩ }

/-- The sender of a file of four bytes that was offered. -/
def offeredSender : FileSender where
  id := 9
  name := "a.bin"
  size := 4
  file := { path := ["a.bin"] }
  offered := true

/-- The client accepts, the file cannot be read, and the sender stays in its slot. -/
theorem unreadable_keeps_sender :
    ¬ ReleasesFailed sampleSha256 unreadable { outgoing := some offeredSender }
      { files := fun _ => none } ["in"] (.fileAccept 9)
      (takeFileReplies sampleSha256 unreadable { outgoing := some offeredSender }
        { files := fun _ => none } ["in"] (.fileAccept 9)).1
      (takeFileReplies sampleSha256 unreadable { outgoing := some offeredSender }
        { files := fun _ => none } ["in"] (.fileAccept 9)).2.1 := by
  have hstep := dispatch sampleSha256 unreadable { outgoing := some offeredSender }
    { files := fun _ => none } ["in"] (.fileAccept 9)
  rw [releasesFailed_dispatch_iff hstep, not_not]
  have hplan : ({ offeredSender with accepted := true } : FileSender).plan = [(0, 4)] := by
    decide +kernel
  refine ⟨offeredSender, rfl, { offeredSender with accepted := true }, rfl, by decide, ?_⟩
  rw [hplan]
  exact ⟨0, 4, _, List.mem_cons_self, rfl⟩

end OmarchyConnect.System
