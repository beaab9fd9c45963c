/-
# Dead transfers in the incoming slot

The dispatchers empty the incoming slot when the receiver is done and when `handle`
returns an error. A receiver that cancels on its own returns its `FileCancel` as an
ordinary reply, so it stays in the slot though it has failed, and every later offer
is refused. `slots_usable_iff` says that this is the only way to lose the slot.
-/

import OmarchyConnect.System.Ends

namespace OmarchyConnect.System

open OmarchyConnect.Library.Wire OmarchyConnect.Library.Files OmarchyConnect.Library.Runs
open OmarchyConnect.Protocol OmarchyConnect.Host OmarchyConnect.Client

variable (sha256 : Bytes → Digest) (downloadDir : Path)

/-- The message reaches the receiver in the slot and makes it cancel on its own. -/
def Cancels (xfer : Transfers) (msg : Message) : Prop :=
  ∃ receiver ∈ xfer.incoming, receiver.Live ∧ xfer.PassesSender msg ∧ receiver.CancelsOn msg

/-- An occupied incoming slot holds a transfer that goes on. -/
def SlotLive (xfer : Transfers) : Prop := ∀ receiver ∈ xfer.incoming, receiver.Live

/-- Nothing but a receiver that cancels on its own leaves a dead receiver behind. -/
theorem slotLive_dispatch_iff {io : Io} {xfer : Transfers} {disk : Disk UInt8} {msg : Message}
    {outcome : Dispatched} (h : Dispatch sha256 io xfer disk downloadDir msg outcome)
    (hlive : SlotLive xfer) : SlotLive outcome.2.1 ↔ ¬ Cancels xfer msg := by
  -- A message that the sender takes does not reach the receiver.
  have htaken : ∀ {sender next : FileSender} {result : Except FileTransferError Bool},
      xfer.outgoing = some sender → sender.Taken msg (result, next) → result ≠ .ok false →
        ¬ Cancels xfer msg := by
    rintro sender next result hout htaken hresult ⟨receiver, -, -, hpass, -⟩
    exact hpass sender hout (htaken.forSender hresult)
  cases h with
  | polled hout hsender => exact iff_of_true hlive (htaken hout hsender (by simp))
  | pollFailed hout hsender => exact iff_of_true hlive (htaken hout hsender (by simp))
  | senderFailed hout hsender => exact iff_of_true hlive (htaken hout hsender (by simp))
  | busy => exact iff_of_true hlive (by simp [Cancels, FileReceiver.CancelsOn])
  | notAccepted => exact iff_of_true hlive (by simp [Cancels, FileReceiver.CancelsOn])
  | accepted _ haccept =>
      obtain ⟨rfl, -, -⟩ := FileReceiver.accept_ok haccept
      refine iff_of_true ?_ (by simp [Cancels, FileReceiver.CancelsOn])
      intro receiver hreceiver
      obtain rfl := Option.some.inj hreceiver
      exact ⟨rfl, rfl⟩
  | idle _ _ hin => exact iff_of_true hlive (by simp [Cancels, hin])
  | @handled _ receiver next more after hpass _ hin hhandle =>
      have hreceiver := hlive receiver hin
      rcases FileReceiver.handle_ok sha256 hreceiver hhandle with
        ⟨hnext, hcancel⟩ | ⟨hdone, hfailed, hcancel, -⟩
      · refine iff_of_true ?_ ?_
        · intro other hother
          rcases hnext with hgoes | ⟨hdone, -⟩
          · obtain rfl : next = other := by
              simpa [FileReceiver.isComplete, hgoes.1] using hother
            exact hgoes
          · simp [FileReceiver.isComplete, hdone] at hother
        · rintro ⟨other, hother, -, -, hdies⟩
          rw [← Option.some.inj (hin.symm.trans hother)] at hdies
          exact hcancel hdies
      · refine iff_of_false ?_ (not_not.mpr ⟨receiver, hin, hreceiver, hpass, hcancel⟩)
        intro hslot
        exact hfailed (hslot next (by simp [FileReceiver.isComplete, hdone])).2
  | @handleFailed _ receiver next err after hpass _ hin hhandle =>
      refine iff_of_true (by simp [SlotLive]) ?_
      rintro ⟨other, hother, hreceiver, -, hdies⟩
      obtain rfl := Option.some.inj (hin.symm.trans hother)
      exact FileReceiver.not_cancelsOn_of_error sha256 hreceiver hhandle hdies

/-! ## Runs of both ends -/

/-- The incoming slot is not held by a transfer that is done or failed; and once no
transfer is going on, an offer is accepted while the file system works. -/
def SlotUsable (xfer : Transfers)
    (answer : Io → Message → Except FileTransferError (List Message)) :
    Prop :=
  (∀ receiver ∈ xfer.incoming, receiver.Live) ∧
    ((∀ receiver ∈ xfer.incoming, ¬ receiver.Live) → ∀ (io : Io) (id : UInt32) (name : String)
      (size : UInt64), io.Succeeds → answer io (.fileOffer id name size) = .ok [.fileAccept id])

/-- The host does not lose its incoming slot. -/
def HostEnd.Usable (state : HostEnd) : Prop :=
  SlotUsable state.xfer fun io msg =>
    (takeFileReplies sha256 io state.xfer state.disk downloadDir msg).1

/-- The client does not lose its incoming slot. -/
def ClientEnd.Usable (state : ClientEnd) : Prop :=
  SlotUsable state.live.transfers fun io msg =>
    (takeFile sha256 io state.live state.disk downloadDir msg).1

/-- The event is a message on which the receiver in the slot cancels on its own. -/
def Event.Cancels (xfer : Transfers) : Event → Prop
  | .send _ _ _ => False
  | .message _ msg => System.Cancels xfer msg

/-- The host's slots are usable just when what they hold is alive. -/
theorem HostEnd.usable_iff (state : HostEnd) :
    state.Usable sha256 downloadDir ↔ SlotLive state.xfer := by
  refine ⟨And.left, fun hlive => ⟨hlive, ?_⟩⟩
  intro hidle io id name size hio
  have hfree : state.xfer.incoming = none := by
    cases hin : state.xfer.incoming with
    | none => rfl
    | some receiver => exact absurd (hlive receiver hin) (hidle receiver hin)
  show (takeFileReplies sha256 io state.xfer state.disk downloadDir
    (.fileOffer id name size)).1 = _
  have hdispatch := dispatch sha256 io state.xfer state.disk downloadDir (.fileOffer id name size)
  generalize takeFileReplies sha256 io state.xfer state.disk downloadDir
    (.fileOffer id name size) = outcome at hdispatch ⊢
  cases hdispatch with
  | polled _ htaken => cases htaken.forSender (by simp)
  | pollFailed _ htaken => cases htaken.forSender (by simp)
  | senderFailed _ htaken => cases htaken.forSender (by simp)
  | busy hin => simp [hfree] at hin
  | notAccepted _ haccept =>
      have herror := (FileReceiver.accept_error_iff io state.disk downloadDir id name size).mp
        ⟨_, _, haccept⟩
      simp [hio.createDirAll, hio.create] at herror
  | accepted _ haccept =>
      obtain ⟨-, rfl, -⟩ := FileReceiver.accept_ok haccept
      rfl
  | idle _ hoffer => exact absurd rfl (hoffer id name size)
  | handled _ hoffer => exact absurd rfl (hoffer id name size)
  | handleFailed _ hoffer => exact absurd rfl (hoffer id name size)

/-- The client's slots are usable just when a host could use them. -/
theorem ClientEnd.usable_iff (state : ClientEnd) :
    state.Usable sha256 downloadDir ↔ state.asHost.Usable sha256 downloadDir := by
  have hsame : (fun io msg => (takeFile sha256 io state.live state.disk downloadDir msg).1) =
      fun io msg =>
        (takeFileReplies sha256 io state.live.transfers state.disk downloadDir msg).1 := by
    funext io msg
    exact congrArg Prod.fst (takeFile_eq sha256 io state.live state.disk downloadDir msg)
  rw [ClientEnd.Usable, hsame]
  rfl

/-- One step of a host end keeps the slot usable unless its receiver cancels. -/
theorem HostEnd.usable_step_iff (state : HostEnd) (event : Event)
    (h : state.Usable sha256 downloadDir) :
    (state.step sha256 downloadDir event).Usable sha256 downloadDir ↔
      ¬ event.Cancels state.xfer := by
  rw [HostEnd.usable_iff] at h ⊢
  cases event with
  | send io id path =>
      refine iff_of_true ?_ not_false
      rw [SlotLive, (HostEnd.step_send sha256 downloadDir state io id path).1]
      exact h
  | message io msg =>
      exact slotLive_dispatch_iff sha256 downloadDir
        (dispatch sha256 io state.xfer state.disk downloadDir msg) h

/-- At either end, the incoming slot stays usable in all states of a run just when
no message of the run makes the receiver in the slot cancel on its own. -/
theorem slots_usable_iff (disk : Disk UInt8) (events : List Event) :
    ((∀ front, front <+: events →
        (run (HostEnd.step sha256 downloadDir) ⟨{}, disk⟩ front).Usable sha256 downloadDir) ↔
      Along (HostEnd.step sha256 downloadDir) (fun state event => ¬ event.Cancels state.xfer)
        ⟨{}, disk⟩ events) ∧
    ((∀ front, front <+: events →
        (run (ClientEnd.step sha256 downloadDir) ⟨{}, disk⟩ front).Usable sha256 downloadDir) ↔
      Along (ClientEnd.step sha256 downloadDir)
        (fun state event => ¬ event.Cancels state.live.transfers) ⟨{}, disk⟩ events) := by
  have hempty : (⟨{}, disk⟩ : HostEnd).Usable sha256 downloadDir := by
    rw [HostEnd.usable_iff]
    intro receiver hreceiver
    cases hreceiver
  constructor
  · exact prefixes_iff_along (HostEnd.step sha256 downloadDir)
      (fun state event => HostEnd.usable_step_iff sha256 downloadDir state event) hempty events
  · refine prefixes_iff_along (ClientEnd.step sha256 downloadDir) (fun state event h => ?_)
      ((ClientEnd.usable_iff sha256 downloadDir ⟨{}, disk⟩).mpr hempty) events
    rw [ClientEnd.usable_iff] at h ⊢
    rw [asHost_step]
    exact HostEnd.usable_step_iff sha256 downloadDir state.asHost event h

/-- A chunk that leaves a gap ends the transfer and the session's file receiving. -/
theorem gap_blocks_slot :
    ¬ ∀ events : List Event,
      (run (HostEnd.step sampleSha256 ["in"]) ⟨{}, { files := fun _ => none }⟩ events).Usable
        sampleSha256 ["in"] := by
  intro hall
  have husable := hall
    [.message quietIo (.fileOffer 9 "a.bin" 4), .message quietIo (.fileChunk 9 1 [0x61])]
  have hdead := husable.1 ((FileReceiver.ofOffer ["in"] 9 "a.bin" 4).abort "chunk out of order")
    (by decide +kernel)
  exact absurd hdead (by decide)

end OmarchyConnect.System
