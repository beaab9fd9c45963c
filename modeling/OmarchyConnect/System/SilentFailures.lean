/-
# Failures that the peer is not told

A gap, an overrun and an early completion end a transfer with a `FileCancel` to the
peer. All other failures that an end detects itself are returned as an error, and
an error throws the replies away: the transfer is dropped here and the peer waits.
`told_iff` says that exactly these failures are silent.
-/

import OmarchyConnect.System.Ends

namespace OmarchyConnect.System

open OmarchyConnect.Library.Wire OmarchyConnect.Library.Files OmarchyConnect.Library.Runs
open OmarchyConnect.Protocol OmarchyConnect.Host OmarchyConnect.Client

variable (sha256 : Bytes → Digest) (downloadDir : Path)

/-- What is written to the peer after a call: an error leaves nothing to write. -/
def sentMessages : Except FileTransferError (List Message) → List Message
  | .ok replies => replies
  | .error _ => []

/-- The call gives up a transfer, and not because the peer cancelled it: the sender
or the live receiver leaves its slot by an error or has failed in it, or an offer
ends in an error. -/
inductive Abandons (before : Transfers) (msg : Message)
    (result : Except FileTransferError (List Message))
    (after : Transfers) : UInt32 → Prop
  | sending {sender : FileSender} {err : FileTransferError}
      (hbefore : before.outgoing = some sender) (hafter : after.outgoing = none)
      (herr : result = .error err) (hmsg : ∀ reason, msg ≠ .fileCancel sender.id reason) :
      Abandons before msg result after sender.id
  | receiving {receiver : FileReceiver} (hbefore : before.incoming = some receiver)
      (hlive : receiver.Live)
      (hafter : (after.incoming = none ∧ ∃ err, result = .error err) ∨
        ∃ ended ∈ after.incoming, ended.failed ≠ none)
      (hmsg : ∀ reason, msg ≠ .fileCancel receiver.id reason) :
      Abandons before msg result after receiver.id
  | refusing {id : UInt32} {name : String} {size : UInt64} {err : FileTransferError}
      (hmsg : msg = .fileOffer id name size) (herr : result = .error err) :
      Abandons before msg result after id

/-- Every transfer that the call gives up is cancelled towards the peer. -/
def Told (before : Transfers) (msg : Message) (result : Except FileTransferError (List Message))
    (after : Transfers) : Prop :=
  ∀ id, Abandons before msg result after id →
    ∃ reason, .fileCancel id reason ∈ sentMessages result

/-- The failures that end in an error: the sender or the receiver gives up with one,
or an offer cannot be accepted. -/
inductive SilentFailure (io : Io) (xfer : Transfers) (msg : Message) : Prop
  | sending {sender : FileSender} (hout : xfer.outgoing = some sender)
      (hfails : sender.FailsOn msg)
  | receiving {receiver : FileReceiver} (hin : xfer.incoming = some receiver)
      (hlive : receiver.Live) (hpass : xfer.PassesSender msg)
      (hfails : receiver.FailsOn sha256 io msg)
  | refusing {id : UInt32} {name : String} {size : UInt64} (hin : xfer.incoming = none)
      (hmsg : msg = .fileOffer id name size) (hio : io.createDirAll ≠ none ∨ io.create ≠ none)

/-- The receiver in the slot has its file open as long as it is live. -/
def FileOpen (xfer : Transfers) : Prop :=
  ∀ receiver ∈ xfer.incoming, receiver.Live → receiver.file ≠ none

/-- A call that returns no error gives up a transfer only by a receiver that cancels
on its own, and then says so. -/
theorem told_of_ok {before after : Transfers} {msg : Message} {replies : List Message}
    (hreceiver : ∀ receiver ∈ before.incoming, receiver.Live → ∀ ended ∈ after.incoming,
      ended.failed ≠ none → ∃ reason, .fileCancel receiver.id reason ∈ replies) :
    Told before msg (.ok replies) after := by
  intro id habandons
  cases habandons with
  | sending _ _ herr => cases herr
  | @receiving receiver hbefore hlive hafter =>
      rcases hafter with ⟨-, err, herr⟩ | ⟨ended, hended, hfailed⟩
      · cases herr
      · exact hreceiver receiver hbefore hlive ended hended hfailed
  | refusing _ herr => cases herr

/-- A call that empties no slot and fails no offer gives up nothing. -/
theorem told_of_kept {before after : Transfers} {msg : Message}
    {result : Except FileTransferError (List Message)} (hin : after.incoming = before.incoming)
    (hout : after.outgoing ≠ none ∨ ∃ sender ∈ before.outgoing, ∃ reason,
      msg = .fileCancel sender.id reason)
    (hoffer : ∀ id name size, msg ≠ .fileOffer id name size) : Told before msg result after := by
  intro id habandons
  cases habandons with
  | sending hbefore hafter _ hmsg =>
      rcases hout with hkept | ⟨other, hother, reason, hcancel⟩
      · exact absurd hafter hkept
      · obtain rfl := Option.some.inj (hbefore.symm.trans hother)
        exact absurd hcancel (hmsg reason)
  | @receiving receiver hbefore hlive hafter =>
      rw [hin] at hafter
      rcases hafter with ⟨hnone, -⟩ | ⟨ended, hended, hfailed⟩
      · rw [hbefore] at hnone
        cases hnone
      · obtain rfl := Option.some.inj (hbefore.symm.trans hended)
        exact absurd hlive.2 hfailed
  | refusing hmsg => exact absurd hmsg (hoffer _ _ _)

/-- No error is sent, so what it gives up is not told. -/
theorem not_told_of_error {before after : Transfers} {msg : Message} {err : FileTransferError}
    {id : UInt32} (h : Abandons before msg (.error err) after id) :
    ¬ Told before msg (.error err) after := by
  intro htold
  obtain ⟨reason, hmem⟩ := htold id h
  cases hmem

/-- A message for the sender reaches neither the receiver nor the part for offers. -/
theorem silentFailure_of_forSender {io : Io} {xfer : Transfers} {msg : Message}
    {sender : FileSender} (hout : xfer.outgoing = some sender)
    (hmsg : msg.forSender = some sender.id) :
    SilentFailure sha256 io xfer msg ↔ sender.FailsOn msg := by
  constructor
  · intro hsilent
    cases hsilent with
    | sending hother hfails =>
        rwa [Option.some.inj (hout.symm.trans hother)]
    | receiving _ _ hpass => exact absurd hmsg (hpass sender hout)
    | refusing _ hoffer =>
        rw [hoffer] at hmsg
        cases hmsg
  · exact SilentFailure.sending hout

/-- A message that passes the sender can only fail at the receiver, when it is no
offer. -/
theorem silentFailure_of_passesSender {io : Io} {xfer : Transfers} {msg : Message}
    (hpass : xfer.PassesSender msg) (hoffer : ∀ id name size, msg ≠ .fileOffer id name size) :
    SilentFailure sha256 io xfer msg ↔
      ∃ receiver ∈ xfer.incoming, receiver.Live ∧ receiver.FailsOn sha256 io msg := by
  constructor
  · intro hsilent
    cases hsilent with
    | sending hout hfails => exact absurd hfails.forSender (hpass _ hout)
    | receiving hin hlive _ hfails => exact ⟨_, hin, hlive, hfails⟩
    | refusing _ hmsg => exact absurd hmsg (hoffer _ _ _)
  · rintro ⟨receiver, hin, hlive, hfails⟩
    exact SilentFailure.receiving hin hlive hpass hfails

/-- An offer can only fail by not being accepted. -/
theorem silentFailure_fileOffer_iff {io : Io} {xfer : Transfers} {id : UInt32} {name : String}
    {size : UInt64} :
    SilentFailure sha256 io xfer (.fileOffer id name size) ↔
      xfer.incoming = none ∧ (io.createDirAll ≠ none ∨ io.create ≠ none) := by
  constructor
  · intro hsilent
    cases hsilent with
    | sending _ hfails => cases hfails
    | receiving _ _ _ hfails => cases hfails
    | refusing hin _ hio => exact ⟨hin, hio⟩
  · rintro ⟨hin, hio⟩
    exact SilentFailure.refusing hin rfl hio

/-- A receiver that takes the message without an error has told what it gave up. -/
theorem told_handled_iff {io : Io} {xfer : Transfers} {disk after : Disk UInt8} {msg : Message}
    {receiver next : FileReceiver} {more : List Message} (hpass : xfer.PassesSender msg)
    (hoffer : ∀ id name size, msg ≠ .fileOffer id name size)
    (hin : xfer.incoming = some receiver)
    (hhandle : receiver.handle sha256 io disk msg = (.ok more, next, after))
    (hopen : FileOpen xfer) :
    Told xfer msg (.ok more)
        { xfer with incoming := if next.isComplete then none else some next } ↔
      ¬ SilentFailure sha256 io xfer msg := by
  rw [silentFailure_of_passesSender sha256 hpass hoffer]
  refine iff_of_true (told_of_ok fun other hother hlive ended hended hfailed => ?_) ?_
  · obtain rfl := Option.some.inj (hin.symm.trans hother)
    rcases FileReceiver.handle_ok sha256 hlive hhandle with
      ⟨hnext, -⟩ | ⟨-, -, -, reason, rfl⟩
    · obtain rfl : next = ended := by
        by_cases hdone : next.isComplete = true <;> simp [hdone] at hended
        exact hended
      rcases hnext with hgoes | ⟨-, hnone⟩
      · exact absurd hgoes.2 hfailed
      · exact absurd hnone hfailed
    · exact ⟨reason, by simp⟩
  · rintro ⟨other, hother, hlive, hfails⟩
    obtain rfl := Option.some.inj (hin.symm.trans hother)
    exact FileReceiver.not_failsOn_of_ok sha256 hlive (hopen receiver hin hlive) hhandle hfails

/-- A receiver that fails has told of it only when the peer cancelled. -/
theorem told_handleFailed_iff {io : Io} {xfer : Transfers} {disk after : Disk UInt8}
    {msg : Message} {receiver next : FileReceiver} {err : FileTransferError}
    (hpass : xfer.PassesSender msg) (hoffer : ∀ id name size, msg ≠ .fileOffer id name size)
    (hin : xfer.incoming = some receiver)
    (hhandle : receiver.handle sha256 io disk msg = (.error err, next, after))
    (hopen : FileOpen xfer) :
    Told xfer msg (.error err) { xfer with incoming := none } ↔
      ¬ SilentFailure sha256 io xfer msg := by
  have hlive := FileReceiver.live_of_handle_error sha256 hhandle
  rw [silentFailure_of_passesSender sha256 hpass hoffer]
  rcases FileReceiver.failsOn_or_cancelled sha256 hlive (hopen receiver hin hlive) hhandle with
    hfails | ⟨reason, rfl⟩
  · refine iff_of_false (not_told_of_error
      (Abandons.receiving hin hlive (Or.inl ⟨rfl, err, rfl⟩) ?_))
      (not_not.mpr ⟨receiver, hin, hlive, hfails⟩)
    rintro reason rfl
    cases hfails
  · refine iff_of_true ?_ ?_
    · intro id habandons
      cases habandons with
      | @sending sender _ hbefore hafter =>
          rw [hbefore] at hafter
          cases hafter
      | receiving hbefore _ _ hmsg =>
          obtain rfl := Option.some.inj (hin.symm.trans hbefore)
          exact absurd rfl (hmsg reason)
      | refusing hmsg => cases hmsg
    · rintro ⟨other, -, -, hfails⟩
      cases hfails

/-- One call tells the peer of everything it gives up, unless it fails silently. -/
theorem told_dispatch_iff {io : Io} {xfer : Transfers} {disk : Disk UInt8} {msg : Message}
    {outcome : Dispatched} (h : Dispatch sha256 io xfer disk downloadDir msg outcome)
    (hopen : FileOpen xfer) :
    Told xfer msg outcome.1 outcome.2.1 ↔ ¬ SilentFailure sha256 io xfer msg := by
  cases h with
  | @polled _ sender taken next replies hout htaken =>
      have hmsg := htaken.forSender (by simp)
      rw [silentFailure_of_forSender sha256 hout hmsg]
      refine iff_of_true (told_of_ok fun receiver hin hlive ended hended hfailed => ?_)
        htaken.not_failsOn
      obtain rfl := Option.some.inj (hin.symm.trans hended)
      exact absurd hlive.2 hfailed
  | @pollFailed _ sender taken next err hout htaken =>
      have hmsg := htaken.forSender (by simp)
      rw [silentFailure_of_forSender sha256 hout hmsg]
      refine iff_of_true (told_of_kept rfl (Or.inl (by simp)) ?_) htaken.not_failsOn
      rintro id name size rfl
      cases hmsg
  | @senderFailed _ sender failed err hout htaken =>
      have hmsg := htaken.forSender (by simp)
      rw [silentFailure_of_forSender sha256 hout hmsg]
      rcases htaken.failsOn_or_cancelled with hfails | ⟨reason, rfl⟩
      · refine iff_of_false (not_told_of_error (Abandons.sending hout rfl rfl ?_))
          (not_not.mpr hfails)
        rintro reason rfl
        cases hfails
      · refine iff_of_true (told_of_kept rfl (Or.inr ⟨sender, hout, reason, rfl⟩) (by simp)) ?_
        intro hfails
        cases hfails
  | @busy id name size receiver hin =>
      rw [silentFailure_fileOffer_iff, hin]
      refine iff_of_true (told_of_ok fun other hother hlive ended hended hfailed => ?_) (by simp)
      obtain rfl := Option.some.inj (hother.symm.trans hended)
      exact absurd hlive.2 hfailed
  | @notAccepted id name size err next hin haccept =>
      rw [silentFailure_fileOffer_iff]
      refine iff_of_false (not_told_of_error (Abandons.refusing rfl rfl)) (not_not.mpr ⟨hin, ?_⟩)
      exact (FileReceiver.accept_error_iff io disk downloadDir id name size).mp ⟨err, next, haccept⟩
  | @accepted id name size receiver reply next hin haccept =>
      rw [silentFailure_fileOffer_iff]
      refine iff_of_true (told_of_ok fun other hother => ?_) ?_
      · rw [hin] at hother
        cases hother
      · rintro ⟨-, hio⟩
        obtain ⟨err, after, herror⟩ :=
          (FileReceiver.accept_error_iff io disk downloadDir id name size).mpr hio
        rw [haccept] at herror
        simp at herror
  | idle hpass hoffer hin =>
      rw [silentFailure_of_passesSender sha256 hpass hoffer]
      refine iff_of_true (told_of_ok fun other hother => ?_) (by simp [hin])
      rw [hin] at hother
      cases hother
  | handled hpass hoffer hin hhandle => exact told_handled_iff sha256 hpass hoffer hin hhandle hopen
  | handleFailed hpass hoffer hin hhandle =>
      exact told_handleFailed_iff sha256 hpass hoffer hin hhandle hopen

/-- A call keeps the file of a live receiver open. -/
theorem fileOpen_dispatch {io : Io} {xfer : Transfers} {disk : Disk UInt8} {msg : Message}
    {outcome : Dispatched} (h : Dispatch sha256 io xfer disk downloadDir msg outcome)
    (hopen : FileOpen xfer) : FileOpen outcome.2.1 := by
  cases h with
  | accepted _ haccept =>
      obtain ⟨rfl, -, -⟩ := FileReceiver.accept_ok haccept
      intro receiver hreceiver _
      obtain rfl := Option.some.inj hreceiver
      simp [FileReceiver.ofOffer]
  | @handled _ receiver next more after hpass hoffer hin hhandle =>
      intro other hother hlive
      obtain rfl : next = other := by
        by_cases hdone : next.isComplete = true <;> simp [hdone] at hother
        exact hother
      by_cases hbefore : receiver.Live
      · rw [FileReceiver.file_of_live sha256 hbefore hhandle hlive]
        exact hopen receiver hin hbefore
      · rw [FileReceiver.handle_of_not_live sha256 io disk msg hbefore] at hhandle
        obtain ⟨-, rfl, -⟩ : _ ∧ receiver = next ∧ _ := by simpa using hhandle
        exact absurd hlive hbefore
  | handleFailed =>
      intro other hother
      cases hother
  | _ => exact hopen

/-! ## Runs of both ends -/

/-- The peer is told of everything that this event makes the end give up. -/
def HostEnd.Tells (state : HostEnd) : Event → Prop
  | .send _ _ _ => True
  | .message io msg =>
      let outcome := takeFileReplies sha256 io state.xfer state.disk downloadDir msg
      Told state.xfer msg outcome.1 outcome.2.1

/-- The client tells the host of a failure in the event. -/
def ClientEnd.Tells (state : ClientEnd) : Event → Prop
  | .send _ _ _ => True
  | .message io msg =>
      let outcome := takeFile sha256 io state.live state.disk downloadDir msg
      Told state.live.transfers msg outcome.1 outcome.2.1.transfers

/-- The event is a message that fails silently. -/
def Event.FailsSilently (xfer : Transfers) : Event → Prop
  | .send _ _ _ => False
  | .message io msg => SilentFailure sha256 io xfer msg

/-- The file of a receiver in the slot stays open. -/
theorem HostEnd.fileOpen_step (state : HostEnd) (event : Event) (h : FileOpen state.xfer) :
    FileOpen (state.step sha256 downloadDir event).xfer := by
  cases event with
  | send io id path =>
      rw [FileOpen, (HostEnd.step_send sha256 downloadDir state io id path).1]
      exact h
  | message io msg =>
      exact fileOpen_dispatch sha256 downloadDir
        (dispatch sha256 io state.xfer state.disk downloadDir msg) h

/-- The host tells of a failure but for the silent ones. -/
theorem HostEnd.tells_iff (state : HostEnd) (event : Event) (h : FileOpen state.xfer) :
    state.Tells sha256 downloadDir event ↔ ¬ event.FailsSilently sha256 state.xfer := by
  cases event with
  | send io id path => exact iff_of_true trivial not_false
  | message io msg =>
      exact told_dispatch_iff sha256 downloadDir
        (dispatch sha256 io state.xfer state.disk downloadDir msg) h

/-- The client tells just what the host in its place would. -/
theorem ClientEnd.tells_iff (state : ClientEnd) (event : Event) :
    state.Tells sha256 downloadDir event ↔ state.asHost.Tells sha256 downloadDir event := by
  cases event with
  | send io id path => exact Iff.rfl
  | message io msg =>
      have htake := takeFile_eq sha256 io state.live state.disk downloadDir msg
      simp only [ClientEnd.Tells, HostEnd.Tells, ClientEnd.asHost, ← htake]
      exact Iff.rfl

/-- At either end, the peer is told of every transfer that a run gives up just when no
message of the run fails silently. -/
theorem told_iff (disk : Disk UInt8) (events : List Event) :
    (Along (HostEnd.step sha256 downloadDir) (HostEnd.Tells sha256 downloadDir)
        ⟨{}, disk⟩ events ↔
      Along (HostEnd.step sha256 downloadDir)
        (fun state event => ¬ event.FailsSilently sha256 state.xfer) ⟨{}, disk⟩ events) ∧
    (Along (ClientEnd.step sha256 downloadDir) (ClientEnd.Tells sha256 downloadDir)
        ⟨{}, disk⟩ events ↔
      Along (ClientEnd.step sha256 downloadDir)
        (fun state event => ¬ event.FailsSilently sha256 state.live.transfers)
        ⟨{}, disk⟩ events) := by
  have hempty : FileOpen {} := by
    intro receiver hreceiver
    cases hreceiver
  constructor
  · exact along_congr (HostEnd.step sha256 downloadDir) (fun state => FileOpen state.xfer)
      (fun state event => HostEnd.fileOpen_step sha256 downloadDir state event)
      (fun state event => HostEnd.tells_iff sha256 downloadDir state event) hempty events
  · refine along_congr (ClientEnd.step sha256 downloadDir)
      (fun state => FileOpen state.asHost.xfer) (fun state event h => ?_) (fun state event h => ?_)
      (show FileOpen (⟨{}, disk⟩ : ClientEnd).asHost.xfer from hempty) events
    · rw [asHost_step]
      exact HostEnd.fileOpen_step sha256 downloadDir state.asHost event h
    · rw [ClientEnd.tells_iff]
      exact HostEnd.tells_iff sha256 downloadDir state.asHost event h

/-- A hash mismatch at the host drops the transfer, and nothing is sent. -/
theorem mismatch_not_told :
    ¬ ∀ events : List Event,
      Along (HostEnd.step sampleSha256 ["in"]) (HostEnd.Tells sampleSha256 ["in"])
        ⟨{}, { files := fun _ => none }⟩ events := by
  intro hall
  have hrun := hall
    [.message quietIo (.fileOffer 9 "a.bin" 0),
      .message quietIo (.fileComplete 9 (Vector.replicate 32 0))]
  have htold : HostEnd.Tells sampleSha256 ["in"] _ (.message quietIo (.fileComplete 9 _)) :=
    hrun.2.1
  have habandons : Abandons { incoming := some (FileReceiver.ofOffer ["in"] 9 "a.bin" 0) }
      (.fileComplete 9 (Vector.replicate 32 0)) (.error (.hashMismatch 9)) {} 9 :=
    @Abandons.receiving _ _ _ _ (FileReceiver.ofOffer ["in"] 9 "a.bin" 0) rfl ⟨rfl, rfl⟩
      (Or.inl ⟨rfl, _, rfl⟩) (fun reason => Message.noConfusion)
  obtain ⟨reason, hmem⟩ := htold 9 habandons
  cases hmem

end OmarchyConnect.System
