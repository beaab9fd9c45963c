/-
# What a confirmed send is worth

`is_complete` is a flag that a message of the peer sets. A sender is followed through
any calls of `poll` and `on_peer`, with what the polls returned and what the peer said,
and the flag is compared with what it stands for: all bytes sent and acknowledged, the
hash sent, and the same hash echoed.

`Polled` says once what a poll can do, beside `Taken` for the messages of the peer.
-/

import OmarchyConnect.Library.Runs
import OmarchyConnect.Protocol.Sending

namespace OmarchyConnect.Protocol

open OmarchyConnect.Library.Wire OmarchyConnect.Library.Files OmarchyConnect.Library.Runs

/-- The file bytes of the chunks among messages, in order. -/
def chunkBytes (msgs : List Message) : Bytes :=
  msgs.flatMap fun msg =>
    match msg with
    | .fileChunk _ _ data => data
    | _ => []

/-- Without chunks there are no bytes. -/
@[simp]
theorem chunkBytes_nil : chunkBytes [] = [] := rfl

/-- The bytes of the chunks of two lists. -/
@[simp]
theorem chunkBytes_append (first second : List Message) :
    chunkBytes (first ++ second) = chunkBytes first ++ chunkBytes second :=
  List.flatMap_append

namespace FileSender

/-! ## What a poll can do -/

/-- The sender after it read `added` from its file and `next` is where it stands. -/
def read (sender : FileSender) (next : UInt64) (added : Bytes) : FileSender :=
  { sender with nextOffset := next, hasher := sender.hasher ++ added }

/-- What was read goes from where the sender stood to `next`, inside the file. -/
structure ReadsTo (sender : FileSender) (next : UInt64) (added : Bytes) : Prop where
  position : next.toNat = sender.nextOffset.toNat + added.length
  inside : next.toNat ≤ sender.size.toNat

/-- The messages are chunks of the transfer that carry the bytes. -/
structure ChunksOf (sender : FileSender) (msgs : List Message) (data : Bytes) : Prop where
  carried : chunkBytes msgs = data
  chunks : ∀ msg ∈ msgs, ∃ offset piece, msg = .fileChunk sender.id offset piece

/-- No messages send nothing. -/
theorem ChunksOf.nil (sender : FileSender) : sender.ChunksOf [] [] := ⟨rfl, by simp⟩

/-- Reading two pieces is reading both at once. -/
theorem read_advance (sender : FileSender) (next : UInt64) (data added : Bytes) :
    (sender.advance data).read next added = sender.read next (data ++ added) := by
  rw [advance, read, read, List.append_assoc]

/-- The send loop reads on from where the sender stands. Its messages carry what it
read, unless a read fails. -/
theorem sendChunks_reads (io : Io) (sender : FileSender) (out : List Message)
    (hinside : sender.nextOffset.toNat ≤ sender.size.toNat) :
    ∃ next added, sender.ReadsTo next added ∧
      (sendChunks io sender out).2 = sender.read next added ∧
      ∀ msgs, (sendChunks io sender out).1 = .ok msgs →
        ∃ chunks, msgs = out ++ chunks ∧ sender.ChunksOf chunks added := by
  induction sender, out using sendChunks.induct io with
  | case1 sender out hcan err hread =>
      refine ⟨sender.nextOffset, [], ⟨by simp, hinside⟩, ?_⟩
      rw [sendChunks, dif_pos hcan, hread]
      simp [read]
  | case2 sender out hcan data hread _ ih =>
      have hbounds := chunkLength_bounds hcan
      have hnext := toNat_nextOffset_advance hcan data.val
      obtain ⟨next, added, hreads, hloop, hmsgs⟩ :=
        ih (by rw [hnext, size_advance]; exact hbounds.2)
      refine ⟨next, data.val ++ added, ⟨?_, ?_⟩, ?_⟩
      · rw [hreads.position, hnext, List.length_append, data.property, Nat.add_assoc]
      · rw [← size_advance sender data.val]
        exact hreads.inside
      · have hstep : sendChunks io sender out = sendChunks io (sender.advance data.val)
            (out ++ [.fileChunk sender.id sender.nextOffset data.val]) := by
          rw [sendChunks, dif_pos hcan, hread]
        rw [hstep]
        refine ⟨hloop.trans (read_advance sender next data.val added), fun msgs hok => ?_⟩
        obtain ⟨chunks, rfl, hchunks⟩ := hmsgs msgs hok
        refine ⟨.fileChunk sender.id sender.nextOffset data.val :: chunks, by simp, ?_, ?_⟩
        · rw [← hchunks.carried]
          rfl
        · intro msg hmsg
          cases hmsg with
          | head => exact ⟨sender.nextOffset, data.val, rfl⟩
          | tail _ hlater =>
              obtain ⟨offset, piece, hmsg⟩ := hchunks.chunks msg hlater
              rw [id_advance] at hmsg
              exact ⟨offset, piece, hmsg⟩
  | case3 sender out hcan =>
      refine ⟨sender.nextOffset, [], ⟨by simp, hinside⟩, ?_⟩
      rw [sendChunks, dif_neg hcan]
      refine ⟨by simp [read], fun msgs hok => ?_⟩
      cases hok
      exact ⟨[], by simp, ChunksOf.nil sender⟩

/-- What holds of a sender that was opened, whatever happens to it. -/
structure Steady (sha256 : Bytes → Digest) (sender : FileSender) : Prop where
  inside : sender.nextOffset.toNat ≤ sender.size.toNat
  acked : sender.acked.toNat ≤ sender.nextOffset.toNat
  hasher : sender.hasher.length = sender.nextOffset.toNat
  unsent : sender.completeSent = false → sender.hash = none
  sent : sender.completeSent = true →
    sender.acked = sender.size ∧ sender.hash = some (sha256 sender.hasher)

/-- The sender has all of its file acknowledged, and its hash computed. -/
def completed (sha256 : Bytes → Digest) (sender : FileSender) : FileSender :=
  { sender with hash := some (sha256 sender.hasher), completeSent := true }

/-- A hash that was not computed yet is the one of all that was read. -/
theorem finishHash_of_unhashed (sha256 : Bytes → Digest) {sender : FileSender}
    (hunhashed : sender.hash = none) :
    (sender.finishHash sha256).completeMessage =
        .fileComplete sender.id (sha256 sender.hasher) ∧
      { sender.finishHash sha256 with completeSent := true } = sender.completed sha256 := by
  simp [finishHash, completeMessage, completed, hunhashed]

/-- All that `poll` can do. -/
inductive Polled (sha256 : Bytes → Digest) (sender : FileSender) :
    Except FileTransferError (List Message) × FileSender → Prop
  | idle : Polled sha256 sender (.ok [], sender)
  | offered : Polled sha256 sender
      (.ok [.fileOffer sender.id sender.name sender.size], { sender with offered := true })
  | broken {err : FileTransferError} {next : UInt64} {added : Bytes}
      (hopen : sender.completeSent = false) (hreads : sender.ReadsTo next added) :
      Polled sha256 sender (.error err, sender.read next added)
  | chunks {msgs : List Message} {next : UInt64} {added : Bytes}
      (hopen : sender.completeSent = false) (hreads : sender.ReadsTo next added)
      (hmsgs : sender.ChunksOf msgs added) :
      Polled sha256 sender (.ok msgs, sender.read next added)
  | completed {msgs : List Message} {next : UInt64} {added : Bytes}
      (hopen : sender.completeSent = false) (hreads : sender.ReadsTo next added)
      (hmsgs : sender.ChunksOf msgs added) (hacked : sender.acked = sender.size) :
      Polled sha256 sender
        (.ok (msgs ++ [.fileComplete sender.id (sha256 (sender.hasher ++ added))]),
          (sender.read next added).completed sha256)

/-- `poll` does nothing else. -/
theorem polled (sha256 : Bytes → Digest) (io : Io) {sender : FileSender}
    (h : sender.Steady sha256) : Polled sha256 sender (sender.poll sha256 io) := by
  have hturn := turn sha256 io sender
  obtain ⟨next, added, hreads, hloop, hmsgs⟩ := sendChunks_reads io sender [] h.inside
  generalize sender.poll sha256 io = result at hturn
  cases hturn with
  | idle => exact .idle
  | offered => exact .offered
  | emptyFile hsending hsize =>
      have hnext : sender.nextOffset.toNat = 0 := by
        have hinside := h.inside
        rw [hsize] at hinside
        exact Nat.le_zero.mp hinside
      have hacked : sender.acked = sender.size := by
        rw [hsize]
        apply UInt64.toNat_inj.mp
        have hle := h.acked
        rw [hnext] at hle
        exact Nat.le_zero.mp hle
      have hnothing : sender.ReadsTo sender.nextOffset [] := ⟨by simp, h.inside⟩
      have hcompleted :=
        @Polled.completed sha256 _ _ _ _ hsending.unsent hnothing (ChunksOf.nil sender) hacked
      simpa [read, completed, finishHash, completeMessage, h.unsent hsending.unsent]
        using hcompleted
  | broken hsending hbroken =>
      rw [hbroken] at hloop
      obtain rfl := hloop
      exact .broken hsending.unsent hreads
  | chunks hsending hok =>
      rw [hok] at hloop hmsgs
      obtain rfl := hloop
      obtain ⟨chunks, rfl, hout⟩ := hmsgs _ rfl
      exact .chunks hsending.unsent hreads hout
  | completed hsending hok hacked =>
      rw [hok] at hloop hmsgs
      obtain rfl := hloop
      obtain ⟨chunks, rfl, hout⟩ := hmsgs _ rfl
      have hcompleted := @Polled.completed sha256 _ _ _ _ hsending.unsent hreads hout hacked
      simpa [read, completed, finishHash, completeMessage, h.unsent hsending.unsent]
        using hcompleted

/-! ## What stays of an opened sender -/

/-- Reading on keeps a sender steady. -/
theorem Steady.read {sha256 : Bytes → Digest} {sender : FileSender} (h : sender.Steady sha256)
    (hopen : sender.completeSent = false) {next : UInt64} {added : Bytes}
    (hreads : sender.ReadsTo next added) : (sender.read next added).Steady sha256 := by
  have hposition := hreads.position
  constructor
  case inside => exact hreads.inside
  case acked =>
    have hacked := h.acked
    simp only [FileSender.read]
    omega
  case hasher =>
    have hhasher := h.hasher
    simp only [FileSender.read, List.length_append]
    omega
  case unsent => exact h.unsent
  case sent =>
    intro hsent
    exact absurd (hsent.symm.trans hopen) (by simp)

/-- A poll keeps a sender steady. -/
theorem Steady.poll {sha256 : Bytes → Digest} {sender : FileSender} (h : sender.Steady sha256)
    (io : Io) : (sender.poll sha256 io).2.Steady sha256 := by
  have hpolled := polled sha256 io h
  generalize sender.poll sha256 io = result at hpolled
  cases hpolled with
  | idle => exact h
  | offered => exact ⟨h.inside, h.acked, h.hasher, h.unsent, h.sent⟩
  | broken hopen hreads => exact h.read hopen hreads
  | chunks hopen hreads hmsgs => exact h.read hopen hreads
  | completed hopen hreads hmsgs hacked =>
      have hread := h.read hopen hreads
      constructor
      case inside => exact hread.inside
      case acked => exact hread.acked
      case hasher => exact hread.hasher
      case unsent =>
        intro hunsent
        cases hunsent
      case sent => exact fun _ => ⟨hacked, rfl⟩

/-- A message keeps a sender steady. -/
theorem Steady.onPeer {sha256 : Bytes → Digest} {sender : FileSender} (h : sender.Steady sha256)
    (msg : Message) : (sender.onPeer msg).2.Steady sha256 := by
  have htaken := taken sender msg
  generalize sender.onPeer msg = result at htaken
  cases htaken with
  | acked hnew hsent =>
      rename_i offset
      simp only [PastSent, not_or, UInt64.lt_iff_toNat_lt, not_lt] at hnew hsent
      constructor
      case inside => exact h.inside
      case acked => exact hsent.1
      case hasher => exact h.hasher
      case unsent => exact h.unsent
      case sent =>
        intro hcomplete
        obtain ⟨hacked, hhash⟩ := h.sent hcomplete
        rw [hacked] at hnew
        exact ⟨UInt64.toNat_inj.mp (le_antisymm hsent.2 hnew), hhash⟩
  | _ => exact ⟨h.inside, h.acked, h.hasher, h.unsent, h.sent⟩

/-- A sender is steady from the start. -/
theorem steady_openFile (sha256 : Bytes → Digest) {io : Io} {id : UInt32} {path : Path}
    {sender : FileSender} (h : openFile io id path = .ok sender) : sender.Steady sha256 := by
  unfold openFile at h
  cases hsize : io.metadata path with
  | error err =>
      rw [hsize] at h
      cases h
  | ok size =>
      rw [hsize] at h
      cases h
      exact ⟨Nat.zero_le _, le_refl _, rfl, fun _ => rfl, fun hsent => by cases hsent⟩

/-- An opened sender has read and sent nothing. -/
theorem fresh_openFile {io : Io} {id : UInt32} {path : Path} {sender : FileSender}
    (h : openFile io id path = .ok sender) :
    sender.hasher = [] ∧ sender.completeSent = false ∧ sender.peerConfirmed = false := by
  unfold openFile at h
  cases hsize : io.metadata path with
  | error err =>
      rw [hsize] at h
      cases h
  | ok size =>
      rw [hsize] at h
      cases h
      exact ⟨rfl, rfl, rfl⟩

/-- The messages that a sender fails on, whatever its state was. -/
theorem Taken.fails {sender : FileSender} {msg : Message}
    {result : Except FileTransferError Bool × FileSender} (h : Taken sender msg result)
    (hfails : sender.FailsOn msg ∨ ∃ reason, msg = .fileCancel sender.id reason) :
    ∃ reason, result.2 = sender.fail reason := by
  cases h with
  | pastSent => exact ⟨_, rfl⟩
  | wrongEcho => exact ⟨_, rfl⟩
  | cancelled => exact ⟨_, rfl⟩
  | other hmsg =>
      cases hfails with
      | inl hfails => exact absurd hfails.forSender hmsg
      | inr hcancel =>
          obtain ⟨reason, rfl⟩ := hcancel
          exact absurd rfl hmsg
  | accepted =>
      have hnot := (Taken.accepted : Taken sender _ _).not_failsOn
      exact absurd hfails (by simp [hnot])
  | oldAck hold =>
      have hnot := (Taken.oldAck hold).not_failsOn
      exact absurd hfails (by simp [hnot])
  | acked hnew hsent =>
      have hnot := (Taken.acked hnew hsent).not_failsOn
      exact absurd hfails (by simp [hnot])
  | confirmed hecho =>
      have hnot := (Taken.confirmed hecho).not_failsOn
      exact absurd hfails (by simp [hnot])

end FileSender

/-! ## A sender and its calls -/

/-- A sender with the messages that its polls returned and those it was given. -/
structure SendRun where
  sender : FileSender
  returned : List Message := []
  heard : List Message := []

/-- What a sender is asked to do. -/
inductive SendEvent
  | poll (io : Io)
  | onPeer (msg : Message)

namespace SendRun

variable (sha256 : Bytes → Digest)

/-- An error of a poll takes the messages that the poll had collected. -/
def afterPoll (state : SendRun) : Except FileTransferError (List Message) × FileSender → SendRun
  | (.ok msgs, sender) => { state with sender, returned := state.returned ++ msgs }
  | (.error _, sender) => { state with sender }

/-- One call. -/
def step (state : SendRun) : SendEvent → SendRun
  | .poll io => state.afterPoll (state.sender.poll sha256 io)
  | .onPeer msg =>
      { state with sender := (state.sender.onPeer msg).2, heard := state.heard ++ [msg] }

/-- What a confirmed send stands for. -/
structure Confirmed (state : SendRun) : Prop where
  notFailed : state.sender.isFailed = false
  next : state.sender.nextOffset = state.sender.size
  acked : state.sender.acked = state.sender.size
  sent : (chunkBytes state.returned).length = state.sender.size.toNat
  complete : state.sender.completeSent = true ∧
    .fileComplete state.sender.id (sha256 (chunkBytes state.returned)) ∈ state.returned
  echoed : ∃ hash, .fileComplete state.sender.id hash ∈ state.heard
  echo : ∀ hash, .fileComplete state.sender.id hash ∈ state.heard →
    hash = sha256 (chunkBytes state.returned)

/-- A poll read a chunk and lost it, because a later read of the same poll failed. -/
def LostChunk (state : SendRun) : Prop := chunkBytes state.returned ≠ state.sender.hasher

/-- The steps behind which a send counts as confirmed and is not: an echo is taken
before the sender's own hash was sent, after the sender failed or after a chunk was
lost, or a confirmed sender fails. -/
def Spoils (state : SendRun) : SendEvent → Prop
  | .poll _ => False
  | .onPeer msg =>
      (∃ hash, msg = .fileComplete state.sender.id hash ∧ ¬ state.sender.WrongEcho hash ∧
        (state.sender.completeSent = false ∨ state.sender.isFailed = true ∨ state.LostChunk)) ∨
      (state.sender.isComplete = true ∧
        (state.sender.FailsOn msg ∨ ∃ reason, msg = .fileCancel state.sender.id reason))

/-- What holds along the runs that no step spoils. -/
structure Inv (state : SendRun) : Prop where
  steady : state.sender.Steady sha256
  bytes : chunkBytes state.returned = state.sender.hasher ∨
    (chunkBytes state.returned).length < state.sender.hasher.length
  complete : state.sender.completeSent = true →
    .fileComplete state.sender.id (sha256 state.sender.hasher) ∈ state.returned
  echo : ∀ hash, .fileComplete state.sender.id hash ∈ state.heard →
    state.sender.isFailed = true ∨
      (state.sender.completeSent = true ∧ hash = sha256 state.sender.hasher)
  confirmed : state.sender.isComplete = true →
    state.sender.isFailed = false ∧ state.sender.completeSent = true ∧ ¬ state.LostChunk ∧
      ∃ hash, .fileComplete state.sender.id hash ∈ state.heard

variable {sha256}

/-- A complete transfer was confirmed. -/
theorem Inv.gives {state : SendRun} (h : Inv sha256 state) :
    state.sender.isComplete = true → state.Confirmed sha256 := by
  intro hcomplete
  obtain ⟨hgood, hsent, hkept, hheard⟩ := h.confirmed hcomplete
  obtain ⟨hacked, -⟩ := h.steady.sent hsent
  have hnext : state.sender.nextOffset = state.sender.size := by
    have hle := h.steady.acked
    rw [hacked] at hle
    exact UInt64.toNat_inj.mp (le_antisymm h.steady.inside hle)
  have hbytes : chunkBytes state.returned = state.sender.hasher := not_not.mp hkept
  constructor
  case notFailed => exact hgood
  case next => exact hnext
  case acked => exact hacked
  case sent => rw [hbytes, h.steady.hasher, hnext]
  case complete =>
    rw [hbytes]
    exact ⟨hsent, h.complete hsent⟩
  case echoed => exact hheard
  case echo =>
    intro hash hmem
    rw [hbytes]
    cases h.echo hash hmem with
    | inl hfailed => exact absurd (hfailed.symm.trans hgood) (by simp)
    | inr hechoed => exact hechoed.2

/-- A sender that has not sent its hash is not complete. -/
theorem Inv.not_complete {state : SendRun} (h : Inv sha256 state)
    (hopen : state.sender.completeSent = false) : ¬ state.sender.isComplete = true := by
  intro hcomplete
  obtain ⟨-, hsent, -⟩ := h.confirmed hcomplete
  exact absurd (hsent.symm.trans hopen) (by simp)

/-- Before the sender's hash is sent only a failed sender has heard an echo. -/
theorem Inv.failed_of_echo {state : SendRun} (h : Inv sha256 state)
    (hopen : state.sender.completeSent = false) {hash : Digest}
    (hmem : .fileComplete state.sender.id hash ∈ state.heard) : state.sender.isFailed = true := by
  cases h.echo hash hmem with
  | inl hfailed => exact hfailed
  | inr hechoed => exact absurd (hechoed.1.symm.trans hopen) (by simp)

/-- What a poll returns is hashed, too. -/
theorem Inv.bytes_append {state : SendRun} (h : Inv sha256 state) {msgs : List Message}
    {added : Bytes} (hcarried : chunkBytes msgs = added) :
    chunkBytes (state.returned ++ msgs) = state.sender.hasher ++ added ∨
      (chunkBytes (state.returned ++ msgs)).length < (state.sender.hasher ++ added).length := by
  rw [chunkBytes_append, hcarried, List.append_cancel_right_eq, List.length_append,
    List.length_append]
  exact h.bytes.imp id fun hlt => Nat.add_lt_add_right hlt added.length

/-- Before the sender's own hash is sent, no poll has anything to do with the echo. -/
theorem Inv.stillOpen {state : SendRun} (h : Inv sha256 state)
    (hopen : state.sender.completeSent = false) {next : FileSender} {returned : List Message}
    (hsteady : next.Steady sha256) (hid : next.id = state.sender.id)
    (hfailed : next.failed = state.sender.failed)
    (hconfirmed : next.peerConfirmed = state.sender.peerConfirmed)
    (hbytes : chunkBytes returned = next.hasher ∨
      (chunkBytes returned).length < next.hasher.length)
    (hcomplete : next.completeSent = true →
      .fileComplete next.id (sha256 next.hasher) ∈ returned) :
    Inv sha256 { state with sender := next, returned } := by
  constructor
  case steady => exact hsteady
  case bytes => exact hbytes
  case complete => exact hcomplete
  case echo =>
    intro hash hheard
    rw [hid] at hheard
    rw [FileSender.isFailed, hfailed]
    exact Or.inl (h.failed_of_echo hopen hheard)
  case confirmed =>
    intro hdone
    rw [FileSender.isComplete, hconfirmed] at hdone
    exact absurd hdone (h.not_complete hopen)

/-- A poll keeps the invariant. -/
theorem Inv.afterPoll {state : SendRun} (h : Inv sha256 state)
    {result : Except FileTransferError (List Message) × FileSender}
    (hsteady : result.2.Steady sha256) (hpolled : state.sender.Polled sha256 result) :
    Inv sha256 (state.afterPoll result) := by
  cases hpolled with
  | idle =>
      have hsame : state.afterPoll (.ok [], state.sender) = state := by
        simp [SendRun.afterPoll]
      rw [hsame]
      exact h
  | offered =>
      constructor
      case steady => exact hsteady
      case bytes => simpa [SendRun.afterPoll, chunkBytes] using h.bytes
      case complete =>
        intro hsent
        exact List.mem_append_left _ (h.complete hsent)
      case echo => exact h.echo
      case confirmed =>
        intro hcomplete
        obtain ⟨hgood, hsent, hkept, hheard⟩ := h.confirmed hcomplete
        refine ⟨hgood, hsent, ?_, hheard⟩
        simpa [SendRun.afterPoll, LostChunk, chunkBytes] using hkept
  | @broken _ _ added hopen hreads =>
      have hshort : (chunkBytes state.returned).length ≤ state.sender.hasher.length :=
        h.bytes.elim (fun heq => (congrArg List.length heq).le) Nat.le_of_lt
      refine h.stillOpen hopen hsteady rfl rfl rfl ?_
        (fun hsent => absurd (hsent.symm.trans hopen) (by simp))
      simp only [FileSender.read]
      cases added with
      | nil => simpa using h.bytes
      | cons byte added =>
          right
          rw [List.length_append, List.length_cons]
          omega
  | chunks hopen hreads hmsgs =>
      exact h.stillOpen hopen hsteady rfl rfl rfl (h.bytes_append hmsgs.carried)
        (fun hsent => absurd (hsent.symm.trans hopen) (by simp))
  | @completed msgs _ added hopen hreads hmsgs hacked =>
      have hcarried : chunkBytes
          (msgs ++ [.fileComplete state.sender.id (sha256 (state.sender.hasher ++ added))]) =
            added := by
        rw [chunkBytes_append, hmsgs.carried]
        exact List.append_nil added
      refine h.stillOpen hopen hsteady rfl rfl rfl (h.bytes_append hcarried) ?_
      simp [FileSender.completed, FileSender.read]

/-- A message that leaves the flags alone and is no echo adds nothing. -/
theorem Inv.quiet {state : SendRun} (h : Inv sha256 state) {msg : Message} {next : FileSender}
    (hsteady : next.Steady sha256) (hid : next.id = state.sender.id)
    (hhasher : next.hasher = state.sender.hasher)
    (hcomplete : next.completeSent = state.sender.completeSent)
    (hfailed : next.failed = state.sender.failed)
    (hconfirmed : next.peerConfirmed = state.sender.peerConfirmed)
    (hecho : ∀ hash, msg ≠ .fileComplete state.sender.id hash) :
    Inv sha256 { state with sender := next, heard := state.heard ++ [msg] } := by
  constructor
  case steady => exact hsteady
  case bytes =>
    rw [hhasher]
    exact h.bytes
  case complete =>
    rw [hcomplete, hhasher, hid]
    exact h.complete
  case echo =>
    intro hash hheard
    rw [hid, List.mem_append, List.mem_singleton] at hheard
    rw [FileSender.isFailed, hfailed, hcomplete, hhasher]
    exact h.echo hash (hheard.resolve_right fun hmsg => hecho hash hmsg.symm)
  case confirmed =>
    rw [FileSender.isComplete, FileSender.isFailed, LostChunk, hconfirmed, hfailed, hcomplete,
      hhasher, hid]
    intro hdone
    obtain ⟨hok, hsent, hkept, hash, hheard⟩ := h.confirmed hdone
    exact ⟨hok, hsent, hkept, hash, List.mem_append_left _ hheard⟩

/-- A sender that fails before it counts as complete. -/
theorem Inv.fail {state : SendRun} (h : Inv sha256 state)
    (hopen : ¬ state.sender.isComplete = true) (reason : String) (msg : Message) :
    Inv sha256
      { state with sender := state.sender.fail reason, heard := state.heard ++ [msg] } := by
  constructor
  case steady =>
    exact ⟨h.steady.inside, h.steady.acked, h.steady.hasher, h.steady.unsent, h.steady.sent⟩
  case bytes => exact h.bytes
  case complete => exact h.complete
  case echo => exact fun _ _ => Or.inl rfl
  case confirmed => exact fun hcomplete => absurd hcomplete hopen

/-- A message of the peer that does not spoil the send keeps the invariant. -/
theorem Inv.onPeer {state : SendRun} (h : Inv sha256 state) {msg : Message}
    (hgood : ¬ state.Spoils (.onPeer msg)) : Inv sha256 (state.step sha256 (.onPeer msg)) := by
  have hsteady := h.steady.onPeer msg
  have htaken := FileSender.taken state.sender msg
  simp only [step]
  generalize state.sender.onPeer msg = result at htaken hsteady
  obtain ⟨hearly, hlate⟩ := not_or.mp hgood
  cases htaken with
  | other hmsg =>
      apply h.quiet h.steady rfl rfl rfl rfl rfl
      intro hash hecho
      rw [hecho] at hmsg
      exact hmsg rfl
  | accepted => exact h.quiet hsteady rfl rfl rfl rfl rfl (by simp)
  | oldAck hold => exact h.quiet h.steady rfl rfl rfl rfl rfl (by simp)
  | acked hnew hsent => exact h.quiet hsteady rfl rfl rfl rfl rfl (by simp)
  | pastSent hnew hsent =>
      exact h.fail (fun hdone => hlate ⟨hdone, Or.inl (.pastSent hnew hsent)⟩) _ _
  | confirmed hecho =>
      rename_i hash
      have hready : ¬ (state.sender.completeSent = false ∨ state.sender.isFailed = true ∨
          state.LostChunk) := fun hbad => hearly ⟨hash, rfl, hecho, hbad⟩
      simp only [not_or, Bool.not_eq_false, Bool.not_eq_true] at hready
      obtain ⟨hsent, hok, hkept⟩ := hready
      have hhash := (h.steady.sent hsent).2
      have hsame : hash = sha256 state.sender.hasher := by
        rw [FileSender.WrongEcho, hhash] at hecho
        simpa [eq_comm] using hecho
      constructor
      case steady => exact hsteady
      case bytes => exact h.bytes
      case complete => exact h.complete
      case echo =>
        intro other hheard
        rw [List.mem_append, List.mem_singleton] at hheard
        cases hheard with
        | inl hbefore => exact h.echo other hbefore
        | inr hnow =>
            cases hnow
            exact Or.inr ⟨hsent, hsame⟩
      case confirmed => exact fun _ => ⟨hok, hsent, hkept, hash, by simp⟩
  | wrongEcho hecho => exact h.fail (fun hdone => hlate ⟨hdone, Or.inl (.wrongEcho hecho)⟩) _ _
  | cancelled => exact h.fail (fun hdone => hlate ⟨hdone, Or.inr ⟨_, rfl⟩⟩) _ _

/-- A call that does not spoil the transfer keeps the invariant. -/
theorem Inv.step {state : SendRun} (h : Inv sha256 state) {event : SendEvent}
    (hgood : ¬ state.Spoils event) : Inv sha256 (state.step sha256 event) := by
  cases event with
  | poll io => exact h.afterPoll (h.steady.poll io) (FileSender.polled sha256 io h.steady)
  | onPeer msg => exact h.onPeer hgood

/-- Behind a step that spoils the send it counts as complete and is not confirmed. -/
theorem Inv.spoiled {state : SendRun} (h : Inv sha256 state) {event : SendEvent}
    (hbad : state.Spoils event) :
    ¬ ((state.step sha256 event).sender.isComplete = true →
      (state.step sha256 event).Confirmed sha256) := by
  cases event with
  | poll io => exact absurd hbad (by simp [Spoils])
  | onPeer msg =>
      have htaken := FileSender.taken state.sender msg
      simp only [SendRun.step]
      generalize state.sender.onPeer msg = result at htaken
      cases hbad with
      | inl hearly =>
          obtain ⟨hash, rfl, hecho, hwhy⟩ := hearly
          cases htaken with
          | other hmsg => exact absurd rfl hmsg
          | wrongEcho hwrong => exact absurd hwrong hecho
          | confirmed _ =>
              intro hall
              have hconfirmed := hall rfl
              cases hwhy with
              | inl hunsent => exact absurd (hconfirmed.complete.1.symm.trans hunsent) (by simp)
              | inr hrest =>
                  cases hrest with
                  | inl hfailed => exact absurd (hfailed.symm.trans hconfirmed.notFailed) (by simp)
                  | inr hlost =>
                      have hsent := hconfirmed.sent
                      have hshort := h.bytes.resolve_left hlost
                      have hhasher := h.steady.hasher
                      have hinside := h.steady.inside
                      simp only at hsent
                      omega
      | inr hlate =>
          obtain ⟨hdone, hfails⟩ := hlate
          obtain ⟨reason, hfailed⟩ := htaken.fails hfails
          intro hall
          rw [hfailed] at hall
          exact absurd (hall hdone).notFailed (by simp [FileSender.fail, FileSender.isFailed])

/-- An opened sender has the invariant. -/
theorem inv_openFile {io : Io} {id : UInt32} {path : Path} {sender : FileSender}
    (hopen : FileSender.openFile io id path = .ok sender) : Inv sha256 { sender } := by
  have hsteady := FileSender.steady_openFile sha256 hopen
  obtain ⟨hhasher, hunsent, hunconfirmed⟩ := FileSender.fresh_openFile hopen
  constructor
  case steady => exact hsteady
  case bytes => exact Or.inl hhasher.symm
  case complete =>
    intro hsent
    exact absurd (hsent.symm.trans hunsent) (by simp)
  case echo => simp
  case confirmed =>
    intro hcomplete
    exact absurd (hcomplete.symm.trans hunconfirmed) (by simp)

/-- Exactly when no step spoils it, a send that counts as complete is confirmed, in
every state that the calls reach. -/
theorem confirmed_iff (sha256 : Bytes → Digest) {io : Io} {id : UInt32} {path : Path}
    {sender : FileSender} (hopen : FileSender.openFile io id path = .ok sender)
    (events : List SendEvent) :
    (∀ front, front <+: events →
      (run (step sha256) { sender } front).sender.isComplete = true →
        (run (step sha256) { sender } front).Confirmed sha256) ↔
      Along (step sha256) (fun state event => ¬ state.Spoils event) { sender } events :=
  prefixes_iff_along_of_inv (step sha256) (fun _ _ h hgood => h.step hgood) (fun _ h => h.gives)
    (fun _ _ h hbad => h.spoiled hbad) (inv_openFile hopen) events

/-- A system with a file of four zero bytes. -/
def fourZeros : Io := { quietIo with metadata := fun _ => .ok 4 }

/-- The sender of four zeros. -/
def fourZerosSender : FileSender :=
  { id := 9, name := "a.bin", size := 4, file := { path := ["a.bin"] } }

/-- The file is offered, accepted, sent, acknowledged and echoed. -/
def fourZerosSend : List SendEvent :=
  [.poll fourZeros, .onPeer (.fileAccept 9), .poll fourZeros, .onPeer (.fileAck 9 4),
    .poll fourZeros, .onPeer (.fileComplete 9 (sampleSha256 [0, 0, 0, 0]))]

/-- The sender is what the file is opened as. -/
theorem openFile_fourZeros : FileSender.openFile fourZeros 9 ["a.bin"] = .ok fourZerosSender := by
  decide +kernel

/-- The transfer of four zeros. -/
theorem confirmed_iff_fourZeros :
    (∀ front, front <+: fourZerosSend →
      (run (step sampleSha256) { sender := fourZerosSender } front).sender.isComplete = true →
        (run (step sampleSha256) { sender := fourZerosSender } front).Confirmed sampleSha256) ↔
      Along (step sampleSha256) (fun state event => ¬ state.Spoils event)
        { sender := fourZerosSender } fourZerosSend :=
  confirmed_iff sampleSha256 openFile_fourZeros fourZerosSend

example : (run (step sampleSha256) { sender := fourZerosSender }
    fourZerosSend).sender.isComplete = true := by
  decide +kernel

/-- An echo that arrives before anything was offered confirms the send. -/
theorem earlyEcho_completes :
    FileSender.openFile fourZeros 9 ["a.bin"] = .ok fourZerosSender ∧
      (run (step sampleSha256) { sender := fourZerosSender }
        [.onPeer (.fileComplete 9 (Vector.replicate 32 0))]).sender.isComplete = true ∧
      ¬ (run (step sampleSha256) { sender := fourZerosSender }
        [.onPeer (.fileComplete 9 (Vector.replicate 32 0))]).Confirmed sampleSha256 := by
  refine ⟨by decide +kernel, by decide +kernel, ?_⟩
  intro hconfirmed
  have hsent := hconfirmed.complete.1
  revert hsent
  decide +kernel

end SendRun

end OmarchyConnect.Protocol
