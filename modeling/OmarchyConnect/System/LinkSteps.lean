/-
# The control channel does not fill up

Apart from the displays, the pictures and the input, what is queued on a link is what an
exchange has on the way: a step of the link is a step of the exchange or leaves it as it
is. The lanes of the exchange are paced, so no more than eight messages are on the way
to the client, and `ctrl` never holds as many as it has room for. Then the host is never
kept from reading, and the link cannot come to a standstill.
-/

import OmarchyConnect.System.Link
import OmarchyConnect.System.Pacing

namespace OmarchyConnect.System

open OmarchyConnect.Library OmarchyConnect.Library.Wire OmarchyConnect.Library.Files
open OmarchyConnect.Library.Runs
open OmarchyConnect.Protocol OmarchyConnect.Host OmarchyConnect.Client

/-! ## The messages of an end -/

/-- The messages that are about transfers. -/
def fileMessages (msgs : List Message) : List Message := msgs.filter fun msg => (fileId msg).isSome

/-- An announcement of the displays. -/
def isDisplays : Message → Bool
  | .displays _ => true
  | _ => false

/-- What an end puts into its channel. -/
def Sends : Side → Message → Prop
  | .host, msg => (fileId msg).isSome ∨ isDisplays msg
  | .client, msg => (fileId msg).isSome ∨ ∃ event, msg = .input event

/-- What the writer of an end writes. -/
def Writes (side : Side) (msg : Message) : Prop := Sends side msg ∨ (side = .host ∧ isVideo msg)

/-- An end may send what is about a transfer. -/
theorem Sends.of_file {side : Side} {msg : Message} (hfile : (fileId msg).isSome) :
    Sends side msg := by
  cases side with
  | host => exact Or.inl hfile
  | client => exact Or.inl hfile

/-- A message about a transfer announces no displays. -/
theorem isDisplays_of_file {msg : Message} (hfile : (fileId msg).isSome) :
    isDisplays msg = false := by
  cases msg <;> first | rfl | cases hfile

/-- An end may send messages about transfers. -/
theorem sends_files {side : Side} {msgs : List Message}
    (hfiles : ∀ msg ∈ msgs, (fileId msg).isSome) :
    ∀ msg ∈ msgs, Sends side msg ∧ isDisplays msg = false :=
  fun msg hmsg => ⟨Sends.of_file (hfiles msg hmsg), isDisplays_of_file (hfiles msg hmsg)⟩

/-- What goes through the channel of the host is no packet. -/
theorem isVideo_of_sends {msg : Message} (h : Sends .host msg) : isVideo msg = false := by
  cases msg <;> first | rfl | (rcases h with hfile | hdisplays <;> contradiction)

section

variable {msg : Message} {msgs : List Message}

/-- No messages are about no transfer. -/
@[simp]
theorem fileMessages_nil : fileMessages [] = [] := rfl

/-- The messages about transfers in two lists. -/
theorem fileMessages_append (first second : List Message) :
    fileMessages (first ++ second) = fileMessages first ++ fileMessages second :=
  List.filter_append ..

/-- A message about a transfer is one of them. -/
theorem fileMessages_cons_of_file (hfile : (fileId msg).isSome) (msgs : List Message) :
    fileMessages (msg :: msgs) = msg :: fileMessages msgs := List.filter_cons_of_pos hfile

/-- Another message is none of them. -/
theorem fileMessages_cons_of_other (hother : ¬ (fileId msg).isSome) (msgs : List Message) :
    fileMessages (msg :: msgs) = fileMessages msgs := List.filter_cons_of_neg hother

/-- All messages are about transfers. -/
theorem fileMessages_eq_self (hfiles : ∀ msg ∈ msgs, (fileId msg).isSome) :
    fileMessages msgs = msgs := List.filter_eq_self.mpr hfiles

end

/-! ## The exchange behind a link -/

/-- The exchange has the slots of the link and its file messages. -/
structure Follows (state : Link) (exchange : Exchange) : Prop where
  xfer : exchange.xfer = state.xfer
  live : exchange.live = state.live
  disk : exchange.disk = state.disk
  next : exchange.next = state.next
  replies : ∀ side, exchange.replies side = fileMessages (state.pipes side).sends
  wire : ∀ side, exchange.wire side.peer = fileMessages (state.pipes side).sent

/-- Every end sends its own kinds of messages, and the displays are sent once. -/
structure Sorted (state : Link) : Prop where
  pipes : ∀ side, (state.pipes side).Holds (Sends side) (Writes side)
  video : ∀ msg ∈ state.video, isVideo msg
  once : (state.pipes .host).content.countP isDisplays ≤ 1

section

variable {setup : Setup} {state : Link} {exchange : Exchange} {side : Side} {msg : Message}
  {rest msgs : List Message}

/-- A pipe with the same file messages. -/
theorem Follows.setPipe (h : Follows state exchange) {pipe : Pipe Message}
    (hsends : fileMessages pipe.sends = fileMessages (state.pipes side).sends)
    (hsent : fileMessages pipe.sent = fileMessages (state.pipes side).sent) :
    Follows (state.setPipe side pipe) exchange := by
  refine ⟨h.xfer, h.live, h.disk, h.next, fun other => ?_, fun other => ?_⟩
  · rw [h.replies other, Link.pipes_setPipe, Function.update_apply]
    split_ifs with hsame
    · rw [hsends, hsame]
    · rfl
  · rw [h.wire other, Link.pipes_setPipe, Function.update_apply]
    split_ifs with hsame
    · rw [hsent, hsame]
    · rfl

/-- A pipe that is replaced holds what it should. -/
theorem Sorted.setPipe (h : Sorted state) {pipe : Pipe Message}
    (hpipe : pipe.Holds (Sends side) (Writes side))
    (honce : side = .host → pipe.content.countP isDisplays ≤ 1) :
    Sorted (state.setPipe side pipe) := by
  constructor
  case pipes =>
    intro other
    rw [Link.pipes_setPipe, Function.update_apply]
    split_ifs with hsame
    · exact hsame ▸ hpipe
    · exact h.pipes other
  case video => exact h.video
  case once =>
    rw [Link.pipes_setPipe, Function.update_apply]
    split_ifs with hsame
    · exact honce hsame.symm
    · exact h.once

/-- An end that has nothing to send gets something to send. -/
theorem Sorted.setSends (h : Sorted state) (hnone : (state.pipes side).sends = [])
    (hmsgs : ∀ msg ∈ msgs, Sends side msg ∧ isDisplays msg = false) :
    Sorted (state.setSends side msgs) := by
  refine h.setPipe ⟨?_, (h.pipes side).written⟩ ?_
  · intro msg hmsg
    rcases List.mem_append.mp hmsg with hnew | hqueued
    · exact (hmsgs msg hnew).1
    · exact (h.pipes side).queued msg (List.mem_append_right _ hqueued)
  · rintro rfl
    have hcount : msgs.countP isDisplays = 0 := by
      rw [List.countP_eq_zero]
      intro msg hmsg
      simp [(hmsgs msg hmsg).2]
    have hbefore := h.once
    simp only [Pipe.content, Pipe.sent, hnone, List.append_nil, List.countP_append] at hbefore ⊢
    omega

/-- A message is taken off the wire. -/
theorem Sorted.setWire (h : Sorted state) (hwire : (state.pipes side).wire = msg :: rest) :
    Sorted (state.setWire side rest) := by
  refine h.setPipe ⟨(h.pipes side).queued, fun other hother => ?_⟩ ?_
  · refine (h.pipes side).written other ?_
    rw [hwire]
    exact List.mem_cons_of_mem msg hother
  · rintro rfl
    have hbefore := h.once
    simp only [Pipe.content, Pipe.sent, hwire, List.countP_append, List.countP_cons] at hbefore ⊢
    omega

/-- The message that arrives first was written. -/
theorem Sorted.writes (h : Sorted state) (hwire : (state.pipes side).wire = msg :: rest) :
    Writes side msg := (h.pipes side).written msg (by simp [hwire])

/-- A step of the exchange, or none. -/
def Matched (setup : Setup) (exchange after : Exchange) : Prop :=
  after = exchange ∨ ∃ event, after = exchange.step setup event

/-! ## Inside a pipe -/

/-- A message goes into the channel. -/
theorem Follows.send (h : Follows state exchange) (side : Side) (capacity : ℕ) :
    ∃ after, Matched setup exchange after ∧
      Follows (state.setPipe side ((state.pipes side).send capacity)) after := by
  cases (state.pipes side).send_cases capacity with
  | inl hkept =>
      refine ⟨exchange, Or.inl rfl, h.setPipe ?_ ?_⟩
      · rw [hkept.1]
      · rw [hkept.1]
  | inr hmoved =>
      obtain ⟨msg, rest, hsends, -, hsend⟩ := hmoved
      rw [hsend]
      by_cases hfile : (fileId msg).isSome
      · have hreplies := h.replies side
        rw [hsends, fileMessages_cons_of_file hfile] at hreplies
        refine ⟨exchange.write side, Or.inr ⟨.write side, rfl⟩, ?_⟩
        simp only [Exchange.write, hreplies]
        refine ⟨h.xfer, h.live, h.disk, h.next, fun other => ?_, fun other => ?_⟩
        · rcases eq_or_eq_peer other side with rfl | rfl
          · simp
          · simpa using h.replies side.peer
        · rcases eq_or_eq_peer other side with rfl | rfl
          · simp [Pipe.sent_append_queue, fileMessages_append, h.wire,
              fileMessages_cons_of_file hfile]
          · simpa using h.wire side.peer
      · refine ⟨exchange, Or.inl rfl, h.setPipe ?_ ?_⟩
        · rw [hsends, fileMessages_cons_of_other hfile]
        · rw [Pipe.sent_append_queue, fileMessages_append, fileMessages_cons_of_other hfile]
          exact List.append_nil _

/-! ## Between the pipes -/

/-- All that an end has to write is file messages. -/
theorem Exchange.Good.replies_files (hgood : exchange.Good setup) (side : Side) :
    ∀ msg ∈ exchange.replies side, (fileId msg).isSome := by
  intro msg hmsg
  obtain ⟨other, hdirection⟩ :=
    hgood.directed side.peer msg (by simp [Exchange.inFlight, hmsg])
  obtain ⟨id, hid, -⟩ := Option.map_eq_some_iff.mp hdirection
  simp [hid]

/-- The dispatcher of an end changes the slots and the disk. -/
theorem Exchange.take_snd (setup : Setup) (state : Exchange) (side : Side) (msg : Message) :
    ∃ xfer live disk, (state.take setup side msg).2 = { state with xfer, live, disk } := by
  cases side with
  | client => exact ⟨state.xfer, _, _, rfl⟩
  | host => exact ⟨_, state.live, _, rfl⟩

/-- A file message is delivered. -/
theorem Follows.deliver (h : Follows state exchange) (hgood : exchange.Good setup)
    (hnone : (state.pipes side).sends = []) (hwire : (state.pipes side.peer).wire = msg :: rest)
    (hfile : (fileId msg).isSome) :
    ∃ replies xfer live disk,
      exchange.take setup side msg = (.ok replies, { exchange with xfer, live, disk }) ∧
      (∀ reply ∈ replies, (fileId reply).isSome) ∧
      Follows { (state.setWire side.peer rest).setSends side replies with xfer, live, disk }
        (exchange.deliver setup side) := by
  have harrived : exchange.wire side =
      msg :: fileMessages (rest ++ (state.pipes side.peer).writing.toList ++
        (state.pipes side.peer).queue) := by
    have hsent := h.wire side.peer
    rw [peer_peer, Pipe.sent, hwire, List.cons_append, List.cons_append,
      fileMessages_cons_of_file hfile] at hsent
    exact hsent
  have hstepped := Exchange.stepped hgood (.deliver side)
  obtain ⟨replies, houtcome, -⟩ := hstepped.succeeds
  obtain ⟨xfer, live, disk, hafter⟩ := Exchange.take_snd setup exchange side msg
  have htake : exchange.take setup side msg =
      (.ok replies, { exchange with xfer, live, disk }) := by
    simp only [Exchange.outcome, harrived] at houtcome
    refine Prod.ext ?_ hafter
    cases hresult : (exchange.take setup side msg).1 with
    | error err => simp [hresult] at houtcome
    | ok msgs => simpa [hresult] using houtcome
  have hreplies : (exchange.deliver setup side).replies side = replies := by
    simp [Exchange.deliver, harrived, htake, h.replies, hnone]
  have hfiles : ∀ reply ∈ replies, (fileId reply).isSome := by
    rw [← hreplies]
    exact Exchange.Good.replies_files hstepped.good side
  refine ⟨replies, xfer, live, disk, htake, hfiles, ?_⟩
  simp only [Exchange.deliver, harrived, htake]
  refine ⟨rfl, rfl, rfl, h.next, fun other => ?_, fun other => ?_⟩
  · rcases eq_or_eq_peer other side with rfl | rfl
    · simp [Link.setSends, h.replies, hnone, fileMessages_eq_self hfiles]
    · simpa [Link.setSends, Link.setWire] using h.replies side.peer
  · rcases eq_or_eq_peer other side with rfl | rfl
    · simpa [Link.setSends, Link.setWire, Pipe.sent] using h.wire other
    · simp [Link.setSends, Link.setWire, Pipe.sent]

/-- A transfer starts. -/
theorem Follows.start (h : Follows state exchange) (hnone : (state.pipes side).sends = [])
    (path : Path) (hfree : (exchange.slots side).outgoing = none) :
    ∃ offer xfer live,
      exchange.offer setup side path = (.ok [offer], { exchange with xfer, live }) ∧
      (fileId offer).isSome ∧
      Follows
        { state.setSends side [offer] with
          xfer, live, next := Function.update state.next side (state.next side + 1) }
        (exchange.start setup side path) := by
  obtain ⟨xfer, live, hoffer, -⟩ := exchange.offer_eq setup side path hfree
  generalize hmsg : Message.fileOffer (newId side (exchange.next side)) (offeredName path)
    (setup.size side path) = offer at hoffer
  have hfile : (fileId offer).isSome := by
    rw [← hmsg]
    rfl
  refine ⟨offer, xfer, live, hoffer, hfile, ?_⟩
  simp only [Exchange.start, hfree, hoffer]
  refine ⟨rfl, rfl, h.disk, ?_, fun other => ?_, fun other => ?_⟩
  · simp only [h.next]
  · rcases eq_or_eq_peer other side with rfl | rfl
    · simp [Link.setSends, h.replies, hnone, fileMessages_cons_of_file hfile]
    · simpa [Link.setSends] using h.replies side.peer
  · rcases eq_or_eq_peer other side with rfl | rfl
    · simpa [Link.setSends, Pipe.sent] using h.wire other
    · simpa [Link.setSends] using h.wire side.peer

/-- The receiver of an end is live. -/
theorem Exchange.Good.live (hgood : exchange.Good setup) {receiver : FileReceiver}
    (hinc : (exchange.slots side).incoming = some receiver) : receiver.Live := by
  have hok := hgood.lanes side.peer
  have hlane : (exchange.lane setup side.peer).inc = some receiver := by
    rw [← hinc]
    simp only [Exchange.lane, peer_peer]
  have hout : ∃ sender, (exchange.lane setup side.peer).out = some sender := by
    cases hok with
    | idle _ hnone => exact absurd (hnone.symm.trans hlane) (by simp)
    | echoed _ _ hout => exact ⟨_, hout⟩
    | busy _ _ hstage =>
        obtain ⟨sender, hout, -⟩ := hstage.out
        exact ⟨sender, hout⟩
  obtain ⟨sender, hsender⟩ := hout
  exact (hok.receiver hsender hlane).1

/-- A message of no transfer passes through the dispatcher. -/
theorem Exchange.Good.takeFileReplies_other (hgood : exchange.Good setup) (side : Side)
    (hother : fileId msg = none) :
    takeFileReplies setup.sha256 (Exchange.io setup side) (exchange.slots side) exchange.disk
        (setup.downloads side) msg =
      (.ok [], exchange.slots side, exchange.disk) := by
  have hpass : (exchange.slots side).PassesSender msg := by
    intro sender hsender hfor
    have hid := Exchange.fileId_of_forSender hfor
    rw [hother] at hid
    cases hid
  have hoffer : ∀ id name size, msg ≠ .fileOffer id name size := by
    rintro id name size rfl
    cases hother
  rw [takeFileReplies_of_passes setup.sha256 _ _ _ hpass]
  cases hinc : (exchange.slots side).incoming with
  | none =>
      unfold takeIncoming
      split
      next id name size => exact absurd rfl (hoffer id name size)
      next => simp only [hinc]
  | some receiver =>
      have hlive := hgood.live hinc
      have hignored : receiver.handle setup.sha256 (Exchange.io setup side) exchange.disk msg =
          (.ok [], receiver, exchange.disk) := by
        have hhandled := receiver.handled setup.sha256 (Exchange.io setup side) exchange.disk msg
          hlive
        generalize receiver.handle setup.sha256 (Exchange.io setup side) exchange.disk msg = result
          at hhandled ⊢
        cases hhandled with
        | ignored => rfl
        | _ => cases hother
      have hslots : { exchange.slots side with incoming := some receiver } =
          exchange.slots side := by rw [← hinc]
      rw [takeIncoming_of_handled setup.sha256 hoffer hinc hignored, FileReceiver.isComplete,
        hlive.1, if_neg Bool.false_ne_true, hslots]

/-- A message of no transfer is taken off the wire. -/
theorem Follows.setWire (h : Follows state exchange)
    (hwire : (state.pipes side).wire = msg :: rest) (hother : ¬ (fileId msg).isSome) :
    Follows (state.setWire side rest) exchange := by
  refine h.setPipe rfl ?_
  simp only [Pipe.sent, hwire, List.cons_append, fileMessages_cons_of_other hother]

/-- Sending something else is not seen by the exchange. -/
theorem Follows.setSends (h : Follows state exchange) (hnone : (state.pipes side).sends = [])
    (hothers : fileMessages msgs = []) : Follows (state.setSends side msgs) exchange := by
  refine h.setPipe ?_ rfl
  rw [hothers, hnone]
  rfl

/-! ## Steps -/

/-- An exchange that fits behind the link, with paced lanes. -/
structure Behind (setup : Setup) (state : Link) (exchange : Exchange) : Prop where
  good : exchange.Good setup
  paced : ∀ side, Paced (exchange.lane setup side)
  follows : Follows state exchange
  sorted : Sorted state

/-- What the exchange matches is behind the link again. -/
theorem Behind.matched {next : Link} {after : Exchange} (h : Behind setup state exchange)
    (hmatched : Matched setup exchange after) (hfollows : Follows next after)
    (hsorted : Sorted next) : Behind setup next after := by
  cases hmatched with
  | inl hsame =>
      rw [hsame] at hfollows ⊢
      exact ⟨h.good, h.paced, hfollows, hsorted⟩
  | inr hstep =>
      obtain ⟨event, rfl⟩ := hstep
      exact ⟨(Exchange.stepped h.good event).good, Exchange.paced_step h.good h.paced event,
        hfollows, hsorted⟩

/-- The exchange waits. -/
theorem Behind.waits {next : Link} (h : Behind setup state exchange)
    (hfollows : Follows next exchange) (hsorted : Sorted next) :
    ∃ after, Behind setup next after := ⟨exchange, h.good, h.paced, hfollows, hsorted⟩

/-- Moving a message into the channel is not seen by the exchange. -/
theorem Behind.send (h : Behind setup state exchange) (side : Side) (capacity : ℕ) :
    ∃ after, Behind setup (state.setPipe side ((state.pipes side).send capacity)) after := by
  have hsend : ∃ after, Matched setup exchange after ∧
      Follows (state.setPipe side ((state.pipes side).send capacity)) after :=
    h.follows.send side capacity
  obtain ⟨after, hmatched, hfollows⟩ := hsend
  refine ⟨after, h.matched hmatched hfollows ?_⟩
  refine h.sorted.setPipe ((h.sorted.pipes side).send capacity) ?_
  rintro rfl
  rw [Pipe.content_send]
  exact h.sorted.once

/-- Polling the writer is not seen by the exchange. -/
theorem Behind.poll (h : Behind setup state exchange) (side : Side) :
    ∃ after, Behind setup (state.setPipe side (state.pipes side).poll) after := by
  refine h.waits (h.follows.setPipe ?_ ?_) (h.sorted.setPipe ?_ ?_)
  · rw [Pipe.sends_poll]
  · rw [Pipe.sent_poll]
  · exact (h.sorted.pipes side).poll fun msg => Or.inl
  · rintro rfl
    rw [Pipe.content_poll]
    exact h.sorted.once

/-- Writing a message is not seen by the exchange. -/
theorem Behind.wrote (h : Behind setup state exchange) (side : Side) (room : ℕ) :
    ∃ after, Behind setup (state.setPipe side ((state.pipes side).wrote room)) after := by
  refine h.waits (h.follows.setPipe ?_ ?_) (h.sorted.setPipe ?_ ?_)
  · rw [Pipe.sends_wrote]
  · rw [Pipe.sent_wrote]
  · exact (h.sorted.pipes side).wrote room
  · rintro rfl
    rw [Pipe.content_wrote]
    exact h.sorted.once

/-- A packet goes into the free slot. -/
theorem Behind.frame (h : Behind setup state exchange) (hvideo : isVideo msg) :
    ∃ after, Behind setup (state.hostFrame msg) after := by
  unfold Link.hostFrame
  split
  next => exact ⟨exchange, h⟩
  next =>
    refine h.waits ⟨h.follows.xfer, h.follows.live, h.follows.disk, h.follows.next,
      h.follows.replies, h.follows.wire⟩ ⟨h.sorted.pipes, ?_, h.sorted.once⟩
    intro found hfound
    obtain rfl := Option.some.inj hfound
    exact hvideo

/-- A packet is about no transfer and announces no displays. -/
theorem fileId_of_video (hvideo : isVideo msg) :
    ¬ (fileId msg).isSome ∧ isDisplays msg = false := by
  cases msg with
  | video => exact ⟨Bool.false_ne_true, rfl⟩
  | _ => cases hvideo

/-- Writing a packet is not seen by the exchange. -/
theorem Behind.pollVideo (h : Behind setup state exchange) :
    ∃ after, Behind setup state.hostPollVideo after := by
  unfold Link.hostPollVideo
  split
  next msg hwriting hvideo =>
    have hpacket := h.sorted.video msg hvideo
    obtain ⟨hother, hdisplays⟩ := fileId_of_video hpacket
    have hpipe : ({ state.pipes .host with writing := some msg } : Pipe Message).Holds
        (Sends .host) (Writes .host) := by
      refine ⟨(h.sorted.pipes .host).queued, fun found hfound => ?_⟩
      rcases List.mem_append.mp hfound with hwire | hnew
      · exact (h.sorted.pipes .host).written found (List.mem_append_left _ hwire)
      · obtain rfl : found = msg := by simpa using hnew
        exact Or.inr ⟨rfl, hpacket⟩
    have hfollows : Follows (state.setPipe .host { state.pipes .host with writing := some msg })
        exchange := by
      refine h.follows.setPipe rfl ?_
      simp [Pipe.sent, hwriting, fileMessages_append, fileMessages_cons_of_other hother]
    have honce := h.sorted.once
    have hsorted := h.sorted.setPipe hpipe fun _ => by
      simpa [Pipe.content, Pipe.sent, hwriting, hdisplays] using honce
    exact h.waits ⟨hfollows.xfer, hfollows.live, hfollows.disk, hfollows.next, hfollows.replies,
      hfollows.wire⟩ ⟨hsorted.pipes, by simp, hsorted.once⟩
  next => exact ⟨exchange, h⟩

/-- An input is not seen by the exchange. -/
theorem Behind.input (h : Behind setup state exchange) (event : InputEvent) :
    ∃ after, Behind setup (state.clientInput event) after := by
  unfold Link.clientInput
  split
  next hnone =>
    refine h.waits (h.follows.setSends hnone rfl) (h.sorted.setSends hnone ?_)
    intro msg hmsg
    rw [List.mem_singleton.mp hmsg]
    exact ⟨Or.inr ⟨event, rfl⟩, rfl⟩
  next => exact ⟨exchange, h⟩

/-- Either end offers a file. -/
theorem Behind.start (h : Behind setup state exchange) (hnone : (state.pipes side).sends = [])
    (path : Path) (hfree : (exchange.slots side).outgoing = none) :
    ∃ offer xfer live,
      exchange.offer setup side path = (.ok [offer], { exchange with xfer, live }) ∧
      ∃ after, Behind setup
        { state.setSends side [offer] with
          xfer, live, next := Function.update state.next side (state.next side + 1) } after := by
  obtain ⟨offer, xfer, live, hoffer, hfile, hfollows⟩ := h.follows.start hnone path hfree
  have hsends : ∀ msg ∈ [offer], (fileId msg).isSome := by simpa using hfile
  have hsorted := h.sorted.setSends hnone (sends_files hsends)
  exact ⟨offer, xfer, live, hoffer, _, h.matched (Or.inr ⟨.start side path, rfl⟩) hfollows
    ⟨hsorted.pipes, hsorted.video, hsorted.once⟩⟩

/-- An offer of the host starts a transfer in the exchange. -/
theorem Behind.hostOffer (h : Behind setup state exchange) (path : Path) :
    ∃ after, Behind setup (state.hostOffer setup path) after := by
  unfold Link.hostOffer
  split
  next hnone hfree =>
    have hslot : (exchange.slots .host).outgoing = none := by
      rw [Exchange.slots, h.follows.xfer]
      exact hfree
    obtain ⟨offer, xfer, live, hoffer, hafter⟩ := h.start hnone path hslot
    simp only [Exchange.offer, h.follows.xfer, h.follows.next] at hoffer
    generalize offerFile setup.sha256 (Exchange.io setup .host) state.xfer
      (newId .host (state.next .host)) path = offered at hoffer ⊢
    obtain ⟨result, slots⟩ := offered
    cases result with
    | error err => cases hoffer
    | ok msgs =>
        simp only [Prod.mk.injEq, Except.ok.injEq, Exchange.mk.injEq] at hoffer
        obtain ⟨rfl, rfl, rfl, -⟩ := hoffer
        rw [h.follows.live] at hafter
        exact hafter
  next => exact ⟨exchange, h⟩

/-- A file that the client sends starts a transfer in the exchange. -/
theorem Behind.clientSendFile (h : Behind setup state exchange) (path : Path) :
    ∃ after, Behind setup (state.clientSendFile setup path) after := by
  unfold Link.clientSendFile
  split
  next hnone hfree =>
    have hslot : (exchange.slots .client).outgoing = none := by
      rw [Exchange.slots, h.follows.live]
      exact hfree
    obtain ⟨offer, xfer, live, hoffer, hafter⟩ := h.start hnone path hslot
    simp only [Exchange.offer, h.follows.live, h.follows.next] at hoffer
    generalize queueSend setup.sha256 (Exchange.io setup .client) state.live
      (newId .client (state.next .client)) path = offered at hoffer ⊢
    obtain ⟨result, slots⟩ := offered
    simp only [Prod.mk.injEq, Exchange.mk.injEq] at hoffer
    obtain ⟨rfl, rfl, rfl, -⟩ := hoffer
    rw [h.follows.xfer] at hafter
    exact hafter
  next => exact ⟨exchange, h⟩

/-- Either end takes a file message. -/
theorem Behind.deliver (h : Behind setup state exchange) (hnone : (state.pipes side).sends = [])
    (hwire : (state.pipes side.peer).wire = msg :: rest) (hfile : (fileId msg).isSome) :
    ∃ replies xfer live disk,
      exchange.take setup side msg = (.ok replies, { exchange with xfer, live, disk }) ∧
      ∃ after, Behind setup
        { (state.setWire side.peer rest).setSends side replies with xfer, live, disk } after := by
  obtain ⟨replies, xfer, live, disk, htake, hfiles, hfollows⟩ :=
    h.follows.deliver h.good hnone hwire hfile
  have hkept : ((state.setWire side.peer rest).pipes side).sends = [] := by
    simpa [Link.setWire] using hnone
  have hsorted := (h.sorted.setWire hwire).setSends hkept (sends_files hfiles)
  exact ⟨replies, xfer, live, disk, htake, _,
    h.matched (Or.inr ⟨.deliver side, rfl⟩) hfollows
      ⟨hsorted.pipes, hsorted.video, hsorted.once⟩⟩

/-- What the host takes is delivered in the exchange, if it is about a transfer. -/
theorem Behind.hostTake (h : Behind setup state exchange) :
    ∃ after, Behind setup (state.hostTake setup) after := by
  unfold Link.hostTake
  split
  next msg rest hnone hwire =>
    have hkind : Sends .client msg := by
      rcases h.sorted.writes hwire with hsends | hvideo
      · exact hsends
      · cases hvideo.1
    rcases hkind with hfile | hinput
    · obtain ⟨replies, xfer, live, disk, htake, hafter⟩ := h.deliver hnone hwire hfile
      simp only [Exchange.take, h.follows.xfer, h.follows.disk] at htake
      split
      next => cases hfile
      next =>
        generalize takeFileReplies setup.sha256 (Exchange.io setup .host) state.xfer state.disk
          (setup.downloads .host) msg = taken at htake ⊢
        obtain ⟨result, slots, after⟩ := taken
        simp only [Prod.mk.injEq, Exchange.mk.injEq] at htake
        obtain ⟨rfl, rfl, rfl, rfl, -⟩ := htake
        rw [h.follows.live] at hafter
        exact hafter
    · obtain ⟨event, rfl⟩ := hinput
      have hother : fileId (.input event) = none := rfl
      have htake := h.good.takeFileReplies_other .host hother
      simp only [Exchange.slots, h.follows.xfer, h.follows.disk] at htake
      have hkept : ((state.setWire .client rest).pipes .host).sends = [] := by
        simpa [Link.setWire] using hnone
      have hfollows := (h.follows.setWire hwire Bool.false_ne_true).setSends hkept fileMessages_nil
      have hnothing : ∀ msg ∈ ([] : List Message), (fileId msg).isSome := by simp
      have hsorted := (h.sorted.setWire hwire).setSends hkept (sends_files hnothing)
      simp only [htake]
      exact h.waits hfollows hsorted
  next => exact ⟨exchange, h⟩

/-- What the client takes is delivered in the exchange, if it is about a transfer. -/
theorem Behind.clientTake (h : Behind setup state exchange) :
    ∃ after, Behind setup (state.clientTake setup) after := by
  unfold Link.clientTake
  split
  next msg rest hnone hwire =>
    by_cases hfile : (fileId msg).isSome
    · obtain ⟨replies, xfer, live, disk, htake, hafter⟩ := h.deliver hnone hwire hfile
      simp only [Exchange.take, h.follows.live, h.follows.disk] at htake
      split
      next => cases hfile
      next => cases hfile
      next => cases hfile
      next => cases hfile
      next =>
        generalize takeFile setup.sha256 (Exchange.io setup .client) state.live state.disk
          (setup.downloads .client) msg = taken at htake ⊢
        obtain ⟨result, slots, after⟩ := taken
        simp only [Prod.mk.injEq, Exchange.mk.injEq] at htake
        obtain ⟨rfl, rfl, rfl, rfl, -⟩ := htake
        rw [h.follows.xfer] at hafter
        exact hafter
    · have hrest : ∃ after, Behind setup (state.setWire .host rest) after :=
        h.waits (h.follows.setWire hwire hfile) (h.sorted.setWire hwire)
      rcases h.sorted.writes hwire with (hsends | hdisplays) | ⟨-, hvideo⟩
      · exact absurd hsends hfile
      · cases msg with
        | displays => exact hrest
        | _ => cases hdisplays
      · cases msg with
        | video => exact hrest
        | _ => cases hvideo
  next => exact ⟨exchange, h⟩

/-- Every step of the link leaves an exchange behind it. -/
theorem Behind.step (h : Behind setup state exchange) (room : ℕ) (event : LinkEvent) :
    ∃ after, Behind setup (state.step setup room event) after := by
  cases event with
  | send side => exact h.send side (ctrlCapacity side)
  | poll side => exact h.poll side
  | wrote side => exact h.wrote side room
  | hostOffer path => exact h.hostOffer path
  | hostFrame displayId ptsMs keyframe data => exact h.frame rfl
  | hostPollVideo => exact h.pollVideo
  | hostTake => exact h.hostTake
  | clientTake => exact h.clientTake
  | clientInput event => exact h.input event
  | clientSendFile path => exact h.clientSendFile path

/-- At first nothing is queued. -/
theorem behind_init (setup : Setup) (displays : List DisplayInfo) :
    Behind setup (Link.init setup displays) (Exchange.init setup) where
  good := Exchange.good_init setup
  paced := Exchange.paced_init setup
  follows := by
    refine ⟨rfl, rfl, rfl, rfl, fun side => ?_, fun side => ?_⟩
    · cases side <;> rfl
    · cases side <;> rfl
  sorted := by
    refine ⟨fun side => ?_, by simp [Link.init], ?_⟩
    · cases side with
      | client => exact ⟨by simp [Link.init], by simp [Link.init]⟩
      | host => exact ⟨by simp [Link.init, Sends, isDisplays], by simp [Link.init]⟩
    · simp [Link.init, Pipe.content, Pipe.sent, isDisplays]

/-! ## What fits into the channel -/

/-- What is of one kind or another is counted by the counts of both. -/
theorem countP_le_add {p q r : Message → Bool} (h : ∀ msg ∈ msgs, p msg → q msg ∨ r msg) :
    msgs.countP p ≤ msgs.countP q + msgs.countP r := by
  induction msgs with
  | nil => simp
  | cons msg msgs ih =>
      have hrest := ih fun other hother => h other (List.mem_cons_of_mem msg hother)
      have hfirst := h msg List.mem_cons_self
      simp only [List.countP_cons]
      split_ifs <;> first | omega | simp_all

/-- Eight messages of transfers, the displays, and what the client is replying to. -/
theorem Behind.unprocessed_le (h : Behind setup state exchange) : state.unprocessed ≤ 10 := by
  have hpipe := h.sorted.pipes .host
  have hqueue : (state.pipes .host).queue.countP (fun msg => !isVideo msg) =
      (state.pipes .host).queue.length := by
    rw [List.countP_eq_length]
    intro msg hmsg
    rw [isVideo_of_sends (hpipe.queued msg (List.mem_append_right _ hmsg))]
    rfl
  have hkinds : ∀ msg ∈ (state.pipes .host).sent, !isVideo msg →
      (fileId msg).isSome ∨ isDisplays msg := by
    intro msg hmsg hvideo
    have hwrites : Writes .host msg := by
      rcases List.mem_append.mp hmsg with hwritten | hqueued
      · exact hpipe.written msg hwritten
      · exact Or.inl (hpipe.queued msg (List.mem_append_right _ hqueued))
    rcases hwrites with hsends | ⟨-, hpacket⟩
    · exact hsends
    · simp [hpacket] at hvideo
  have hcount := countP_le_add hkinds
  have hfiles : (state.pipes .host).sent.countP (fun msg => (fileId msg).isSome) ≤ 8 := by
    have hflight := Exchange.inFlight_length_le h.good h.paced .client
    have hwire := h.follows.wire .host
    rw [Exchange.inFlight, List.length_append] at hflight
    rw [List.countP_eq_length_filter]
    have hsame : exchange.wire .client = fileMessages (state.pipes .host).sent := hwire
    rw [hsame] at hflight
    exact (Nat.le_add_right _ _).trans hflight
  have hdisplays : (state.pipes .host).sent.countP isDisplays ≤ 1 := by
    have honce := h.sorted.once
    rw [Pipe.content, List.countP_append] at honce
    omega
  have hclient : (if (state.pipes .client).sends = [] then 0 else 1) ≤ 1 := by
    split_ifs <;> omega
  have hsent : (state.pipes .host).sent.countP (fun msg => !isVideo msg) =
      ((state.pipes .host).wire ++ (state.pipes .host).writing.toList).countP
        (fun msg => !isVideo msg) + (state.pipes .host).queue.length := by
    rw [Pipe.sent, List.countP_append, hqueue]
  simp only [Link.unprocessed, ← List.countP_eq_length_filter]
  omega

/-- The channel of the host is never full. -/
theorem Behind.queue_length_lt (h : Behind setup state exchange) :
    (state.pipes .host).queue.length < ctrlCapacity .host := by
  have hbound := h.unprocessed_le
  have hcapacity : ctrlCapacity .host = 32 := rfl
  simp only [Link.unprocessed] at hbound
  omega

/-- Taking a message changes the link. -/
theorem Link.hostTake_ne (hnone : (state.pipes .host).sends = [])
    (hwire : (state.pipes .client).wire = msg :: rest) : state.hostTake setup ≠ state := by
  have htaken : ((state.hostTake setup).pipes .client).wire = rest := by
    unfold Link.hostTake
    rw [hnone, hwire]
    cases msg with
    | ping => simp [Link.setWire, Link.setSends]
    | _ =>
        simp only
        split <;> simp [Link.setWire, Link.setSends]
  intro hsame
  rw [hsame, hwire] at htaken
  exact List.cons_ne_self msg rest htaken

/-- Taking a message changes the link, at the client as well. -/
theorem Link.clientTake_ne (hnone : (state.pipes .client).sends = [])
    (hwire : (state.pipes .host).wire = msg :: rest) : state.clientTake setup ≠ state := by
  have htaken : ((state.clientTake setup).pipes .host).wire = rest := by
    unfold Link.clientTake
    rw [hnone, hwire]
    cases msg with
    | ping => simp [Link.setWire, Link.setSends]
    | pong => simp [Link.setWire]
    | displays => simp [Link.setWire]
    | video => simp [Link.setWire]
    | _ =>
        simp only
        split <;> simp [Link.setWire, Link.setSends]
  intro hsame
  rw [hsame, hwire] at htaken
  exact List.cons_ne_self msg rest htaken

/-- A pipe that changes nothing is the same. -/
theorem Link.eq_of_setPipe_eq {pipe : Pipe Message} (hsame : state.setPipe side pipe = state) :
    pipe = state.pipes side := by
  have hpipes := congrFun (congrArg Link.pipes hsame) side
  simpa using hpipes

/-- Without a move in the pipes, and with nothing to take, nothing is queued. -/
theorem Behind.idle (h : Behind setup state exchange) {room : ℕ} (hroom : 0 < room)
    (hstill : ∀ event, Link.Internal event → state.step setup room event = state) :
    state.Idle := by
  have hstuck : ∀ side, (state.pipes side).Stuck (ctrlCapacity side) room := fun side =>
    ⟨Link.eq_of_setPipe_eq (hstill (.send side) trivial),
      Link.eq_of_setPipe_eq (hstill (.poll side) trivial),
      Link.eq_of_setPipe_eq (hstill (.wrote side) trivial)⟩
  have hcapacity : ∀ side, 0 < ctrlCapacity side := by
    intro side
    cases side <;> decide
  -- The reader is free, as `ctrl` has room, so nothing waits for it.
  have hreader := (hstuck .host).sends_eq_nil h.queue_length_lt
  have hup : (state.pipes .client).wire = [] := by
    cases hwire : (state.pipes .client).wire with
    | nil => rfl
    | cons msg rest => exact absurd (hstill .hostTake trivial) (Link.hostTake_ne hreader hwire)
  have hclient := (hstuck .client).empty (hcapacity _) hroom hup
  have hdown : (state.pipes .host).wire = [] := by
    cases hwire : (state.pipes .host).wire with
    | nil => rfl
    | cons msg rest =>
        exact absurd (hstill .clientTake trivial) (Link.clientTake_ne hclient.1 hwire)
  have hhost := (hstuck .host).empty (hcapacity _) hroom hdown
  constructor
  case pipes =>
    intro side
    cases side with
    | client => exact hclient
    | host => exact hhost
  case video =>
    have hwriting : (state.pipes .host).writing = none := by
      have hnone := hhost.2
      simp only [Pipe.sent, List.append_eq_nil_iff, Option.toList_eq_nil_iff] at hnone
      exact hnone.1.2
    cases hvideo : state.video with
    | none => rfl
    | some msg =>
        have hsame := congrArg Link.video (hstill .hostPollVideo trivial)
        simp [Link.step, Link.hostPollVideo, hwriting, hvideo] at hsame

/-- The queues flow wherever an exchange is behind them. -/
theorem Behind.flows (h : Behind setup state exchange) (room : ℕ) : state.Flows setup room := by
  constructor
  case unprocessed => exact Nat.lt_of_le_of_lt h.unprocessed_le (by decide)
  case sends =>
    intro msg rest hsends
    have hroom := h.queue_length_lt
    simp only [Link.step, Link.pipes_setPipe, Function.update_self, Pipe.send, hsends, if_pos hroom]
  case moves =>
    intro hroom
    by_cases hstill : ∀ event, Link.Internal event → state.step setup room event = state
    · exact Or.inl (h.idle hroom hstill)
    · obtain ⟨event, hevent⟩ := not_forall.mp hstill
      exact Or.inr ⟨event, Classical.not_imp.mp hevent⟩

/-- In every run `ctrl` keeps room for its next message, so the reader never waits for
it, and something can move until nothing is queued. -/
theorem Link.keeps_flowing (setup : Setup) (room : ℕ) (displays : List DisplayInfo)
    (events : List LinkEvent) :
    (run (Link.step setup room) (Link.init setup displays) events).Flows setup room := by
  have hbehind : ∃ exchange,
      Behind setup (run (Link.step setup room) (Link.init setup displays) events) exchange := by
    refine invariant_of_step (Link.step setup room) (fun state => ∃ exchange,
      Behind setup state exchange) ?_ ⟨_, behind_init setup displays⟩ events
    rintro state event ⟨exchange, h⟩
    exact h.step room event
  obtain ⟨exchange, h⟩ := hbehind
  exact h.flows room

end

end OmarchyConnect.System
