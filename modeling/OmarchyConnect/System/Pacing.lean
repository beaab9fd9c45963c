/-
# What a lane holds at most

A lane that is paced has its sender, its receiver and its messages at the ends of
chunks. At no point of a transfer it holds more than four messages in one direction.
-/

import OmarchyConnect.Protocol.Pacing
import OmarchyConnect.System.EndToEnd

namespace OmarchyConnect.System

open OmarchyConnect.Library.Wire OmarchyConnect.Library.Files OmarchyConnect.Library.Window
open OmarchyConnect.Library.Runs
open OmarchyConnect.Protocol OmarchyConnect.Host OmarchyConnect.Client

/-! ## A paced lane -/

/-- The lane is at the ends of the sender's chunks. -/
structure PacedBy (lane : Lane) (sender : FileSender) : Prop where
  marks : sender.OnMarks
  receiver : ∀ receiver ∈ lane.inc, ChunkMark sender.size receiver.received.toNat
  forward : ∀ msg ∈ lane.forward, ChunkOnMarks sender.size msg
  backward : ∀ msg ∈ lane.backward, AckOnMarks sender.size msg

/-- A lane with a sender is paced by it. -/
def Paced (lane : Lane) : Prop := ∀ sender ∈ lane.out, PacedBy lane sender

section

variable {setup : Setup} {side : Side} {id : UInt32} {path : Path} {lane : Lane}

/-- What comes back on a lane is for its sender. -/
theorem LaneOk.forSender {msg : Message} {rest : List Message} (hok : LaneOk setup side lane)
    (hbackward : lane.backward = msg :: rest) :
    ∃ sender, lane.out = some sender ∧ msg.forSender = some sender.id := by
  cases hok with
  | idle _ _ _ hnone => exact absurd (hbackward.symm.trans hnone) (List.cons_ne_nil _ _)
  | echoed _ _ hout _ _ hone =>
      obtain ⟨rfl, -⟩ := List.cons.inj (hbackward.symm.trans hone)
      exact ⟨_, hout, rfl⟩
  | busy _ _ hstage =>
      cases hstage with
      | offered _ _ _ hnone => exact absurd (hbackward.symm.trans hnone) (List.cons_ne_nil _ _)
      | accepted hout _ hone =>
          obtain ⟨rfl, -⟩ := List.cons.inj (hbackward.symm.trans hone)
          exact ⟨_, hout, rfl⟩
      | @streaming _ _ _ _ numbers hout _ hacks =>
          cases numbers with
          | nil => exact absurd (hbackward.symm.trans hacks) (List.cons_ne_nil _ _)
          | cons number numbers =>
              obtain ⟨rfl, -⟩ := List.cons.inj (hbackward.symm.trans hacks)
              exact ⟨_, hout, rfl⟩
      | completing _ _ _ _ hnone =>
          exact absurd (hbackward.symm.trans hnone) (List.cons_ne_nil _ _)

/-- The receiver of a lane is live and knows the size. -/
theorem LaneOk.receiver {sender : FileSender} {receiver : FileReceiver}
    (hok : LaneOk setup side lane) (hout : lane.out = some sender)
    (hinc : lane.inc = some receiver) : receiver.Live ∧ receiver.size = sender.size := by
  have hsize : ∀ {path : Path} {other : FileSender}, lane.out = some other →
      other.size = setup.size side path → sender.size = setup.size side path := by
    intro path other hother hsize
    rw [Option.some.inj (hout.symm.trans hother)]
    exact hsize
  have hreceiver : ∀ {id : UInt32} {path : Path} {received : UInt64},
      lane.inc = some (setup.receiver side id path received) →
        receiver.Live ∧ receiver.size = setup.size side path := by
    intro id path received hother
    rw [Option.some.inj (hinc.symm.trans hother)]
    exact ⟨live_receiver setup side id path received, rfl⟩
  cases hok with
  | idle hnone => exact absurd (hnone.symm.trans hout) (by simp)
  | echoed _ _ _ hnone => exact absurd (hnone.symm.trans hinc) (by simp)
  | busy _ _ hstage =>
      cases hstage with
      | offered _ hnone => exact absurd (hnone.symm.trans hinc) (by simp)
      | accepted hsender hflow =>
          obtain ⟨hlive, hknown⟩ := hreceiver hflow.incoming
          exact ⟨hlive, hknown.trans (hsize hsender rfl).symm⟩
      | streaming hsender hflow =>
          obtain ⟨hlive, hknown⟩ := hreceiver hflow.incoming
          exact ⟨hlive, hknown.trans (hsize hsender rfl).symm⟩
      | completing hsender hincoming =>
          obtain ⟨hlive, hknown⟩ := hreceiver hincoming
          exact ⟨hlive, hknown.trans (hsize hsender rfl).symm⟩

/-- The first chunk on a lane lies inside the file. -/
theorem LaneOk.chunk_fits {offset : UInt64} {data : Bytes} {rest : List Message}
    (hok : LaneOk setup side lane) (hforward : lane.forward = .fileChunk id offset data :: rest) :
    offset.toNat + data.length < 2 ^ 64 := by
  cases hok with
  | idle _ _ hnone => exact absurd (hforward.symm.trans hnone) (List.cons_ne_nil _ _)
  | echoed _ _ _ _ hnone => exact absurd (hforward.symm.trans hnone) (List.cons_ne_nil _ _)
  | @busy _ _ path _ _ hstage =>
      cases hstage with
      | offered _ _ hone => cases (hforward.symm.trans hone)
      | accepted _ hflow =>
          exact absurd (hforward.symm.trans hflow.chunks) (List.cons_ne_nil _ _)
      | completing _ _ _ hone => cases (hforward.symm.trans hone)
      | @streaming _ _ _ pieces _ _ hflow =>
          cases pieces with
          | nil => exact absurd (hforward.symm.trans hflow.chunks) (List.cons_ne_nil _ _)
          | cons piece pieces =>
              obtain ⟨hchunk, -⟩ := List.cons.inj (hforward.symm.trans hflow.chunks)
              obtain ⟨-, rfl, rfl⟩ := Message.fileChunk.inj hchunk
              obtain ⟨hstart, hne, hpiece, -⟩ := hflow.consecutive.of_cons
              have hfits := piece_fits hne hpiece
              have hsize : (setup.content side path).length < 2 ^ 64 :=
                (setup.files side path).property
              have hle := Nat.mod_le piece.1 (2 ^ 64)
              rw [UInt64.toNat_ofNat']
              omega

/-! ## Steps of a paced lane -/

/-- The sending end goes on to the end of another chunk. -/
theorem Paced.answered {io : Io} {xfer : Transfers} {disk after : Disk UInt8} {downloadDir : Path}
    {msg : Message} {rest replies : List Message} {out : Option FileSender}
    (hpaced : Paced lane) (hok : LaneOk setup side lane) (hout : xfer.outgoing = lane.out)
    (hbackward : lane.backward = msg :: rest)
    (htake : takeFileReplies setup.sha256 io xfer disk downloadDir msg =
      (.ok replies, { xfer with outgoing := out }, after)) (confirmed : List UInt32) :
    Paced { lane with out, forward := lane.forward ++ replies, backward := rest, confirmed } := by
  obtain ⟨sender, hsender, hmsg⟩ := hok.forSender hbackward
  have hby := hpaced sender hsender
  have hknown := hout.trans hsender
  have hpass : ¬ xfer.PassesSender msg := fun hpass => hpass sender hknown hmsg
  have hdispatch := dispatch setup.sha256 io xfer disk downloadDir msg
  generalize takeFileReplies setup.sha256 io xfer disk downloadDir msg = result at htake hdispatch
  cases hdispatch with
  | @polled _ other taken next sent hother htaken hpoll =>
      obtain rfl := Option.some.inj (hknown.symm.trans hother)
      simp only [Prod.mk.injEq, Except.ok.injEq, Transfers.mk.injEq] at htake
      obtain ⟨rfl, ⟨rfl, -⟩, -⟩ := htake
      have hack := hby.backward msg (by rw [hbackward]; exact List.mem_cons_self)
      obtain ⟨htakenMarks, htakenSize⟩ := hby.marks.taken hack htaken
      obtain ⟨hnextMarks, hnextSize, hchunks⟩ := htakenMarks.poll setup.sha256 io hpoll
      have hsize := hnextSize.trans htakenSize
      intro now hnow
      have hnext : now = next := by
        simp only [Option.mem_def] at hnow
        split_ifs at hnow
        exact (Option.some.inj hnow).symm
      subst hnext
      constructor
      case marks => exact hnextMarks
      case receiver =>
        intro receiver hreceiver
        rw [hsize]
        exact hby.receiver receiver hreceiver
      case forward =>
        intro found hfound
        rw [hsize]
        cases List.mem_append.mp hfound with
        | inl hold => exact hby.forward found hold
        | inr hnew => exact htakenSize ▸ hchunks found hnew
      case backward =>
        intro found hfound
        rw [hsize]
        exact hby.backward found (by rw [hbackward]; exact List.mem_cons_of_mem msg hfound)
  | pollFailed => cases htake
  | senderFailed => cases htake
  | busy => cases hmsg
  | notAccepted => cases hmsg
  | accepted => cases hmsg
  | idle hpasses => exact absurd hpasses hpass
  | handled hpasses => exact absurd hpasses hpass
  | handleFailed hpasses => exact absurd hpasses hpass

/-- What the receiving end counts and acknowledges stays on the marks. -/
theorem PacedBy.received {io : Io} {xfer : Transfers} {disk after : Disk UInt8}
    {downloadDir : Path} {msg : Message} {rest replies : List Message}
    {inc : Option FileReceiver} {sender : FileSender} (hby : PacedBy lane sender)
    (hok : LaneOk setup side lane) (hsender : sender ∈ lane.out) (hin : xfer.incoming = lane.inc)
    (hpass : xfer.PassesSender msg) (hforward : lane.forward = msg :: rest)
    (htake : takeFileReplies setup.sha256 io xfer disk downloadDir msg =
      (.ok replies, { xfer with incoming := inc }, after)) :
    (∀ receiver ∈ inc, ChunkMark sender.size receiver.received.toNat) ∧
      ∀ reply ∈ replies, AckOnMarks sender.size reply := by
  have hdispatch := dispatch setup.sha256 io xfer disk downloadDir msg
  generalize takeFileReplies setup.sha256 io xfer disk downloadDir msg = result at htake hdispatch
  have hunchanged : xfer.incoming = inc → ∀ receiver ∈ inc,
      ChunkMark sender.size receiver.received.toNat := by
    rintro rfl receiver hmem
    exact hby.receiver receiver (hin ▸ hmem)
  cases hdispatch with
  | polled hother htaken => exact absurd (htaken.forSender (by simp)) (hpass _ hother)
  | pollFailed => cases htake
  | senderFailed => cases htake
  | busy =>
      simp only [Prod.mk.injEq, Except.ok.injEq] at htake
      obtain ⟨rfl, hslots, -⟩ := htake
      exact ⟨hunchanged (congrArg Transfers.incoming hslots), by simp [AckOnMarks]⟩
  | notAccepted => cases htake
  | accepted _ haccept =>
      simp only [Prod.mk.injEq, Except.ok.injEq, Transfers.mk.injEq] at htake
      obtain ⟨rfl, ⟨-, rfl⟩, -⟩ := htake
      obtain ⟨rfl, rfl, -⟩ := FileReceiver.accept_ok haccept
      refine ⟨fun receiver hmem => ?_, by simp [AckOnMarks]⟩
      rw [← Option.some.inj hmem]
      exact AtMark.zero _ _
  | idle =>
      simp only [Prod.mk.injEq, Except.ok.injEq] at htake
      obtain ⟨rfl, hslots, -⟩ := htake
      exact ⟨hunchanged (congrArg Transfers.incoming hslots), by simp⟩
  | @handled _ receiver next more _ _ _ hknown hhandle =>
      simp only [Prod.mk.injEq, Except.ok.injEq, Transfers.mk.injEq] at htake
      obtain ⟨rfl, ⟨-, rfl⟩, -⟩ := htake
      obtain ⟨hlive, hsize⟩ := hok.receiver hsender (hin.symm.trans hknown)
      have hmark := hby.receiver receiver (hin ▸ hknown)
      have hmsg := hby.forward msg (by rw [hforward]; exact List.mem_cons_self)
      rw [← hsize] at hmark hmsg ⊢
      have hfits : ∀ id offset data, msg = .fileChunk id offset data →
          offset.toNat + data.length < 2 ^ 64 := by
        rintro id offset data rfl
        exact hok.chunk_fits hforward
      obtain ⟨hnext, hreplies⟩ :=
        FileReceiver.handle_onMarks setup.sha256 hlive hmark hmsg hfits hhandle
      refine ⟨fun now hnow => ?_, hreplies⟩
      simp only [Option.mem_def] at hnow
      split_ifs at hnow
      rw [← Option.some.inj hnow]
      exact hnext
  | handleFailed => cases htake

/-- The receiving end goes on to the end of another chunk. -/
theorem Paced.received {io : Io} {xfer : Transfers} {disk after : Disk UInt8} {downloadDir : Path}
    {msg : Message} {rest replies : List Message} {inc : Option FileReceiver}
    (hpaced : Paced lane) (hok : LaneOk setup side lane) (hin : xfer.incoming = lane.inc)
    (hpass : xfer.PassesSender msg) (hforward : lane.forward = msg :: rest)
    (htake : takeFileReplies setup.sha256 io xfer disk downloadDir msg =
      (.ok replies, { xfer with incoming := inc }, after)) (saved : String → Option Bytes)
    (finished : List Saved) :
    Paced { lane with
      inc, forward := rest, backward := lane.backward ++ replies, saved, finished } := by
  intro sender hsender
  have hby := hpaced sender hsender
  obtain ⟨hreceiver, hreplies⟩ := hby.received hok hsender hin hpass hforward htake
  constructor
  case marks => exact hby.marks
  case receiver => exact hreceiver
  case forward =>
    intro found hfound
    exact hby.forward found (by rw [hforward]; exact List.mem_cons_of_mem msg hfound)
  case backward =>
    intro found hfound
    cases List.mem_append.mp hfound with
    | inl hold => exact hby.backward found hold
    | inr hnew => exact hreplies found hnew

/-! ## What fits into a window -/

/-- No more than four chunks, and no more than four acknowledgements, are on a lane. -/
theorem Paced.streaming_length {next acked received : UInt64} {pieces : List (ℕ × Bytes)}
    {numbers : List ℕ} (hpaced : Paced lane)
    (hout : lane.out = some (setup.sender side id path true next acked))
    (hflow : Flowing setup side id path lane next acked received pieces numbers)
    (hbackward : lane.backward = ackMessages id numbers) :
    pieces.length ≤ 4 ∧ numbers.length ≤ 4 := by
  have hby := hpaced _ hout
  have hacked : ChunkMark (setup.size side path) acked.toNat := hby.marks.acked
  have hreceived : ChunkMark (setup.size side path) received.toNat :=
    hby.receiver _ hflow.incoming
  have hwindow : next.toNat ≤ acked.toNat + 65536 := hby.marks.window
  have hnext := next.toNat_lt
  have hsize := toNat_size setup side path
  have hsent := hflow.sent
  have hreached := hflow.consecutive.le
  have hrisen := hflow.rising.le
  have hpieces : ∀ piece ∈ pieces,
      ChunkMark (setup.size side path) (piece.1 + piece.2.length) := by
    intro piece hmem
    have hend := hflow.consecutive.end_le hmem
    have hchunk : ChunkMark (setup.size side path)
        ((UInt64.ofNat piece.1).toNat + piece.2.length) := by
      refine hby.forward (.fileChunk id (UInt64.ofNat piece.1) piece.2) ?_
      rw [hflow.chunks]
      exact List.mem_map_of_mem hmem
    rwa [UInt64.toNat_ofNat_of_lt' (by show piece.1 < 2 ^ 64; omega)] at hchunk
  have hnumbers : ∀ number ∈ numbers, ChunkMark (setup.size side path) number := by
    intro number hmem
    have hle := hflow.rising.le_of_mem hmem
    have hack : ChunkMark (setup.size side path) (UInt64.ofNat number).toNat := by
      refine hby.backward (.fileAck id (UInt64.ofNat number)) ?_
      rw [hbackward]
      exact List.mem_map_of_mem hmem
    rwa [UInt64.toNat_ofNat_of_lt' (by show number < 2 ^ 64; omega)] at hack
  have hchunks := hflow.consecutive.length_le (by norm_num) hreceived hpieces (by omega)
  have hacks := hflow.rising.length_le (by norm_num) hacked hnumbers (by omega)
  omega

/-- No more than four messages are on a lane in either direction. -/
theorem Paced.length_le (hpaced : Paced lane) (hok : LaneOk setup side lane) :
    lane.forward.length ≤ 4 ∧ lane.backward.length ≤ 4 := by
  cases hok with
  | idle _ _ hforward hbackward => simp [hforward, hbackward]
  | echoed _ _ _ _ hforward hbackward => simp [hforward, hbackward]
  | busy _ _ hstage =>
      cases hstage with
      | offered _ _ hforward hbackward => simp [hforward, hbackward]
      | accepted _ hflow hbackward => simp [hflow.chunks, hbackward, chunkMessages]
      | completing _ _ _ hforward hbackward => simp [hforward, hbackward]
      | streaming hout hflow hbackward =>
          have hlength := hpaced.streaming_length hout hflow hbackward
          simpa [hflow.chunks, hbackward, chunkMessages, ackMessages] using hlength

end

/-! ## Runs -/

namespace Exchange

variable {setup : Setup} {state : Exchange}

/-- A transfer starts at the first mark. -/
theorem paced_start (hgood : state.Good setup)
    (hpaced : ∀ side, Paced (state.lane setup side)) (side : Side) (path : Path) (other : Side) :
    Paced ((state.start setup side path).lane setup other) := by
  cases hout : (state.slots side).outgoing with
  | some sender =>
      have hsame : state.start setup side path = state := by simp only [start, hout]
      rw [hsame]
      exact hpaced other
  | none =>
      obtain ⟨hself, hpeer⟩ := state.lane_start setup side path hout
      rcases eq_or_eq_peer other side with rfl | rfl
      · rw [hself]
        have hok := hgood.lanes other
        have hfree : (state.lane setup other).out = none := hout
        have hidle : (state.lane setup other).inc = none ∧
            (state.lane setup other).forward = [] ∧ (state.lane setup other).backward = [] := by
          cases hok with
          | idle _ hinc hforward hbackward => exact ⟨hinc, hforward, hbackward⟩
          | echoed _ _ hxfer => exact absurd (hfree.symm.trans hxfer) (by simp)
          | busy _ _ hstage =>
              obtain ⟨sender, hxfer, -⟩ := hstage.out
              exact absurd (hfree.symm.trans hxfer) (by simp)
        obtain ⟨hinc, hforward, hbackward⟩ := hidle
        intro sender hsender
        obtain rfl := Option.some.inj hsender
        constructor
        case marks =>
          exact ⟨AtMark.zero _ _, AtMark.zero _ _, le_refl _, Nat.zero_le _, Nat.zero_le _⟩
        case receiver =>
          intro receiver hreceiver
          exact absurd (hinc.symm.trans hreceiver) (by simp)
        case forward => simp [hforward, ChunkOnMarks]
        case backward => simp [hbackward]
      · rw [hpeer]
        exact hpaced side.peer

/-- A delivery leaves the lane alone that its message does not belong to. -/
theorem lane_deliver_other (hgood : state.Good setup) {side other : Side} {msg : Message}
    {rest : List Message} (hwire : state.wire side = msg :: rest)
    (hmsg : direction msg = some other) :
    (state.deliver setup side).lane setup other.peer = state.lane setup other.peer := by
  refine (stepped_deliver hgood side).kept other.peer ?_
  rintro ⟨found, hfound, hdirection⟩
  rw [hwire] at hfound
  obtain rfl := Option.some.inj hfound
  exact ne_peer other (Option.some.inj (hmsg.symm.trans hdirection))

/-- A sender that takes an answer stays on the marks. -/
theorem paced_answer (hgood : state.Good setup) {side : Side}
    (hpaced : Paced (state.lane setup side)) {msg : Message} {rest : List Message}
    (hwire : state.wire side = msg :: rest) (hmsg : direction msg = some side) :
    Paced ((state.deliver setup side).lane setup side) := by
  have hbackward : (state.lane setup side).backward =
      msg :: ofSide side (rest ++ state.replies side.peer) := by
    show ofSide side (state.wire side ++ _) = _
    rw [hwire, List.cons_append, ofSide_cons_self hmsg]
  have hslot : (state.slots side).outgoing = (state.lane setup side).out := rfl
  obtain ⟨replies, out, htake, ⟨id, hid, hcarries⟩, -⟩ :=
    answered state.disk (setup.downloads side) (fixedIo_reads setup side) (hgood.lanes side) hslot
      hbackward
  have hself := (lane_deliver hwire htake).1
  rw [ofSide_self (hcarries.direction hid)] at hself
  rw [hself]
  exact hpaced.answered (hgood.lanes side) hslot hbackward htake _

/-- A receiver that takes a chunk stays on the marks. -/
theorem paced_receive (hgood : state.Good setup) {side : Side}
    (hpaced : Paced (state.lane setup side)) {msg : Message} {rest : List Message}
    (hwire : state.wire side.peer = msg :: rest) (hmsg : direction msg = some side) :
    Paced ((state.deliver setup side.peer).lane setup side) := by
  have hforward : (state.lane setup side).forward =
      msg :: ofSide side (rest ++ state.replies side) := by
    show ofSide side (state.wire side.peer ++ state.replies side.peer.peer) = _
    rw [hwire, peer_peer, List.cons_append, ofSide_cons_self hmsg]
  have hslot : (state.slots side.peer).incoming = (state.lane setup side).inc := rfl
  have hpass := passesSender hgood hmsg
  obtain ⟨replies, inc, after, htake, ⟨id, hid, hcarries⟩, -, -⟩ :=
    received (fixedIo_succeeds _) (hgood.lanes side) hslot (fun _ => rfl) hforward
  rw [← takeFileReplies_of_passes setup.sha256 _ state.disk _ hpass] at htake
  have hpeer := (lane_deliver hwire htake).2
  rw [peer_peer, ofSide_self (hcarries.direction hid)] at hpeer
  rw [hpeer]
  exact hpaced.received (hgood.lanes side) hslot hpass hforward htake _ _

/-- Delivering a message keeps the lanes paced. -/
theorem paced_deliver (hgood : state.Good setup)
    (hpaced : ∀ side, Paced (state.lane setup side)) (side other : Side) :
    Paced ((state.deliver setup side).lane setup other) := by
  cases hwire : state.wire side with
  | nil =>
      have hsame : state.deliver setup side = state := by simp only [deliver, hwire]
      rw [hsame]
      exact hpaced other
  | cons msg rest =>
      obtain ⟨owner, hmsg⟩ := hgood.directed side msg (by simp [inFlight, hwire])
      rcases eq_or_eq_peer other owner with rfl | rfl
      · rcases eq_or_eq_peer side other with rfl | rfl
        · exact paced_answer hgood (hpaced side) hwire hmsg
        · exact paced_receive hgood (hpaced other) hwire hmsg
      · rw [lane_deliver_other hgood hwire hmsg]
        exact hpaced owner.peer

/-- Both lanes stay paced. -/
theorem paced_step (hgood : state.Good setup)
    (hpaced : ∀ side, Paced (state.lane setup side)) (event : ExchangeEvent) (other : Side) :
    Paced ((state.step setup event).lane setup other) := by
  cases event with
  | start side path => exact paced_start hgood hpaced side path other
  | deliver side => exact paced_deliver hgood hpaced side other
  | write side =>
      show Paced ((state.write side).lane setup other)
      rw [lane_write]
      exact hpaced other

/-- At first no lane has a sender. -/
theorem paced_init (setup : Setup) (side : Side) : Paced ((init setup).lane setup side) := by
  intro sender hsender
  cases side <;> cases hsender

/-- No more than eight messages are on the way to an end. -/
theorem inFlight_length_le (hgood : state.Good setup)
    (hpaced : ∀ side, Paced (state.lane setup side)) (side : Side) :
    (state.inFlight side).length ≤ 8 := by
  have hsplit : (state.inFlight side).length =
      (ofSide side (state.inFlight side)).length +
        (ofSide side.peer (state.inFlight side)).length := by
    have hother : (state.inFlight side).filter (fun msg => !decide (direction msg = some side)) =
        ofSide side.peer (state.inFlight side) := by
      refine List.filter_congr fun msg hmsg => ?_
      obtain ⟨owner, howner⟩ := hgood.directed side msg hmsg
      rw [howner]
      rcases eq_or_eq_peer owner side with rfl | rfl <;> simp
    rw [← hother]
    exact List.length_eq_length_filter_add _
  have hbackward := ((hpaced side).length_le (hgood.lanes side)).2
  have hforward := ((hpaced side.peer).length_le (hgood.lanes side.peer)).1
  simp only [lane, peer_peer] at hbackward hforward
  omega

end Exchange

end OmarchyConnect.System
