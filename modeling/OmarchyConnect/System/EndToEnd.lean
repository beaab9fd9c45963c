/-
# Every transfer arrives

The lanes of an exchange are what the slots, the channels, the disk and the records
hold of either direction. A step moves one lane to its next point and leaves the other
alone, so both are at a point of a transfer in every reachable state. Once nothing is
in flight they are between two transfers, and all that was started has been saved.
-/

import OmarchyConnect.System.LaneSteps

namespace OmarchyConnect.System

open OmarchyConnect.Library.Wire OmarchyConnect.Library.Files OmarchyConnect.Library.Runs
open OmarchyConnect.Protocol OmarchyConnect.Host OmarchyConnect.Client

/-! ## The lanes of an exchange -/

/-- The other end's other end. -/
@[simp]
theorem peer_peer (side : Side) : side.peer.peer = side := by
  cases side <;> rfl

/-- The other end is another one. -/
@[simp]
theorem peer_ne (side : Side) : side.peer ≠ side := by
  cases side <;> decide

@[simp]
theorem ne_peer (side : Side) : side ≠ side.peer := (peer_ne side).symm

/-- There are two ends. -/
theorem eq_or_eq_peer (other side : Side) : other = side ∨ other = side.peer := by
  cases other <;> cases side <;> decide

/-- The messages of one direction. -/
def ofSide (side : Side) (msgs : List Message) : List Message :=
  msgs.filter fun msg => direction msg = some side

section

variable {side other : Side} {msg : Message} {msgs : List Message}

/-- The messages of a direction in two lists. -/
theorem ofSide_append (side : Side) (first second : List Message) :
    ofSide side (first ++ second) = ofSide side first ++ ofSide side second :=
  List.filter_append ..

/-- A message of the direction is one of its messages. -/
theorem ofSide_cons_self (hmsg : direction msg = some side) (msgs : List Message) :
    ofSide side (msg :: msgs) = msg :: ofSide side msgs :=
  List.filter_cons_of_pos (by simpa using hmsg)

/-- A message of the other direction is none of its messages. -/
theorem ofSide_cons_of_ne (hmsg : direction msg ≠ some side) (msgs : List Message) :
    ofSide side (msg :: msgs) = ofSide side msgs :=
  List.filter_cons_of_neg (by simpa using hmsg)

/-- All messages of one direction. -/
theorem ofSide_self (hall : ∀ msg ∈ msgs, direction msg = some side) : ofSide side msgs = msgs :=
  List.filter_eq_self.mpr (by simpa using hall)

/-- None of the messages is of the direction. -/
theorem ofSide_of_ne (hall : ∀ msg ∈ msgs, direction msg = some other) (hne : other ≠ side) :
    ofSide side msgs = [] := by
  refine List.filter_eq_nil_iff.mpr fun msg hmsg => ?_
  rw [hall msg hmsg]
  simpa using hne

/-- Messages that carry a transfer of a side go its way. -/
theorem Carries.direction {id : UInt32} (h : Carries id msgs) (hside : sideOf id = side) :
    ∀ msg ∈ msgs, direction msg = some side :=
  fun msg hmsg => direction_of_fileId hside (h msg hmsg).1

end

/-- The ids of an end tell the side. -/
theorem sideOf_newId (side : Side) (counter : UInt32) : sideOf (newId side counter) = side := by
  cases side with
  | client =>
      have hlow : counter.toNat &&& 0x7fffffff ≤ 0x7fffffff := Nat.and_le_right
      have hlt : nextClientId counter < 0x80000000 := by
        rw [UInt32.lt_iff_toNat_lt, nextClientId, UInt32.toNat_and]
        exact Nat.lt_succ_of_le hlow
      exact if_pos hlt
  | host =>
      have hhigh : 0x80000000 ≤ (counter.toNat &&& 0x7fffffff) ||| 0x80000000 := Nat.right_le_or
      have hge : ¬ nextId true counter < 0x80000000 := by
        rw [UInt32.lt_iff_toNat_lt, nextId, if_pos rfl, UInt32.toNat_or, UInt32.toNat_and]
        exact Nat.not_lt.mpr hhigh
      exact if_neg hge

namespace Exchange

/-- The messages on the way to an end. -/
def inFlight (state : Exchange) (side : Side) : List Message :=
  state.wire side ++ state.replies side.peer

/-- What belongs to the transfers that an end sends. -/
def lane (setup : Setup) (state : Exchange) (side : Side) : Lane where
  out := (state.slots side).outgoing
  inc := (state.slots side.peer).incoming
  forward := ofSide side (state.inFlight side.peer)
  backward := ofSide side (state.inFlight side)
  saved := fun name => state.disk.files (setup.downloads side.peer ++ [name])
  started := state.started side
  confirmed := state.confirmed side
  finished := state.finished side

/-- Both lanes are at a point of a transfer, and every message belongs to one. -/
structure Good (setup : Setup) (state : Exchange) : Prop where
  lanes : ∀ side, LaneOk setup side (state.lane setup side)
  directed : ∀ side, ∀ msg ∈ state.inFlight side, ∃ other, direction msg = some other

/-- What a step does: the handler succeeds, a lane that the event is not about stays
as it is, and both lanes are at a point of a transfer again. -/
structure Stepped (setup : Setup) (state : Exchange) (event : ExchangeEvent) : Prop where
  succeeds : state.Succeeds setup event
  kept : ∀ side, ¬ state.Concerns event side →
    (state.step setup event).lane setup side = state.lane setup side
  good : (state.step setup event).Good setup

/-! ## The dispatchers of both ends -/

variable (setup : Setup) (state : Exchange)

/-- Either end takes a message as the host's dispatcher does with its slots. -/
theorem take_eq (side : Side) (msg : Message) {result : Except FileTransferError (List Message)}
    {xfer' : Transfers} {disk' : Disk UInt8}
    (h : takeFileReplies setup.sha256 (io setup side) (state.slots side) state.disk
      (setup.downloads side) msg = (result, xfer', disk')) :
    ∃ xfer live, state.take setup side msg = (result, { state with xfer, live, disk := disk' }) ∧
      ∀ after : Exchange, after.xfer = xfer → after.live = live →
        after.slots = Function.update state.slots side xfer' := by
  cases side with
  | client =>
      have hclient := takeFile_eq setup.sha256 (io setup .client) state.live state.disk
        (setup.downloads .client) msg
      rw [show takeFileReplies setup.sha256 (io setup .client) state.live.transfers state.disk
        (setup.downloads .client) msg = (result, xfer', disk') from h] at hclient
      obtain ⟨hresult, hrest⟩ := Prod.mk.inj hclient
      obtain ⟨hslots, hdisk⟩ := Prod.mk.inj hrest
      refine ⟨state.xfer, (takeFile setup.sha256 (io setup .client) state.live state.disk
        (setup.downloads .client) msg).2.1, ?_, ?_⟩
      · simp only [take, hresult, hdisk]
      · rintro after hxfer hlive
        funext other
        cases other with
        | client => rw [Function.update_self, slots, hlive]; exact hslots
        | host => exact hxfer
  | host =>
      refine ⟨xfer', state.live, ?_, ?_⟩
      · have hhost : takeFileReplies setup.sha256 (io setup .host) state.xfer state.disk
            (setup.downloads .host) msg = (result, xfer', disk') := h
        simp only [take, hhost]
      · rintro after hxfer hlive
        funext other
        cases other with
        | client => exact congrArg Live.transfers hlive
        | host => rw [Function.update_self]; exact hxfer

/-- Either end offers a file as the host does. -/
theorem offer_eq (side : Side) (path : Path) (hfree : (state.slots side).outgoing = none) :
    ∃ xfer live, state.offer setup side path =
        (.ok [.fileOffer (newId side (state.next side)) (offeredName path) (setup.size side path)],
          { state with xfer, live }) ∧
      ∀ after : Exchange, after.xfer = xfer → after.live = live →
        after.slots = Function.update state.slots side
          { state.slots side with
            outgoing :=
              some (setup.sender side (newId side (state.next side)) path false 0 0) } := by
  have hio := fixedIo_reads setup side path
  have hoffer := offerFile_eq (state.slots side) (newId side (state.next side)) hio
  cases side with
  | client =>
      have hqueue := queueSend_eq setup.sha256 (io setup .client) hfree
        (newId .client (state.next .client)) path
      have hresult : (queueSend setup.sha256 (io setup .client) state.live
          (newId .client (state.next .client)) path).1 =
            .ok [.fileOffer (newId .client (state.next .client)) (offeredName path)
              (setup.size .client path)] := by
        have hnone : state.live.outgoing = none := hfree
        simp [queueSend, hnone, FileSender.openFile, hio.size, FileSender.poll, offeredName,
          Setup.size]
      refine ⟨state.xfer, (queueSend setup.sha256 (io setup .client) state.live
        (newId .client (state.next .client)) path).2, ?_, ?_⟩
      · simp only [offer, hresult]
      · rintro after hxfer hlive
        funext other
        cases other with
        | client =>
            rw [Function.update_self, slots, hlive]
            exact hqueue.trans (congrArg Prod.snd hoffer)
        | host => exact hxfer
  | host =>
      refine ⟨{ state.xfer with
        outgoing := some (setup.sender .host (newId .host (state.next .host)) path false 0 0) },
        state.live, ?_, ?_⟩
      · have hhost : offerFile setup.sha256 (io setup .host) state.xfer
            (newId .host (state.next .host)) path = _ := hoffer
        simp only [offer, hhost]
        rfl
      · rintro after hxfer hlive
        funext other
        cases other with
        | client => exact congrArg Live.transfers hlive
        | host => rw [Function.update_self]; exact hxfer

/-! ## Steps -/

/-- A message that is written was on the way already. -/
theorem inFlight_write (side other : Side) :
    (state.write side).inFlight other = state.inFlight other := by
  unfold write
  cases hreplies : state.replies side with
  | nil => rfl
  | cons msg rest =>
      rcases eq_or_eq_peer other side with hsame | hsame
      · simp [inFlight, hsame]
      · simp [inFlight, hsame, hreplies]

/-- Writing a reply moves it on within its lane. -/
theorem lane_write (side other : Side) :
    (state.write side).lane setup other = state.lane setup other := by
  unfold lane
  rw [inFlight_write, inFlight_write]
  unfold write
  cases state.replies side <;> rfl

/-- Writing a reply is a step. -/
theorem stepped_write (hgood : state.Good setup) (side : Side) :
    state.Stepped setup (.write side) where
  succeeds := ⟨[], rfl, by simp⟩
  kept := fun other _ => state.lane_write setup side other
  good :=
    { lanes := by
        intro other
        show LaneOk setup other ((state.write side).lane setup other)
        rw [lane_write]
        exact hgood.lanes other
      directed := by
        intro other
        show ∀ msg ∈ (state.write side).inFlight other, _
        rw [inFlight_write]
        exact hgood.directed other }

/-- An event that moves one lane, and puts messages of that lane only on the way. -/
theorem stepped_of_moved {event : ExchangeEvent} (hgood : state.Good setup) (side : Side)
    (hsucceeds : state.Succeeds setup event) (hconcerns : state.Concerns event side)
    (hmoved : LaneOk setup side ((state.step setup event).lane setup side))
    (hkept : (state.step setup event).lane setup side.peer = state.lane setup side.peer)
    (hflight : ∀ other, ∀ msg ∈ (state.step setup event).inFlight other,
      msg ∈ state.inFlight other ∨ direction msg = some side) : state.Stepped setup event where
  succeeds := hsucceeds
  kept := by
    intro other hother
    rcases eq_or_eq_peer other side with rfl | rfl
    · exact absurd hconcerns hother
    · exact hkept
  good :=
    { lanes := by
        intro other
        rcases eq_or_eq_peer other side with rfl | rfl
        · exact hmoved
        · rw [hkept]
          exact hgood.lanes _
      directed := by
        intro other msg hmsg
        rcases hflight other msg hmsg with hold | hnew
        · exact hgood.directed other msg hold
        · exact ⟨side, hnew⟩ }

/-- The start of a transfer on the two lanes. -/
theorem lane_start (side : Side) (path : Path) (hfree : (state.slots side).outgoing = none) :
    (state.start setup side path).lane setup side =
        { state.lane setup side with
          out := some (setup.sender side (newId side (state.next side)) path false 0 0)
          forward := (state.lane setup side).forward ++
            [.fileOffer (newId side (state.next side)) (offeredName path) (setup.size side path)]
          started := (state.lane setup side).started ++
            [(newId side (state.next side), path)] } ∧
      (state.start setup side path).lane setup side.peer = state.lane setup side.peer := by
  obtain ⟨xfer, live, hoffer, hslots⟩ := state.offer_eq setup side path hfree
  have hcarries : Carries (newId side (state.next side))
      [.fileOffer (newId side (state.next side)) (offeredName path) (setup.size side path)] :=
    carries_singleton rfl (by simp)
  have hdirection := hcarries.direction (sideOf_newId side _)
  constructor
  · simp [start, hfree, hoffer, lane, inFlight, hslots, ofSide_append, ofSide_self hdirection]
  · simp [start, hfree, hoffer, lane, inFlight, hslots, ofSide_append,
      ofSide_of_ne hdirection (ne_peer side)]

/-- Starting a transfer is a step. -/
theorem stepped_start (hgood : state.Good setup) (side : Side) (path : Path) :
    state.Stepped setup (.start side path) := by
  cases hout : (state.slots side).outgoing with
  | some sender =>
      have hsame : state.start setup side path = state := by simp only [start, hout]
      refine ⟨⟨[], ?_, by simp⟩, fun other _ => congrArg (lane setup · other) hsame, ?_⟩
      · simp only [outcome, hout]
      · show (state.start setup side path).Good setup
        rw [hsame]
        exact hgood
  | none =>
      obtain ⟨hself, hpeer⟩ := state.lane_start setup side path hout
      obtain ⟨xfer, live, hoffer, -⟩ := state.offer_eq setup side path hout
      have hid := sideOf_newId side (state.next side)
      have hsucceeds : state.Succeeds setup (.start side path) := by
        simp [Succeeds, outcome, hout, hoffer]
      refine state.stepped_of_moved setup hgood side hsucceeds rfl ?_ hpeer ?_
      · exact hself ▸ offered _ path (hgood.lanes side) hout hid
      · intro other msg hmsg
        rcases eq_or_eq_peer other side with rfl | rfl
        · refine Or.inl ?_
          simpa [step, start, hout, hoffer, inFlight] using hmsg
        · have hcases : msg ∈ state.inFlight side.peer ∨ msg = .fileOffer
              (newId side (state.next side)) (offeredName path) (setup.size side path) := by
            simpa [step, start, hout, hoffer, inFlight, or_assoc] using hmsg
          refine hcases.imp_right ?_
          rintro rfl
          exact direction_of_fileId hid rfl

section

variable {setup : Setup} {state : Exchange} {side : Side} {msg : Message}
  {rest replies : List Message} {xfer' : Transfers} {disk' : Disk UInt8}

/-- A delivery on the two lanes. -/
theorem lane_deliver (hwire : state.wire side = msg :: rest)
    (h : takeFileReplies setup.sha256 (io setup side) (state.slots side) state.disk
      (setup.downloads side) msg = (.ok replies, xfer', disk')) :
    (state.deliver setup side).lane setup side =
        { state.lane setup side with
          out := xfer'.outgoing
          forward := (state.lane setup side).forward ++ ofSide side replies
          backward := ofSide side (rest ++ state.replies side.peer)
          saved := fun name => disk'.files (setup.downloads side.peer ++ [name])
          confirmed := (state.lane setup side).confirmed ++
            confirmedBy (state.slots side) xfer' } ∧
      (state.deliver setup side).lane setup side.peer =
        { state.lane setup side.peer with
          inc := xfer'.incoming
          forward := ofSide side.peer (rest ++ state.replies side.peer)
          backward := (state.lane setup side.peer).backward ++ ofSide side.peer replies
          saved := fun name => disk'.files (setup.downloads side ++ [name])
          finished := (state.lane setup side.peer).finished ++
            finishedBy (state.slots side) xfer' disk' } := by
  obtain ⟨xfer, live, htake, hslots⟩ := state.take_eq setup side msg h
  constructor
  · simp [deliver, hwire, htake, lane, inFlight, hslots, ofSide_append]
  · simp [deliver, hwire, htake, lane, inFlight, hslots, ofSide_append]

/-- A handler that returns its replies has not failed. -/
theorem outcome_deliver (hwire : state.wire side = msg :: rest)
    (h : takeFileReplies setup.sha256 (io setup side) (state.slots side) state.disk
      (setup.downloads side) msg = (.ok replies, xfer', disk')) :
    state.outcome setup (.deliver side) = .ok replies := by
  obtain ⟨xfer, live, htake, -⟩ := state.take_eq setup side msg h
  simp [outcome, hwire, htake]

/-- Behind a message that was taken, what is in flight was so before or is a reply. -/
theorem mem_inFlight_deliver {other : Side} {found : Message}
    (hwire : state.wire side = msg :: rest)
    (h : takeFileReplies setup.sha256 (io setup side) (state.slots side) state.disk
      (setup.downloads side) msg = (.ok replies, xfer', disk'))
    (hfound : found ∈ (state.deliver setup side).inFlight other) :
    found ∈ state.inFlight other ∨ found ∈ replies := by
  obtain ⟨xfer, live, htake, -⟩ := state.take_eq setup side msg h
  rcases eq_or_eq_peer other side with rfl | rfl
  · refine Or.inl ?_
    have hcases : found ∈ rest ∨ found ∈ state.replies other.peer := by
      simpa [deliver, hwire, htake, inFlight] using hfound
    simpa [inFlight, hwire, or_assoc] using Or.inr hcases
  · simpa [deliver, hwire, htake, inFlight, or_assoc] using hfound

/-- The replies of an end are those of one transfer. -/
theorem succeeds_deliver {id : UInt32} (hwire : state.wire side = msg :: rest)
    (h : takeFileReplies setup.sha256 (io setup side) (state.slots side) state.disk
      (setup.downloads side) msg = (.ok replies, xfer', disk'))
    (hcarries : Carries id replies) : state.Succeeds setup (.deliver side) :=
  ⟨replies, outcome_deliver hwire h, fun other reason hmem => (hcarries _ hmem).2 other reason rfl⟩

/-- A message of the own transfer of an end. -/
theorem stepped_answer (hgood : state.Good setup) (hwire : state.wire side = msg :: rest)
    (hmsg : direction msg = some side) : state.Stepped setup (.deliver side) := by
  have hbackward : (state.lane setup side).backward =
      msg :: ofSide side (rest ++ state.replies side.peer) := by
    show ofSide side (state.wire side ++ _) = _
    rw [hwire, List.cons_append, ofSide_cons_self hmsg]
  have hslot : (state.slots side).outgoing = (state.lane setup side).out := rfl
  obtain ⟨replies, out, htake, ⟨id, hid, hcarries⟩, hmoved⟩ :=
    answered state.disk (setup.downloads side) (fixedIo_reads setup side) (hgood.lanes side) hslot
      hbackward
  obtain ⟨hself, hpeer⟩ := lane_deliver hwire htake
  have hdirection := hcarries.direction hid
  refine state.stepped_of_moved setup hgood side (succeeds_deliver hwire htake hcarries) ?_ ?_ ?_ ?_
  · exact ⟨msg, by simp [hwire], hmsg⟩
  · refine Eq.mpr (congrArg _ hself) ?_
    rw [ofSide_self hdirection]
    exact hmoved
  · refine hpeer.trans ?_
    have hrest : ofSide side.peer (rest ++ state.replies side.peer) =
        (state.lane setup side.peer).forward := by
      simp only [lane, inFlight, peer_peer, hwire, List.cons_append]
      rw [ofSide_cons_of_ne (by simp [hmsg])]
    have hkept : finishedBy (state.slots side) { state.slots side with outgoing := out }
        state.disk = [] := by
      rw [finishedBy]
      cases (state.slots side).incoming <;> rfl
    rw [hrest, ofSide_of_ne hdirection (ne_peer side), hkept]
    simp [lane]
  · intro other found hfound
    exact (mem_inFlight_deliver hwire htake hfound).imp_right (hdirection found)

/-- A message for a sender is one of its transfer. -/
theorem fileId_of_forSender {id : UInt32} (h : msg.forSender = some id) : fileId msg = some id := by
  cases msg <;> first | exact h | simp [Message.forSender] at h

/-- The sender of an end does not take what belongs to the other direction. -/
theorem passesSender (hgood : state.Good setup) (hmsg : direction msg = some side) :
    (state.slots side.peer).PassesSender msg := by
  intro sender hsender hfor
  have hid := (hgood.lanes side.peer).sideOf_out hsender
  have hdirection := direction_of_fileId hid (fileId_of_forSender hfor)
  rw [hmsg] at hdirection
  exact ne_peer side (Option.some.inj hdirection)

/-- No call of the disk fails. -/
theorem fixedIo_succeeds (files : Path → Bytes) : (fixedIo files).Succeeds :=
  ⟨rfl, rfl, rfl, rfl, rfl, rfl, rfl⟩

/-- The two ends save in different directories. -/
theorem append_downloads_ne (setup : Setup) (side : Side) (name other : String) :
    setup.downloads side ++ [name] ≠ setup.downloads side.peer ++ [other] := by
  intro hsame
  have hdirs := (List.append_inj' hsame rfl).1
  cases side with
  | client => exact setup.distinct hdirs
  | host => exact setup.distinct hdirs.symm

/-- A message of the transfer that an end receives. -/
theorem stepped_receive (hgood : state.Good setup) (hwire : state.wire side.peer = msg :: rest)
    (hmsg : direction msg = some side) : state.Stepped setup (.deliver side.peer) := by
  have hforward : (state.lane setup side).forward =
      msg :: ofSide side (rest ++ state.replies side) := by
    show ofSide side (state.wire side.peer ++ state.replies side.peer.peer) = _
    rw [hwire, peer_peer, List.cons_append, ofSide_cons_self hmsg]
  have hslot : (state.slots side.peer).incoming = (state.lane setup side).inc := rfl
  obtain ⟨replies, inc, after, htake, ⟨id, hid, hcarries⟩, hothers, hmoved⟩ :=
    received (fixedIo_succeeds _) (hgood.lanes side) hslot (fun _ => rfl) hforward
  rw [← takeFileReplies_of_passes setup.sha256 _ state.disk _ (passesSender hgood hmsg)] at htake
  obtain ⟨hself, hpeer⟩ := lane_deliver hwire htake
  have hdirection := hcarries.direction hid
  refine state.stepped_of_moved setup hgood side (succeeds_deliver hwire htake hcarries) ?_ ?_ ?_ ?_
  · exact ⟨msg, by simp [hwire], hmsg⟩
  · rw [peer_peer] at hpeer
    refine Eq.mpr (congrArg _ hpeer) ?_
    rw [ofSide_self hdirection]
    exact hmoved
  · refine hself.trans ?_
    have hrest : ofSide side.peer (rest ++ state.replies side) =
        (state.lane setup side.peer).backward := by
      simp only [lane, inFlight, peer_peer, hwire, List.cons_append]
      rw [ofSide_cons_of_ne (by simp [hmsg])]
    have hkept : confirmedBy (state.slots side.peer)
        { state.slots side.peer with incoming := inc } = [] := by
      rw [confirmedBy]
      cases (state.slots side.peer).outgoing <;> rfl
    have hsaved : (fun name => after.files (setup.downloads side ++ [name])) =
        fun name => state.disk.files (setup.downloads side ++ [name]) := by
      funext name
      exact hothers _ fun _ => append_downloads_ne setup side _ _
    rw [peer_peer, hrest, ofSide_of_ne hdirection (peer_ne side).symm, hkept, hsaved]
    simp [lane]
  · intro other found hfound
    exact (mem_inFlight_deliver hwire htake hfound).imp_right (hdirection found)

/-- Delivering a message is a step. -/
theorem stepped_deliver (hgood : state.Good setup) (side : Side) :
    state.Stepped setup (.deliver side) := by
  cases hwire : state.wire side with
  | nil =>
      have hsame : state.deliver setup side = state := by simp only [deliver, hwire]
      refine ⟨⟨[], ?_, by simp⟩, fun other _ => congrArg (lane setup · other) hsame, ?_⟩
      · simp only [outcome, hwire]
      · show (state.deliver setup side).Good setup
        rw [hsame]
        exact hgood
  | cons msg rest =>
      obtain ⟨other, hmsg⟩ := hgood.directed side msg (by simp [inFlight, hwire])
      rcases eq_or_eq_peer side other with rfl | rfl
      · exact stepped_answer hgood hwire hmsg
      · exact stepped_receive hgood hwire hmsg

/-- Every step from a good state is as promised. -/
theorem stepped (hgood : state.Good setup) (event : ExchangeEvent) : state.Stepped setup event := by
  cases event with
  | start side path => exact state.stepped_start setup hgood side path
  | deliver side => exact stepped_deliver hgood side
  | write side => exact state.stepped_write setup hgood side

end

/-! ## Whole runs -/

/-- At first nothing has happened on either lane. -/
theorem good_init (setup : Setup) : (init setup).Good setup where
  lanes := by
    intro side
    refine .idle ?_ ?_ rfl rfl ⟨rfl, rfl, fun _ _ => rfl⟩
    · cases side <;> rfl
    · cases side <;> rfl
  directed := by
    intro side msg hmsg
    exact absurd hmsg List.not_mem_nil

/-- Between two transfers all that was started is confirmed, finished and saved. -/
theorem complete_of_quiescent {setup : Setup} {state : Exchange} (hgood : state.Good setup)
    (hquiescent : state.Quiescent) (side : Side) : state.Complete setup side := by
  have hnone : ∀ other, ofSide side (state.inFlight other) = [] := by
    intro other
    rw [inFlight, (hquiescent other).1, (hquiescent other.peer).2]
    rfl
  obtain ⟨hout, hinc, hledger⟩ := (hgood.lanes side).eq_idle (hnone _) (hnone _)
  refine ⟨hout, hinc, hledger.confirmed, hledger.finished, ?_⟩
  intro front id path back hsplit hlater
  have hsaved := hledger.saved _ (head?_savedName path)
  have hstarted : (state.lane setup side).started = front ++ (id, path) :: back := hsplit
  rw [hstarted, savedFiles_split setup side front id path hlater] at hsaved
  exact hsaved

end Exchange

/-- Both directions at once: no handler fails or gives a transfer up, no transfer
changes the other, and nothing is left half-way when nothing is in flight. -/
theorem endToEnd (setup : Setup) (events : List ExchangeEvent) : EndToEnd setup events := by
  have hstart := Exchange.good_init setup
  have hkeep : ∀ state event, Exchange.Good setup state → (state.step setup event).Good setup :=
    fun state event hgood => (Exchange.stepped hgood event).good
  refine ⟨?_, ?_, ?_⟩
  · exact along_of_invariant _ _ hkeep
      (fun state event hgood => (Exchange.stepped hgood event).succeeds) hstart events
  · refine along_of_invariant _ _ hkeep (fun state event hgood side hother => ?_) hstart events
    have hkept := (Exchange.stepped hgood event).kept side hother
    exact congrArg (fun lane : Lane => (lane.out, lane.inc, lane.saved)) hkept
  · intro hquiescent side
    have hgood := invariant_of_step _ _ hkeep hstart events
    exact Exchange.complete_of_quiescent hgood hquiescent side

/-! ## Files of one name -/

/-- Every file that was started stands where it was saved. -/
def Exchange.Stands (setup : Setup) (state : Exchange) : Prop :=
  ∀ side, ∀ transfer ∈ state.started side,
    state.disk.files (setup.savedAt side transfer.2) = some (setup.files side transfer.2).val

/-- One transfer whose file is not there as it was sent is enough. -/
theorem Exchange.not_stands {setup : Setup} {state : Exchange} (side : Side)
    (transfer : UInt32 × Path) (hstarted : transfer ∈ state.started side)
    (hother : state.disk.files (setup.savedAt side transfer.2) ≠
      some (setup.files side transfer.2).val) : ¬ state.Stands setup :=
  fun hstands => hother (hstands side transfer hstarted)

/-- An empty draft, and the file "abcd" under any other path. -/
def sameName : Setup where
  sha256 := sampleSha256
  files := fun _ path =>
    if path = ["drafts", "notes.txt"] then ⟨[], by decide⟩
    else ⟨[0x61, 0x62, 0x63, 0x64], by decide⟩
  downloads := fun side =>
    match side with
    | .client => ["client"]
    | .host => ["host"]
  distinct := by decide
  disk := { files := fun _ => none }

/-- A message of the client and the answer of the host. -/
def thereAndBack : List ExchangeEvent :=
  [.write .client, .deliver .host, .write .host, .deliver .client]

/-- The client sends its draft and then another file of the same name. -/
def draftThenFinal : List ExchangeEvent :=
  .start .client ["drafts", "notes.txt"] :: thereAndBack ++ thereAndBack ++
    .start .client ["final", "notes.txt"] :: thereAndBack ++ thereAndBack ++ thereAndBack

/-- The second file is saved over the first, as a rename does. -/
theorem draft_overwritten :
    (run (Exchange.step sameName) (Exchange.init sameName) draftThenFinal).Quiescent ∧
      ¬ (run (Exchange.step sameName) (Exchange.init sameName) draftThenFinal).Stands sameName := by
  constructor
  · intro side
    cases side with
    | client => decide +kernel
    | host => decide +kernel
  · exact Exchange.not_stands .client (1, ["drafts", "notes.txt"]) (by decide +kernel)
      (by decide +kernel)

end OmarchyConnect.System
