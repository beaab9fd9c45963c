/-
# Mutual authentication

The adversary holds some PINs and computes some MACs, hears all that is written and
delivers confirmations that it heard, computed or guessed. An end whose PIN it does
not hold accepts only a confirmation that was written by the other end of its own TLS
session under the same PIN. `Sound` holds along every run; the promises follow from it
where SPAKE2, HMAC and the exporter are ideal.
-/

import OmarchyConnect.System.HandshakeSteps

namespace OmarchyConnect.System

open OmarchyConnect.Library.Wire OmarchyConnect.Library.Runs OmarchyConnect.Protocol
open OmarchyConnect.Host OmarchyConnect.Client

variable {crypto : PinCrypto}

/-! ## The adversary and the ideal parts -/

/-- The PINs, without whitespace around them, that the adversary holds, and the keys
and data that it computes MACs of. -/
structure Adversary where
  pins : Set String
  queries : Set (Bytes × Bytes)

/-- The adversary holds the PIN of the end. -/
def Adversary.Holds (adversary : Adversary) (state : End crypto) : Prop :=
  ∃ pin ∈ state.pin, trim pin ∈ adversary.pins

/-- The confirmations that the adversary can deliver. It cannot guess the MAC of a key
that an end uses. -/
inductive Adversary.Derives (adversary : Adversary) (ends : List (End crypto)) : Digest → Prop
  | heard {state : End crypto} {mac : Digest} (hmem : state ∈ ends)
      (hwrote : .authConfirm mac ∈ state.wrote) : Derives adversary ends mac
  | computed {key data : Bytes} (hquery : (key, data) ∈ adversary.queries) :
      Derives adversary ends (crypto.hmac key data)
  | guessed {mac : Digest}
      (hmiss : ∀ state ∈ ends, ∀ keys ∈ state.keys, ∀ side, keys.mac crypto side ≠ mac) :
      Derives adversary ends mac

/-- Every confirmation that the step delivers is one that the adversary can deliver. -/
def Adversary.Delivers (adversary : Adversary) (ends : List (End crypto)) :
    HandshakeEvent crypto → Prop
  | .returns _ _ _ (.received (.ok (.authConfirm mac)) _) => adversary.Derives ends mac
  | _ => True

/-- The PINs of the two ends are the same without whitespace around them. -/
def SamePin (one other : End crypto) : Prop :=
  ∃ pin ∈ one.pin, ∃ pin' ∈ other.pin, trim pin = trim pin'

/-- The peer element that the one end used is what the other end wrote. -/
def SawOther (one other : End crypto) : Prop :=
  ∃ element ∈ one.peer, .auth element ∈ other.wrote

/-- A MAC that the adversary computes, or that an end can compute. -/
def Hashed (adversary : Adversary) (ends : List (End crypto)) (key data : Bytes) : Prop :=
  (key, data) ∈ adversary.queries ∨
    ∃ state ∈ ends, ∃ keys ∈ state.keys, ∃ side : Side,
      key = keys.key ∧ data = side.label ++ keys.binding

/-- What is assumed of SPAKE2, HMAC and the TLS exporter, for what a run uses of them:
two ends get the same key just when they have the same PIN and saw each other's
elements, the adversary computes no key without its PIN, no two MACs collide, and the
exporter tells TLS sessions apart. -/
structure Ideal (exporter : Exporter) (adversary : Adversary) (ends : List (End crypto)) :
    Prop where
  agreement : ∀ client ∈ ends, ∀ host ∈ ends, client.auth.side = .client →
    host.auth.side = .host → ∀ clientKeys ∈ client.keys, ∀ hostKeys ∈ host.keys,
      (clientKeys.key = hostKeys.key ↔
        SamePin client host ∧ SawOther client host ∧ SawOther host client)
  secrecy : ∀ state ∈ ends, ∀ keys ∈ state.keys, ∀ data,
    (keys.key, data) ∈ adversary.queries → adversary.Holds state
  collisionFree : ∀ key data key' data', Hashed adversary ends key data →
    Hashed adversary ends key' data' → crypto.hmac key data = crypto.hmac key' data' →
      key = key' ∧ data = data'
  exporter : ∀ one ∈ ends, ∀ other ∈ ends,
    exporter one.session = exporter other.session → one.session = other.session

/-! ## The promises -/

/-- An end that the adversary does not hold the PIN of, and whose `authenticate` has
returned `Ok`, has its counterpart; and a confirmation is accepted only from another
end of the same TLS session. -/
structure MutuallyAuthenticated (adversary : Adversary) (ends : List (End crypto)) : Prop where
  host : ∀ host ∈ ends, host.auth.side = .host → host.auth.Ok → ¬ adversary.Holds host →
    ∃ client ∈ ends, client.auth.side = .client ∧ SamePin client host ∧
      client.session = host.session ∧ ∃ keys ∈ client.keys,
        .authConfirm (keys.confirmation crypto) ∈ client.wrote ∧
          host.accepted = some (keys.confirmation crypto)
  client : ∀ client ∈ ends, client.auth.side = .client → client.auth.Ok →
    ¬ adversary.Holds client → ∃ host ∈ ends, host.auth.side = .host ∧ SamePin client host ∧
      host.session = client.session ∧ ∃ keys ∈ client.keys,
        .authConfirm (keys.confirmation crypto) ∈ client.wrote ∧
          host.accepted = some (keys.confirmation crypto)
  other : ∀ (i j : ℕ) (acceptor writer : End crypto) (mac : Digest), ends[i]? = some acceptor →
    ends[j]? = some writer → acceptor.accepted = some mac → .authConfirm mac ∈ writer.wrote →
      i ≠ j ∧ writer.session = acceptor.session

/-! ## All ends -/

/-- An end after a step was just opened, or was there before, or made the step. -/
theorem mem_stepEnds {exporter : Exporter} {ends : List (End crypto)}
    {event : HandshakeEvent crypto}
    {next : End crypto} (h : next ∈ stepEnds exporter ends event) :
    next ∈ ends ∨ (next.Consistent exporter ∧ next.accepted = none) ∨
      ∃ state ∈ ends, ∃ index lockout now own, event = .returns index lockout now own ∧
        next = state.step exporter lockout now own := by
  cases event with
  | clientOpens session pin coins =>
      refine (List.mem_append.mp h).imp id fun hnew => Or.inl ?_
      rw [List.mem_singleton.mp hnew]
      exact ⟨End.consistent_openClient exporter session pin coins, rfl⟩
  | hostOpens session pin =>
      refine (List.mem_append.mp h).imp id fun hnew => Or.inl ?_
      rw [List.mem_singleton.mp hnew]
      exact ⟨End.consistent_openHost exporter session pin, rfl⟩
  | returns index lockout now own =>
      obtain ⟨other, hother⟩ := List.mem_iff_getElem?.mp h
      simp only [stepEnds, List.getElem?_modify, Option.map_eq_map,
        Option.map_eq_some_iff] at hother
      obtain ⟨state, hstate, rfl⟩ := hother
      have hmem := List.mem_of_getElem? hstate
      split_ifs
      · exact Or.inr (Or.inr ⟨state, hmem, index, lockout, now, own, rfl, rfl⟩)
      · exact Or.inl hmem

/-- What an end has written stays written. -/
theorem wrote_stepEnds {exporter : Exporter} {ends : List (End crypto)} {state : End crypto}
    (hmem : state ∈ ends) (event : HandshakeEvent crypto) {msg : Message}
    (hwrote : msg ∈ state.wrote) :
    ∃ next ∈ stepEnds exporter ends event, msg ∈ next.wrote := by
  cases event with
  | clientOpens session pin coins => exact ⟨state, List.mem_append_left _ hmem, hwrote⟩
  | hostOpens session pin => exact ⟨state, List.mem_append_left _ hmem, hwrote⟩
  | returns index lockout now own =>
      obtain ⟨other, hother⟩ := List.mem_iff_getElem?.mp hmem
      by_cases hindex : index = other
      · refine ⟨state.step exporter lockout now own, ?_, List.mem_append_left _ hwrote⟩
        refine List.mem_iff_getElem?.mpr ⟨other, ?_⟩
        simp [stepEnds, hindex, hother]
      · refine ⟨state, List.mem_iff_getElem?.mpr ⟨other, ?_⟩, hwrote⟩
        simp [stepEnds, hindex, hother]

/-- A confirmation that an end wrote, or that the adversary computed. -/
def Adversary.Sourced (adversary : Adversary) (ends : List (End crypto)) (mac : Digest) : Prop :=
  (∃ state ∈ ends, .authConfirm mac ∈ state.wrote) ∨
    ∃ key data, (key, data) ∈ adversary.queries ∧ crypto.hmac key data = mac

/-- The invariant of all ends. -/
structure Sound (exporter : Exporter) (adversary : Adversary) (ends : List (End crypto)) :
    Prop where
  consistent : ∀ state ∈ ends, state.Consistent exporter
  sourced : ∀ state ∈ ends, ∀ mac ∈ state.accepted, adversary.Sourced ends mac

/-- A step keeps what the ends know sound. -/
theorem Sound.step {exporter : Exporter} {adversary : Adversary} {ends : List (End crypto)}
    {event : HandshakeEvent crypto} (h : Sound exporter adversary ends)
    (hdelivers : adversary.Delivers ends event) :
    Sound exporter adversary (stepEnds exporter ends event) := by
  have hkept : ∀ mac, adversary.Sourced ends mac →
      adversary.Sourced (stepEnds exporter ends event) mac := by
    rintro mac (⟨state, hmem, hwrote⟩ | hcomputed)
    · exact Or.inl (wrote_stepEnds hmem event hwrote)
    · exact Or.inr hcomputed
  constructor
  · intro next hnext
    rcases mem_stepEnds hnext with hold | ⟨hopened, -⟩ | ⟨state, hmem, _, _, _, _, -, rfl⟩
    · exact h.consistent next hold
    · exact hopened
    · exact (h.consistent state hmem).step _ _ _
  · intro next hnext mac hmac
    rcases mem_stepEnds hnext with
      hold | ⟨-, hnone⟩ | ⟨state, hmem, index, lockout, now, own, rfl, rfl⟩
    · exact hkept mac (h.sourced next hold mac hmac)
    · simp [hnone] at hmac
    · have hbefore : ∀ mac ∈ state.accepted, adversary.Sourced
          (stepEnds exporter ends (.returns index lockout now own)) mac :=
        fun mac hmac => hkept mac (h.sourced state hmem mac hmac)
      have haccepted : ((state.auth.accepts own
          (state.step exporter lockout now own).auth).or state.accepted) = some mac := hmac
      rcases EndAuth.step_cases state.pin (exporter state.session).toList lockout now state.auth own
        with ⟨-, hnone⟩ | ⟨-, hnone⟩ | @⟨keys, delivered, coins, haccepts, rfl, hdelivered⟩
      · rw [End.step, hnone, Option.none_or] at haccepted
        exact hbefore mac haccepted
      · rw [End.step, hnone, Option.none_or] at haccepted
        exact hbefore mac haccepted
      · rw [End.step, hdelivered, Option.some_or] at haccepted
        obtain rfl := Option.some.inj haccepted
        have hderives : adversary.Derives ends delivered := hdelivers
        cases hderives with
        | heard hwriter hwrote => exact hkept _ (Or.inl ⟨_, hwriter, hwrote⟩)
        | computed hquery => exact Or.inr ⟨_, _, hquery, rfl⟩
        | guessed hmiss =>
            have hheld := (h.consistent state hmem).current keys haccepts.held
            exact absurd haccepts.correct (hmiss state hmem keys hheld _)

/-- What the ends know is sound in every run. -/
theorem sound_run {exporter : Exporter} {adversary : Adversary}
    {events : List (HandshakeEvent crypto)}
    (h : Along (stepEnds exporter) adversary.Delivers [] events) :
    Sound exporter adversary (run (stepEnds exporter) [] events) :=
  invariant_run (stepEnds exporter) (Sound exporter adversary)
    (fun _ _ hsound hdelivers => hsound.step hdelivers) ⟨by simp, by simp⟩ h

/-! ## The counterpart of an end -/

/-- The label and the exporter value can be read off the hashed data. -/
theorem label_append_inj {side side' : Side} {binding binding' : Bytes}
    (hlength : binding.length = 32) (hlength' : binding'.length = 32)
    (h : side.label ++ binding = side'.label ++ binding') : side = side' ∧ binding = binding' := by
  have hlabels : side.label.length = side'.label.length := by
    have hall := congrArg List.length h
    simpa [hlength, hlength'] using hall
  have hsides : side = side' := by
    revert hlabels
    cases side <;> cases side' <;> decide
  subst hsides
  exact ⟨rfl, List.append_cancel_left h⟩

/-- Where the parts are ideal, a MAC that two ends can compute is one of the same key,
side and TLS session. -/
theorem Sound.mac_inj {exporter : Exporter} {adversary : Adversary} {ends : List (End crypto)}
    (h : Sound exporter adversary ends) (hideal : Ideal exporter adversary ends)
    {one other : End crypto} (hone : one ∈ ends) (hother : other ∈ ends) {keys keys' : PinKeys}
    (hkeys : one.keys = some keys) (hkeys' : other.keys = some keys') {side side' : Side}
    (hmac : keys.mac crypto side = keys'.mac crypto side') :
    keys.key = keys'.key ∧ side = side' ∧ one.session = other.session := by
  obtain ⟨-, hbinding⟩ := (h.consistent one hone).own keys hkeys
  obtain ⟨-, hbinding'⟩ := (h.consistent other hother).own keys' hkeys'
  obtain ⟨hkey, hdata⟩ := hideal.collisionFree _ _ _ _
    (Or.inr ⟨one, hone, keys, hkeys, side, rfl, rfl⟩)
    (Or.inr ⟨other, hother, keys', hkeys', side', rfl, rfl⟩) hmac
  obtain ⟨hside, hexporter⟩ := label_append_inj (by simp [hbinding]) (by simp [hbinding']) hdata
  refine ⟨hkey, hside, hideal.exporter one hone other hother ?_⟩
  rw [hbinding, hbinding'] at hexporter
  exact Vector.toList_inj.mp hexporter

/-- What an end accepts, whose PIN the adversary does not hold, was written by an end
of the other side with the same key on the same TLS session. -/
theorem Sound.counterpart {exporter : Exporter} {adversary : Adversary} {ends : List (End crypto)}
    (h : Sound exporter adversary ends) (hideal : Ideal exporter adversary ends)
    {state : End crypto} (hmem : state ∈ ends) (hsafe : ¬ adversary.Holds state) {mac : Digest}
    (hmac : state.accepted = some mac) :
    ∃ keys ∈ state.keys, ∃ writer ∈ ends, ∃ keys' ∈ writer.keys, keys.key = keys'.key ∧
      writer.auth.side = state.auth.side.peer ∧ writer.session = state.session ∧
        .authConfirm (keys'.confirmation crypto) ∈ writer.wrote ∧
          keys'.confirmation crypto = mac ∧
            (writer.auth.side = .host → writer.accepted ≠ none) := by
  obtain ⟨keys, hkeys, hcorrect⟩ := (h.consistent state hmem).accepted mac hmac
  obtain ⟨hside, -⟩ := (h.consistent state hmem).own keys hkeys
  rcases h.sourced state hmem mac hmac with ⟨writer, hwriter, hwrote⟩ | ⟨key, data, hquery, hhash⟩
  · obtain ⟨keys', hkeys', hconfirm, hfirst⟩ := (h.consistent writer hwriter).wrote mac hwrote
    obtain ⟨hside', -⟩ := (h.consistent writer hwriter).own keys' hkeys'
    obtain ⟨hkey, hpeer, hsession⟩ := h.mac_inj hideal hmem hwriter hkeys hkeys'
      (hcorrect.trans hconfirm.symm)
    refine ⟨keys, hkeys, writer, hwriter, keys', hkeys', hkey, ?_, hsession.symm, ?_, hconfirm,
      hfirst⟩
    · rw [← hside', ← hpeer, hside]
    · rw [hconfirm]
      exact hwrote
  · -- The adversary would have computed the key.
    obtain ⟨hkey, -⟩ := hideal.collisionFree key data _ _ (Or.inl hquery)
      (Or.inr ⟨state, hmem, keys, hkeys, keys.side.peer, rfl, rfl⟩) (hhash.trans hcorrect.symm)
    subst hkey
    exact absurd (hideal.secrecy state hmem keys hkeys data hquery) hsafe

/-- Every run of any number of handshakes authenticates mutually. -/
theorem mutuallyAuthenticated {exporter : Exporter} {adversary : Adversary}
    {events : List (HandshakeEvent crypto)}
    (hdelivers : Along (stepEnds exporter) adversary.Delivers [] events)
    (hideal : Ideal exporter adversary (run (stepEnds exporter) [] events)) :
    MutuallyAuthenticated adversary (run (stepEnds exporter) [] events) := by
  have h := sound_run hdelivers
  set ends := run (stepEnds exporter) [] events
  constructor
  · intro host hhost hside hok hsafe
    obtain ⟨mac, hmac⟩ := Option.ne_none_iff_exists'.mp ((h.consistent host hhost).ok hok.accepted)
    obtain ⟨keys, hkeys, client, hclient, keys', hkeys', hkey, hclientSide, hsession, hwrote,
      hconfirm, -⟩ := h.counterpart hideal hhost hsafe hmac
    rw [hside] at hclientSide
    have hagreed := (hideal.agreement client hclient host hhost hclientSide hside keys' hkeys' keys
      hkeys).mp hkey.symm
    exact ⟨client, hclient, hclientSide, hagreed.1, hsession, keys', hkeys', hwrote,
      hconfirm ▸ hmac⟩
  · intro client hclient hside hok hsafe
    obtain ⟨mac, hmac⟩ :=
      Option.ne_none_iff_exists'.mp ((h.consistent client hclient).ok hok.accepted)
    obtain ⟨keys, hkeys, host, hhost, keys', hkeys', hkey, hhostSide, hsession, -, -, hfirst⟩ :=
      h.counterpart hideal hclient hsafe hmac
    rw [hside] at hhostSide
    have hagreed := (hideal.agreement client hclient host hhost hside hhostSide keys hkeys keys'
      hkeys').mp hkey
    obtain ⟨hclientSide, hclientBinding⟩ := (h.consistent client hclient).own keys hkeys
    obtain ⟨hkeysSide, hhostBinding⟩ := (h.consistent host hhost).own keys' hkeys'
    refine ⟨host, hhost, hhostSide, hagreed.1, hsession, keys, hkeys,
      (h.consistent client hclient).clientWrote hside keys hkeys, ?_⟩
    -- What the host accepted is the MAC of the same key, label and exporter value.
    obtain ⟨first, hfirst⟩ := Option.ne_none_iff_exists'.mp (hfirst hhostSide)
    obtain ⟨held, hheld, hcorrect⟩ := (h.consistent host hhost).accepted first hfirst
    obtain rfl := Option.some.inj (hkeys'.symm.trans hheld)
    rw [hfirst, ← hcorrect, PinKeys.confirmation, PinKeys.mac, PinKeys.mac, hkey, hkeysSide,
      hhostSide, hclientSide, hside, hclientBinding, hhostBinding, hsession]
    rfl
  · intro i j acceptor writer mac hacceptor hwriter hmac hwrote
    have hmem := List.mem_of_getElem? hacceptor
    have hmem' := List.mem_of_getElem? hwriter
    obtain ⟨keys, hkeys, hcorrect⟩ := (h.consistent acceptor hmem).accepted mac hmac
    obtain ⟨keys', hkeys', hconfirm, -⟩ := (h.consistent writer hmem').wrote mac hwrote
    obtain ⟨-, hpeer, hsession⟩ := h.mac_inj hideal hmem hmem' hkeys hkeys'
      (hcorrect.trans hconfirm.symm)
    refine ⟨?_, hsession.symm⟩
    rintro rfl
    obtain rfl := Option.some.inj (hacceptor.symm.trans hwriter)
    obtain rfl := Option.some.inj (hkeys.symm.trans hkeys')
    cases hsides : keys.side <;> simp [hsides, Side.peer] at hpeer

/-! ## One honest handshake -/

/-- The PIN of a recorded handshake. -/
def recordedPin : String := "482913"

/-- The channel of the recorded handshake. -/
def recordedExporter : Vector UInt8 32 := #v[
  0x00, 0x01, 0x02, 0x03, 0x04, 0x05, 0x06, 0x07, 0x08, 0x09, 0x0a, 0x0b,
  0x0c, 0x0d, 0x0e, 0x0f, 0x10, 0x11, 0x12, 0x13, 0x14, 0x15, 0x16, 0x17,
  0x18, 0x19, 0x1a, 0x1b, 0x1c, 0x1d, 0x1e, 0x1f]

/-- The element that the client sends for the PIN and the scalar 2024. -/
def recordedClientElement : Bytes := [
  0x41, 0x37, 0xc3, 0x56, 0xd5, 0xac, 0xd1, 0x2d, 0xdf, 0xe8, 0x0e, 0x81,
  0xff, 0x07, 0x4b, 0x0e, 0x3f, 0x3f, 0x94, 0x6f, 0xdb, 0x2b, 0x3a, 0xd2,
  0x02, 0x55, 0xe8, 0x0f, 0xa5, 0xb5, 0xaa, 0x10, 0x62]

/-- The element that the host sends for the PIN and the scalar 2025. -/
def recordedHostElement : Bytes := [
  0x42, 0x5a, 0x6a, 0xe2, 0xa9, 0x2b, 0x36, 0x34, 0x62, 0xdb, 0x05, 0xac,
  0x3c, 0x9f, 0x1d, 0x47, 0xb1, 0x61, 0x7a, 0x43, 0xbe, 0x5a, 0x54, 0xde,
  0xa1, 0x08, 0x84, 0xde, 0x02, 0x4c, 0xaa, 0x70, 0x21]

/-- The SPAKE2 key of both. -/
def recordedKey : Bytes := [
  0x2a, 0x21, 0x0a, 0x4a, 0xa1, 0xce, 0x51, 0x72, 0x77, 0xc8, 0x4b, 0x81,
  0x84, 0xf7, 0xa5, 0xd6, 0x90, 0x08, 0x38, 0x39, 0x2d, 0xa2, 0x84, 0x6b,
  0x9a, 0x6b, 0xbe, 0xa1, 0x0c, 0xa8, 0x59, 0xf1]

/-- The confirmation that the client sent. -/
def recordedClientMac : Digest := #v[
  0x76, 0xf3, 0xde, 0x26, 0xe9, 0xf8, 0x2d, 0x0a, 0x7e, 0x71, 0x9f, 0x36,
  0xc4, 0x4e, 0xc3, 0x6a, 0x94, 0x56, 0x47, 0x03, 0xed, 0x06, 0x43, 0xb4,
  0xb1, 0xe4, 0x3d, 0x0f, 0x85, 0x2a, 0x94, 0x29]

/-- The confirmation that the host sent. -/
def recordedHostMac : Digest := #v[
  0x5b, 0x18, 0x73, 0x07, 0x1e, 0x5b, 0x9b, 0x63, 0xdf, 0x1f, 0xf7, 0x32,
  0x1e, 0x41, 0xac, 0xb2, 0x83, 0xa6, 0xf9, 0xdd, 0xf3, 0xf3, 0x51, 0xa3,
  0xe9, 0x31, 0x82, 0xa6, 0x75, 0x6d, 0xa8, 0x28]

/-- SPAKE2 and HMAC-SHA256 as far as one honest handshake uses them. -/
def recordedCrypto : PinCrypto where
  State := Side
  Coins := Unit
  startA := fun _ _ _ _ => (.client, recordedClientElement)
  startB := fun _ _ _ _ => (.host, recordedHostElement)
  finish := fun side peer =>
    match side with
    | .client => if peer = recordedHostElement then some recordedKey else none
    | .host => if peer = recordedClientElement then some recordedKey else none
  hmac := fun _ data =>
    if data = Side.client.label ++ recordedExporter.toList then recordedClientMac
    else if data = Side.host.label ++ recordedExporter.toList then recordedHostMac
    else Vector.replicate 32 0

/-- Both ends on one TLS session, with every message delivered. -/
def honestHandshake : List (HandshakeEvent recordedCrypto) :=
  [.clientOpens 0 recordedPin (), .hostOpens 0 (some recordedPin),
    .returns 0 {} 0 (.written true),
    .returns 1 {} 0 (.received (.ok (.auth recordedClientElement)) ()),
    .returns 1 {} 0 (.written true),
    .returns 0 {} 0 (.received (.ok (.auth recordedHostElement)) ()),
    .returns 0 {} 0 (.written true),
    .returns 1 {} 0 (.received (.ok (.authConfirm recordedClientMac)) ()),
    .returns 1 {} 0 (.written true),
    .returns 0 {} 0 (.received (.ok (.authConfirm recordedHostMac)) ())]

/-- The adversary of that run holds another PIN. -/
def otherPinAdversary : Adversary where
  pins := {"000000"}
  queries := ∅

/-- The client behind the handshake. -/
def honestClient : End recordedCrypto where
  session := 0
  pin := some recordedPin
  auth := .client (.finished (.ok ()))
  peer := some recordedHostElement
  keys := some { side := .client, key := recordedKey, binding := recordedExporter.toList }
  wrote := [.auth recordedClientElement, .authConfirm recordedClientMac]
  accepted := some recordedHostMac

/-- The host behind the handshake. -/
def honestHost : End recordedCrypto where
  session := 0
  pin := some recordedPin
  auth := .host (.finished (.ok ()))
  peer := some recordedClientElement
  keys := some { side := .host, key := recordedKey, binding := recordedExporter.toList }
  wrote := [.auth recordedHostElement, .authConfirm recordedHostMac]
  accepted := some recordedClientMac

/-- Each connection has a channel of its own. -/
def honestExporter : Exporter := fun session =>
  if session = 0 then recordedExporter else Vector.replicate 32 (UInt8.ofNat session)

/-- The recorded messages take both ends to the end. -/
theorem run_honestHandshake :
    run (stepEnds honestExporter) [] honestHandshake = [honestClient, honestHost] := by
  rfl

/-- Each confirmation is heard before it is delivered. -/
theorem delivers_honestHandshake :
    Along (stepEnds honestExporter) otherPinAdversary.Delivers [] honestHandshake := by
  refine ⟨trivial, trivial, trivial, trivial, trivial, trivial, trivial, ?_, trivial, ?_, trivial⟩
  · exact .heard (List.mem_cons_self) (List.mem_cons_of_mem _ List.mem_cons_self)
  · exact .heard (List.mem_cons_of_mem _ List.mem_cons_self)
      (List.mem_cons_of_mem _ List.mem_cons_self)

/-- The idealisation holds of the recorded handshake. -/
theorem ideal_honestHandshake :
    Ideal honestExporter otherPinAdversary [honestClient, honestHost] where
  agreement := by
    intro client hclient host hhost hside hside' keys hkeys keys' hkeys'
    simp only [List.mem_cons, List.not_mem_nil, or_false] at hclient hhost
    rcases hclient with rfl | rfl
    · rcases hhost with rfl | rfl
      · cases hside'
      · obtain rfl := Option.some.inj hkeys
        obtain rfl := Option.some.inj hkeys'
        refine ⟨fun _ =>
            ⟨⟨_, rfl, _, rfl, rfl⟩, ⟨_, rfl, List.mem_cons_self⟩, ⟨_, rfl, List.mem_cons_self⟩⟩,
          fun _ => rfl⟩
    · cases hside
  secrecy := by
    rintro _ _ _ _ _ ⟨⟩
  collisionFree := by
    -- All that is hashed is the two labels with the exporter value, under the one key.
    have hhashed : ∀ key data, Hashed otherPinAdversary [honestClient, honestHost] key data →
        ∃ side : Side, key = recordedKey ∧ data = side.label ++ recordedExporter.toList := by
      rintro key data (hquery | ⟨state, hstate, keys, hkeys, side, rfl, rfl⟩)
      · exact absurd hquery (Set.notMem_empty _)
      simp only [List.mem_cons, List.not_mem_nil, or_false] at hstate
      rcases hstate with rfl | rfl
      · obtain rfl := Option.some.inj hkeys
        exact ⟨side, rfl, rfl⟩
      · obtain rfl := Option.some.inj hkeys
        exact ⟨side, rfl, rfl⟩
    have hdiffer : recordedClientMac ≠ recordedHostMac := by decide
    intro key data key' data' h h' hmac
    obtain ⟨side, rfl, rfl⟩ := hhashed key data h
    obtain ⟨side', rfl, rfl⟩ := hhashed key' data' h'
    cases side <;> cases side'
    · exact ⟨rfl, rfl⟩
    · exact absurd hmac hdiffer
    · exact absurd hmac.symm hdiffer
    · exact ⟨rfl, rfl⟩
  exporter := by
    intro one hone other hother _
    simp only [List.mem_cons, List.not_mem_nil, or_false] at hone hother
    rcases hone with rfl | rfl <;> rcases hother with rfl | rfl <;> rfl

/-- Both ends of the recorded handshake agree. -/
theorem mutuallyAuthenticated_honestHandshake :
    MutuallyAuthenticated otherPinAdversary
      (run (stepEnds honestExporter) [] honestHandshake) :=
  mutuallyAuthenticated delivers_honestHandshake
    (run_honestHandshake.symm ▸ ideal_honestHandshake)

end OmarchyConnect.System
