/-
# What a handshake can do

`step_cases` says what a step of either machine can do. From it every end stays
consistent: it has the keys of its own side and TLS session, and writes and accepts
confirmations under these keys only.
-/

import OmarchyConnect.System.Handshakes

namespace OmarchyConnect.System

open OmarchyConnect.Library.Wire OmarchyConnect.Protocol OmarchyConnect.Host
open OmarchyConnect.Client

variable {crypto : PinCrypto}

/-! ## What a step of a machine can do -/

/-- The keys are those of the end, bound to its channel. -/
theorem finish_ok {exchange : PinExchange crypto} {peer binding : Bytes} {keys : PinKeys}
    (h : exchange.finish crypto peer binding = .ok keys) :
    keys.side = exchange.side ∧ keys.binding = binding := by
  unfold PinExchange.finish at h
  split at h
  · cases h
  · obtain rfl := Except.ok.inj h
    exact ⟨rfl, rfl⟩

namespace EndAuth

/-- The exchange that the machine holds. -/
def exchange : EndAuth crypto → Option (PinExchange crypto)
  | .client (.writingAuth exchange _) => some exchange
  | .client (.readingAuth exchange) => some exchange
  | .host (.writingAuth exchange _ _) => some exchange
  | _ => none

/-- The machine has no keys yet. -/
def Starting : EndAuth crypto → Prop
  | .client (.writingAuth _ _) => True
  | .client (.readingAuth _) => True
  | .host .readingAuth => True
  | .host (.writingAuth _ _ _) => True
  | _ => False

/-- The machine has accepted a confirmation. -/
def Accepted : EndAuth crypto → Prop
  | .client (.finished (.ok ())) => True
  | .host (.writingConfirm _) => True
  | .host (.finished (.ok ())) => True
  | _ => False

/-- An end that is done has accepted. -/
theorem Ok.accepted {auth : EndAuth crypto} (h : auth.Ok) : auth.Accepted := by
  unfold Ok at h
  split at h
  · trivial
  · trivial
  · exact h.elim

/-- The machine goes on with what it has. -/
structure Continues (auth next : EndAuth crypto) : Prop where
  side : next.side = auth.side
  exchange : ∀ exchange ∈ next.exchange, exchange ∈ auth.exchange ∨ exchange.side = auth.side
  keys : ∀ keys ∈ next.keys, keys ∈ auth.keys
  writing : ∀ mac, .authConfirm mac ∈ next.writing → .authConfirm mac ∈ auth.writing
  starting : next.Starting → auth.Starting
  accepted : next.Accepted → auth.Accepted

/-- An end may stay as it is. -/
theorem Continues.refl (auth : EndAuth crypto) : Continues auth auth :=
  ⟨rfl, fun _ => Or.inl, fun _ => id, fun _ => id, id, id⟩

/-- The machine gets its keys. A client writes its confirmation at once. -/
structure Finishes (binding : Bytes) (auth next : EndAuth crypto) (keys : PinKeys) : Prop where
  side : next.side = auth.side
  starting : auth.Starting
  started : ¬ next.Starting
  accepted : ¬ next.Accepted
  noExchange : next.exchange = none
  own : ∃ exchange ∈ auth.exchange, keys.side = exchange.side
  binding : keys.binding = binding
  holds : next.keys = some keys
  writing : next.writing =
    if auth.side = .client then some (.authConfirm (keys.confirmation crypto)) else none

/-- The machine accepts a confirmation. A host writes its own then. -/
structure Accepts (auth next : EndAuth crypto) (keys : PinKeys) (mac : Digest) : Prop where
  side : next.side = auth.side
  started : ¬ next.Starting
  accepted : next.Accepted
  noExchange : next.exchange = none
  held : auth.keys = some keys
  correct : keys.mac crypto keys.side.peer = mac
  dropped : next.keys = none
  writing : next.writing = if auth.side = .host then some (.authConfirm (keys.confirmation crypto))
    else none

/-- All that a step of a machine can do. -/
inductive Stepped (binding : Bytes) (auth : EndAuth crypto) (event : AuthEvent crypto)
    (next : EndAuth crypto) : Prop
  | continues (h : Continues auth next) (hnone : auth.accepts event next = none)
  | finishes {keys : PinKeys} (h : Finishes binding auth next keys)
      (hnone : auth.accepts event next = none)
  | accepts {keys : PinKeys} {mac : Digest} {coins : crypto.Coins}
      (h : Accepts auth next keys mac) (hevent : event = .received (.ok (.authConfirm mac)) coins)
      (hmac : auth.accepts event next = some mac)

/-- An end that has not accepted behind a step has accepted nothing in it. -/
theorem accepts_eq_none {next : EndAuth crypto} (hnext : ¬ next.Accepted) (auth : EndAuth crypto)
    (event : AuthEvent crypto) : auth.accepts event next = none := by
  unfold accepts
  split
  · exact absurd trivial hnext
  · exact absurd trivial hnext
  · rfl

/-- The handshake is over without an acceptance. -/
theorem stepped_lost {binding : Bytes} {auth next : EndAuth crypto} {event : AuthEvent crypto}
    (hside : next.side = auth.side) (hexchange : next.exchange = none) (hkeys : next.keys = none)
    (hwriting : ∀ mac, next.writing ≠ some (.authConfirm mac)) (hstarting : ¬ next.Starting)
    (haccepted : ¬ next.Accepted) : Stepped binding auth event next := by
  refine .continues ⟨hside, ?_, ?_, ?_, fun h => absurd h hstarting, fun h => absurd h haccepted⟩
    (accepts_eq_none haccepted auth event)
  · simp [hexchange]
  · simp [hkeys]
  · exact fun mac hmac => absurd hmac (hwriting mac)

/-! ## The client -/

/-- A client that gives up has accepted nothing. -/
theorem client_failed (binding : Bytes) (auth : ClientAuth crypto) (event : AuthEvent crypto)
    (err : String) : Stepped binding (.client auth) event (.client (.finished (.error err))) :=
  stepped_lost rfl rfl rfl (by rintro _ ⟨⟩) id id

/-- What the client does with the element of the host. -/
theorem client_onAuth (binding : Bytes) (exchange : PinExchange crypto)
    (event : AuthEvent crypto) (hostMsg : Bytes) :
    Stepped binding (.client (.readingAuth exchange)) event
      (.client (.onAuth binding exchange hostMsg)) := by
  rw [ClientAuth.onAuth]
  cases hfinish : exchange.finish crypto hostMsg binding with
  | error err => exact client_failed _ _ _ _
  | ok keys =>
      obtain ⟨hside, hbinding⟩ := finish_ok hfinish
      exact .finishes ⟨rfl, trivial, id, id, rfl, ⟨exchange, rfl, hside⟩, hbinding, rfl, rfl⟩ rfl

/-- What the client does with the confirmation of the host. -/
theorem client_onConfirm (binding : Bytes) (keys : PinKeys) (mac : Digest)
    (coins : crypto.Coins) :
    Stepped binding (.client (.readingConfirm keys)) (.received (.ok (.authConfirm mac)) coins)
      (.client (.onConfirm keys mac)) := by
  rw [ClientAuth.onConfirm, PinKeys.verifyPeer]
  by_cases hmac : keys.mac crypto keys.side.peer = mac
  · rw [if_pos hmac]
    exact .accepts ⟨rfl, id, trivial, rfl, rfl, hmac, rfl, rfl⟩ rfl rfl
  · rw [if_neg hmac]
    exact client_failed _ _ _ _

/-- What a step of the client can do. -/
theorem client_step_cases (binding : Bytes) (auth : ClientAuth crypto) (event : AuthEvent crypto) :
    Stepped binding (.client auth) event (.client (auth.step binding event)) := by
  cases auth with
  | writingAuth exchange msg =>
      cases event with
      | written ok =>
          cases ok with
          | true =>
              exact .continues ⟨rfl, fun _ => Or.inl, by rintro _ ⟨⟩, by rintro _ ⟨⟩, id, id⟩ rfl
          | false => exact client_failed _ _ _ _
      | _ => exact .continues (.refl _) rfl
  | readingAuth exchange =>
      cases event with
      | received incoming coins =>
          cases incoming with
          | error err => exact client_failed _ _ _ _
          | ok msg =>
              cases msg with
              | auth hostMsg => exact client_onAuth binding exchange _ hostMsg
              | _ => exact client_failed _ _ _ _
      | _ => exact .continues (.refl _) rfl
  | writingConfirm keys msg =>
      cases event with
      | written ok =>
          cases ok with
          | true =>
              exact .continues ⟨rfl, by rintro _ ⟨⟩, fun _ => id, by rintro _ ⟨⟩, id, id⟩ rfl
          | false => exact client_failed _ _ _ _
      | _ => exact .continues (.refl _) rfl
  | readingConfirm keys =>
      cases event with
      | received incoming coins =>
          cases incoming with
          | error err => exact client_failed _ _ _ _
          | ok msg =>
              cases msg with
              | authConfirm mac => exact client_onConfirm binding keys mac coins
              | _ => exact client_failed _ _ _ _
      | _ => exact .continues (.refl _) rfl
  | finished result => cases event <;> exact .continues (.refl _) rfl

/-! ## The host -/

/-- A host that gives up has accepted nothing. -/
theorem host_failed (binding : Bytes) (auth : HostAuth crypto) (event : AuthEvent crypto)
    (err : String) : Stepped binding (.host auth) event (.host (.finished (.error err))) :=
  stepped_lost rfl rfl rfl (by rintro _ ⟨⟩) id id

/-- A host that refuses has accepted nothing. -/
theorem host_denied (binding : Bytes) (auth : HostAuth crypto) (event : AuthEvent crypto)
    (retry : UInt32) (reason err : String) :
    Stepped binding (.host auth) event (.host (.denying (.authDenied retry reason) err)) :=
  stepped_lost rfl rfl rfl (by rintro _ ⟨⟩) id id

/-- A host that is to refuse later has accepted nothing. -/
theorem host_delayed (binding : Bytes) (auth : HostAuth crypto) (event : AuthEvent crypto)
    (retry : UInt32) : Stepped binding (.host auth) event (.host (.delaying retry)) :=
  stepped_lost rfl rfl rfl (by rintro _ ⟨⟩) id id

/-- What the host does with the element of the client. -/
theorem host_onAuth (pin : Option String) (binding : Bytes) (lockout : Lockout) (now : ℕ)
    (coins : crypto.Coins) (clientMsg : Bytes) :
    Stepped binding (.host .readingAuth) (.received (.ok (.auth clientMsg)) coins)
      (.host (.onAuth pin lockout now coins clientMsg)) := by
  simp only [HostAuth.onAuth]
  cases lockout.remaining now with
  | some left => exact host_denied _ _ _ _ _ _
  | none =>
      cases pin with
      | none => exact host_denied _ _ _ _ _ _
      | some pin =>
          refine .continues ⟨rfl, ?_, by rintro _ ⟨⟩, by rintro _ ⟨⟩, id, id⟩ rfl
          rintro exchange ⟨⟩
          exact Or.inr rfl

/-- What the host does with the confirmation of the client. -/
theorem host_onConfirm (binding : Bytes) (lockout : Lockout) (now : ℕ)
    (keys : Except AuthFailure PinKeys) (mac : Digest) (coins : crypto.Coins) :
    Stepped binding (.host (.readingConfirm keys)) (.received (.ok (.authConfirm mac)) coins)
      (.host (@HostAuth.onConfirm crypto lockout now keys mac).1) := by
  simp only [HostAuth.onConfirm]
  cases keys with
  | error err => exact host_delayed _ _ _ _
  | ok keys =>
      simp only [PinKeys.verifyPeer]
      by_cases hmac : keys.mac crypto keys.side.peer = mac
      · rw [if_pos hmac]
        exact .accepts ⟨rfl, id, trivial, rfl, rfl, hmac, rfl, rfl⟩ rfl rfl
      · rw [if_neg hmac]
        exact host_delayed _ _ _ _

/-- What a step of the host can do. -/
theorem host_step_cases (pin : Option String) (binding : Bytes) (lockout : Lockout) (now : ℕ)
    (auth : HostAuth crypto) (event : AuthEvent crypto) :
    Stepped binding (.host auth) event (.host (auth.step pin binding lockout now event).1) := by
  cases auth with
  | readingAuth =>
      cases event with
      | received incoming coins =>
          cases incoming with
          | error err => exact host_failed _ _ _ _
          | ok msg =>
              cases msg with
              | auth clientMsg => exact host_onAuth pin binding lockout now coins clientMsg
              | _ => exact host_failed _ _ _ _
      | _ => exact .continues (.refl _) rfl
  | denying msg err =>
      cases event with
      | written ok => exact host_failed _ _ _ _
      | _ => exact .continues (.refl _) rfl
  | writingAuth exchange clientMsg msg =>
      cases event with
      | written ok =>
          cases ok with
          | true =>
              simp only [HostAuth.step]
              cases hfinish : exchange.finish crypto clientMsg binding with
              | error err => exact stepped_lost rfl rfl rfl (by rintro _ ⟨⟩) id id
              | ok keys =>
                  obtain ⟨hside, hbinding⟩ := finish_ok hfinish
                  exact .finishes ⟨rfl, trivial, id, id, rfl, ⟨exchange, rfl, hside⟩, hbinding,
                    rfl, rfl⟩ rfl
          | false => exact host_failed _ _ _ _
      | _ => exact .continues (.refl _) rfl
  | readingConfirm keys =>
      cases event with
      | received incoming coins =>
          cases incoming with
          | error err => exact host_failed _ _ _ _
          | ok msg =>
              cases msg with
              | authConfirm mac => exact host_onConfirm binding lockout now keys mac coins
              | _ => exact host_failed _ _ _ _
      | _ => exact .continues (.refl _) rfl
  | delaying retry =>
      cases event with
      | slept => exact host_denied _ _ _ _ _ _
      | _ => exact .continues (.refl _) rfl
  | writingConfirm msg =>
      cases event with
      | written ok =>
          cases ok with
          | true =>
              exact .continues ⟨rfl, by rintro _ ⟨⟩, by rintro _ ⟨⟩, by rintro _ ⟨⟩, False.elim,
                fun _ => trivial⟩ rfl
          | false => exact host_failed _ _ _ _
      | _ => exact .continues (.refl _) rfl
  | finished result => cases event <;> exact .continues (.refl _) rfl

/-- What a step of either end can do. -/
theorem step_cases (pin : Option String) (binding : Bytes) (lockout : Lockout) (now : ℕ)
    (auth : EndAuth crypto) (event : AuthEvent crypto) :
    Stepped binding auth event (auth.step pin binding lockout now event) := by
  cases auth with
  | client auth => exact client_step_cases binding auth event
  | host auth => exact host_step_cases pin binding lockout now auth event

end EndAuth

/-! ## One end -/

/-- What an end remembers agrees with its machine: it has the keys of its own side and
TLS session, wrote no confirmation but its own, and accepted none but its peer's. -/
structure End.Consistent (exporter : Exporter) (state : End crypto) : Prop where
  exchange : ∀ exchange ∈ state.auth.exchange, exchange.side = state.auth.side
  starting : state.auth.Starting → state.keys = none
  current : ∀ keys ∈ state.auth.keys, state.keys = some keys
  own : ∀ keys ∈ state.keys,
    keys.side = state.auth.side ∧ keys.binding = (exporter state.session).toList
  writing : ∀ msg ∈ state.auth.writing, msg ∈ state.wrote
  wrote : ∀ mac, .authConfirm mac ∈ state.wrote → ∃ keys ∈ state.keys,
    keys.confirmation crypto = mac ∧ (state.auth.side = .host → state.accepted ≠ none)
  clientWrote : state.auth.side = .client → ∀ keys ∈ state.keys,
    .authConfirm (keys.confirmation crypto) ∈ state.wrote
  accepted : ∀ mac ∈ state.accepted, ∃ keys ∈ state.keys,
    keys.mac crypto keys.side.peer = mac
  ok : state.auth.Accepted → state.accepted ≠ none

/-- A client that has just opened a connection. -/
theorem End.consistent_openClient (exporter : Exporter) (session : ℕ) (pin : String)
    (coins : crypto.Coins) : (End.openClient session pin coins).Consistent exporter where
  exchange := by
    rintro exchange ⟨⟩
    rfl
  starting _ := rfl
  current := by rintro _ ⟨⟩
  own := by rintro _ ⟨⟩
  writing := by
    intro msg hmsg
    exact Option.mem_toList.mpr hmsg
  wrote := by
    intro mac hmac
    simp [End.openClient, ClientAuth.start, EndAuth.writing] at hmac
  clientWrote := by rintro _ _ ⟨⟩
  accepted := by rintro _ ⟨⟩
  ok := False.elim

/-- A host that has just taken a connection. -/
theorem End.consistent_openHost (exporter : Exporter) (session : ℕ) (pin : Option String) :
    (End.openHost session pin : End crypto).Consistent exporter where
  exchange := by rintro _ ⟨⟩
  starting _ := rfl
  current := by rintro _ ⟨⟩
  own := by rintro _ ⟨⟩
  writing := by rintro _ ⟨⟩
  wrote := by rintro _ ⟨⟩
  clientWrote := by rintro ⟨⟩
  accepted := by rintro _ ⟨⟩
  ok := False.elim

/-- What an end remembers behind a step of its machine. -/
structure End.Remembers (state next : End crypto) (event : AuthEvent crypto) : Prop where
  session : next.session = state.session
  keys : next.keys = next.auth.keys.or state.keys
  accepted : next.accepted = (state.auth.accepts event next.auth).or state.accepted
  wrote : next.wrote = state.wrote ++ next.auth.writing.toList

section

variable {exporter : Exporter} {state next : End crypto} {event : AuthEvent crypto}

/-- What an end has written is what it had written and what it writes now. -/
theorem End.Remembers.mem_wrote_iff (h : state.Remembers next event) (msg : Message) :
    msg ∈ next.wrote ↔ msg ∈ state.wrote ∨ msg ∈ next.auth.writing := by
  rw [h.wrote, List.mem_append, Option.mem_toList]
  exact Iff.rfl

/-- A machine that goes on writes and accepts nothing new. -/
theorem End.Consistent.continues (h : state.Consistent exporter)
    (hmoved : state.Remembers next event) (hnext : EndAuth.Continues state.auth next.auth)
    (hnone : state.auth.accepts event next.auth = none) : next.Consistent exporter := by
  have hkeys : next.keys = state.keys := by
    rw [hmoved.keys]
    cases hheld : next.auth.keys with
    | none => rfl
    | some keys => exact (h.current keys (hnext.keys keys hheld)).symm
  have haccepted : next.accepted = state.accepted := by
    rw [hmoved.accepted, hnone, Option.none_or]
  constructor
  case exchange =>
    intro exchange hexchange
    rw [hnext.side]
    exact (hnext.exchange exchange hexchange).elim (h.exchange exchange) id
  case starting =>
    intro hstarting
    rw [hkeys]
    exact h.starting (hnext.starting hstarting)
  case current =>
    intro keys hheld
    rw [hkeys]
    exact h.current keys (hnext.keys keys hheld)
  case own =>
    rw [hkeys, hnext.side, hmoved.session]
    exact h.own
  case writing => exact fun msg hmsg => (hmoved.mem_wrote_iff msg).mpr (Or.inr hmsg)
  case wrote =>
    intro mac hmac
    rw [hkeys, hnext.side, haccepted]
    refine h.wrote mac (((hmoved.mem_wrote_iff _).mp hmac).elim id fun hwritten => ?_)
    exact h.writing _ (hnext.writing mac hwritten)
  case clientWrote =>
    rw [hkeys, hnext.side]
    intro hside keys hheld
    exact (hmoved.mem_wrote_iff _).mpr (Or.inl (h.clientWrote hside keys hheld))
  case accepted =>
    rw [hkeys, haccepted]
    exact h.accepted
  case ok =>
    rw [haccepted]
    exact fun hdone => h.ok (hnext.accepted hdone)

/-- A machine that gets its keys has confirmed and accepted nothing before. -/
theorem End.Consistent.finishes {keys : PinKeys} (h : state.Consistent exporter)
    (hmoved : state.Remembers next event)
    (hnext : EndAuth.Finishes (exporter state.session).toList state.auth next.auth keys)
    (hnone : state.auth.accepts event next.auth = none) : next.Consistent exporter := by
  have hempty : state.keys = none := h.starting hnext.starting
  have hkeys : next.keys = some keys := by
    rw [hmoved.keys, hnext.holds, Option.some_or]
  have hunaccepted : next.accepted = none := by
    rw [hmoved.accepted, hnone, Option.none_or]
    cases hmac : state.accepted with
    | none => rfl
    | some mac =>
        obtain ⟨held, hheld, -⟩ := h.accepted mac hmac
        simp [hempty] at hheld
  have hside : keys.side = next.auth.side := by
    obtain ⟨exchange, hexchange, hside⟩ := hnext.own
    rw [hside, hnext.side]
    exact h.exchange exchange hexchange
  constructor
  case exchange =>
    intro exchange hexchange
    simp [hnext.noExchange] at hexchange
  case starting => exact fun hstarting => absurd hstarting hnext.started
  case current =>
    intro held hheld
    rw [hnext.holds] at hheld
    rw [hkeys]
    exact hheld
  case own =>
    intro held hheld
    obtain rfl := Option.some.inj (hkeys.symm.trans hheld)
    rw [hmoved.session]
    exact ⟨hside, hnext.binding⟩
  case writing => exact fun msg hmsg => (hmoved.mem_wrote_iff msg).mpr (Or.inr hmsg)
  case wrote =>
    intro mac hmac
    rcases (hmoved.mem_wrote_iff _).mp hmac with hwritten | hwritten
    · obtain ⟨held, hheld, -⟩ := h.wrote mac hwritten
      simp [hempty] at hheld
    · rw [hnext.writing] at hwritten
      split_ifs at hwritten with hclient
      · obtain rfl := Message.authConfirm.inj (Option.some.inj hwritten)
        refine ⟨keys, hkeys, rfl, fun hhost => ?_⟩
        rw [hnext.side, hclient] at hhost
        cases hhost
      · cases hwritten
  case clientWrote =>
    intro hclient held hheld
    obtain rfl := Option.some.inj (hkeys.symm.trans hheld)
    refine (hmoved.mem_wrote_iff _).mpr (Or.inr ?_)
    rw [hnext.writing, if_pos (hnext.side ▸ hclient)]
    rfl
  case accepted =>
    intro mac hmac
    simp [hunaccepted] at hmac
  case ok => exact fun hdone => absurd hdone hnext.accepted

/-- A machine that accepts a confirmation checked it with the keys of the end. -/
theorem End.Consistent.accepts {keys : PinKeys} {mac : Digest} (h : state.Consistent exporter)
    (hmoved : state.Remembers next event)
    (hnext : EndAuth.Accepts state.auth next.auth keys mac)
    (hmac : state.auth.accepts event next.auth = some mac) : next.Consistent exporter := by
  have hheld : state.keys = some keys := h.current keys hnext.held
  have hkeys : next.keys = some keys := by
    rw [hmoved.keys, hnext.dropped, Option.none_or, hheld]
  have haccepted : next.accepted = some mac := by
    rw [hmoved.accepted, hmac, Option.some_or]
  constructor
  case exchange =>
    intro exchange hexchange
    simp [hnext.noExchange] at hexchange
  case starting => exact fun hstarting => absurd hstarting hnext.started
  case current =>
    intro held hother
    simp [hnext.dropped] at hother
  case own =>
    intro held hother
    obtain rfl := Option.some.inj (hkeys.symm.trans hother)
    rw [hnext.side, hmoved.session]
    exact h.own keys hheld
  case writing => exact fun msg hmsg => (hmoved.mem_wrote_iff msg).mpr (Or.inr hmsg)
  case wrote =>
    intro other hother
    rcases (hmoved.mem_wrote_iff _).mp hother with hwritten | hwritten
    · obtain ⟨held, hsame, hconfirm, -⟩ := h.wrote other hwritten
      exact ⟨held, by rw [hkeys, ← hheld]; exact hsame, hconfirm, fun _ => by simp [haccepted]⟩
    · rw [hnext.writing] at hwritten
      split_ifs at hwritten
      · obtain rfl := Message.authConfirm.inj (Option.some.inj hwritten)
        exact ⟨keys, hkeys, rfl, fun _ => by simp [haccepted]⟩
      · cases hwritten
  case clientWrote =>
    intro hclient held hother
    rw [hkeys, ← hheld] at hother
    exact (hmoved.mem_wrote_iff _).mpr (Or.inl (h.clientWrote (hnext.side ▸ hclient) held hother))
  case accepted =>
    intro other hother
    obtain rfl := Option.some.inj (haccepted.symm.trans hother)
    exact ⟨keys, hkeys, hnext.correct⟩
  case ok => exact fun _ => by simp [haccepted]

end

/-- A step keeps an end consistent. -/
theorem End.Consistent.step {exporter : Exporter} {state : End crypto}
    (h : state.Consistent exporter) (lockout : Lockout) (now : ℕ) (event : AuthEvent crypto) :
    (state.step exporter lockout now event).Consistent exporter := by
  have hmoved : state.Remembers (state.step exporter lockout now event) event :=
    ⟨rfl, rfl, rfl, rfl⟩
  have hcases := EndAuth.step_cases state.pin (exporter state.session).toList lockout now state.auth
    event
  cases hcases with
  | continues hnext hnone => exact h.continues hmoved hnext hnone
  | finishes hnext hnone => exact h.finishes hmoved hnext hnone
  | accepts hnext _ hmac => exact h.accepts hmoved hnext hmac

end OmarchyConnect.System
