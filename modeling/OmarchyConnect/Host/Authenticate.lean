/-
# The handshake of the host

A future runs from one await to the next without interruption and may be dropped at
any of them. So the handshake is a machine whose states are the awaits of the source
and whose steps are what runs between two of them. `HostAuth` is `authenticate`, and
`HostState` is the accept loop around it: one connection after another, all with the
same lockout.
-/

import OmarchyConnect.Host.Lockout
import OmarchyConnect.Protocol.Auth

namespace OmarchyConnect.Host

open OmarchyConnect.Library.Wire OmarchyConnect.Protocol

variable (crypto : PinCrypto)

/-- Where `authenticate` waits: for a message, for a write or for the delay after a
wrong PIN. An error carries its text. -/
inductive HostAuth
  | readingAuth
  | denying (msg : Message) (err : String)
  | writingAuth (exchange : PinExchange crypto) (clientMsg : Bytes) (msg : Message)
  | readingConfirm (keys : Except AuthFailure PinKeys)
  | delaying (retry : UInt32)
  | writingConfirm (msg : Message)
  | finished (result : Except String Unit)

/-- What an await returns. Reading `Auth` also draws the coins of the exchange. -/
inductive AuthEvent
  | received (incoming : Except ProtocolError Message) (coins : crypto.Coins)
  | written (ok : Bool)
  | slept

variable {crypto}

/-- `authenticate` up to the message of the client. -/
def HostAuth.onAuth (pin : Option String) (lockout : Lockout) (now : ℕ)
    (coins : crypto.Coins) (clientMsg : Bytes) : HostAuth crypto :=
  match lockout.remaining now with
  | some left =>
      let secs := max (asSecs left) 1
      .denying
        (.authDenied (UInt32.ofNat secs)
          ("Too many wrong PINs. Try again in " ++ toString secs ++ " s."))
        ("locked out for " ++ toString secs ++ " s")
  | none =>
      match pin with
      | none =>
          .denying
            (.authDenied 0
              "Unattended access is off on this host. Turn it on and set a PIN from Omarchy Connect in the top bar.")
            "refused: no unattended PIN set"
      | some pin =>
          let (exchange, hostMsg) := PinExchange.start crypto .host pin coins
          .writingAuth exchange clientMsg (.auth hostMsg)

/-- Check the confirmation of the client. A failure is counted before anything else
is awaited. -/
def HostAuth.onConfirm (lockout : Lockout) (now : ℕ) (keys : Except AuthFailure PinKeys)
    (mac : Digest) : HostAuth crypto × Lockout :=
  match keys with
  | .ok keys =>
      match keys.verifyPeer crypto mac with
      | .ok () => (.writingConfirm (.authConfirm (keys.confirmation crypto)), lockout.succeed)
      | .error _ =>
          let (lock, lockout) := lockout.fail now
          (.delaying (UInt32.ofNat (asSecs (lock.getD 0))), lockout)
  | .error _ =>
      let (lock, lockout) := lockout.fail now
      (.delaying (UInt32.ofNat (asSecs (lock.getD 0))), lockout)

/-- `authenticate` from one await to the next. -/
def HostAuth.step (pin : Option String) (binding : Bytes) (lockout : Lockout) (now : ℕ)
    (auth : HostAuth crypto) (event : AuthEvent crypto) : HostAuth crypto × Lockout :=
  match auth, event with
  | .readingAuth, .received (.ok (.auth clientMsg)) coins =>
      (.onAuth pin lockout now coins clientMsg, lockout)
  | .readingAuth, .received (.ok _) _ => (.finished (.error "expected auth"), lockout)
  | .readingAuth, .received (.error _) _ => (.finished (.error "read auth"), lockout)
  | .denying _ err, .written _ => (.finished (.error err), lockout)
  | .writingAuth exchange clientMsg _, .written true =>
      (.readingConfirm (exchange.finish crypto clientMsg binding), lockout)
  | .writingAuth _ _ _, .written false => (.finished (.error "write auth"), lockout)
  | .readingConfirm keys, .received (.ok (.authConfirm mac)) _ =>
      HostAuth.onConfirm lockout now keys mac
  | .readingConfirm _, .received (.ok _) _ =>
      (.finished (.error "expected auth confirm"), lockout)
  | .readingConfirm _, .received (.error _) _ =>
      (.finished (.error "read auth confirm"), lockout)
  | .delaying retry, .slept => (.denying (.authDenied retry "Wrong PIN.") "wrong PIN", lockout)
  | .writingConfirm _, .written true => (.finished (.ok ()), lockout)
  | .writingConfirm _, .written false => (.finished (.error "write auth confirm"), lockout)
  | auth, _ => (auth, lockout)

/-! ## The accept loop -/

variable (crypto)

/-- Where the handshake of `handle_client` waits. -/
inductive Handshake
  | acceptingTls
  | readingHello
  | denyingVersion (msg : Message)
  | writingHelloAck
  | authenticating (pin : Option String) (binding : Bytes) (auth : HostAuth crypto)

/-- What the accept loop is doing. -/
inductive Phase
  | listening
  | handshake (at_ : Handshake crypto)
  | session

/-- The accept loop with its lockout. -/
structure HostState where
  lockout : Lockout := {}
  phase : Phase crypto := .listening

/-- What happens to the host. A finished write also says which binding the exporter
gives and which PIN is set, as they are read after the hello acknowledgement; a
connection is dropped when the client goes away, the handshake times out or the
session is cancelled. -/
inductive HostAction
  | connected
  | tlsAccepted (ok : Bool)
  | received (incoming : Except ProtocolError Message) (coins : crypto.Coins)
  | written (ok : Bool) (binding : Option Bytes) (pin : Option String)
  | slept
  | dropped

/-- An action with the reading of the clock. -/
structure HostEvent where
  now : ℕ
  action : HostAction crypto

variable {crypto}

/-- What an event is to the handshake. -/
def HostAction.auth : HostAction crypto → Option (AuthEvent crypto)
  | .received incoming coins => some (.received incoming coins)
  | .written ok _ _ => some (.written ok)
  | .slept => some .slept
  | _ => none

/-- The handshake of one connection, before `authenticate`. -/
def Handshake.step (handshake : Handshake crypto) (action : HostAction crypto) : Phase crypto :=
  match handshake, action with
  | .acceptingTls, .tlsAccepted true => .handshake .readingHello
  | .acceptingTls, .tlsAccepted false => .listening
  | .readingHello, .received (.ok (.hello version _)) _ =>
      if version = protocolVersion then .handshake .writingHelloAck
      else
        .handshake (.denyingVersion (.authDenied 0
          ("This host speaks protocol " ++ toString protocolVersion ++ ". Update the client.")))
  | .readingHello, .received _ _ => .listening
  | .denyingVersion _, .written _ _ _ => .listening
  | .writingHelloAck, .written true (some binding) pin =>
      .handshake (.authenticating pin binding .readingAuth)
  | .writingHelloAck, .written _ _ _ => .listening
  | handshake, _ => .handshake handshake

/-- What follows in the accept loop: the session, the next connection, or more of
`authenticate`. -/
def HostAuth.phase (pin : Option String) (binding : Bytes) (auth : HostAuth crypto) :
    Phase crypto :=
  match auth with
  | .finished (.ok ()) => .session
  | .finished (.error _) => .listening
  | auth => .handshake (.authenticating pin binding auth)

/-- One event of the accept loop. -/
def HostState.step (state : HostState crypto) (event : HostEvent crypto) : HostState crypto :=
  match state.phase, event.action with
  | .listening, .connected => { state with phase := .handshake .acceptingTls }
  | .listening, _ => state
  | _, .dropped => { state with phase := .listening }
  | .handshake (.authenticating pin binding auth), action =>
      match action.auth with
      | none => state
      | some authEvent =>
          let (auth, lockout) := auth.step pin binding state.lockout event.now authEvent
          { lockout, phase := auth.phase pin binding }
  | .handshake handshake, action => { state with phase := handshake.step action }
  | .session, _ => state

end OmarchyConnect.Host
