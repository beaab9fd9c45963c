/-
# Handshakes over hostile sessions

Any number of client and host handshakes run at once. The adversary opens the TLS
sessions, sees all that is written and decides all that is read. An end remembers
besides its machine which peer element and keys it used, what it wrote and which
confirmation it accepted.
-/

import OmarchyConnect.Client.Authenticate
import OmarchyConnect.Library.Runs

namespace OmarchyConnect.System

open OmarchyConnect.Library.Wire OmarchyConnect.Library.Runs OmarchyConnect.Protocol
open OmarchyConnect.Host OmarchyConnect.Client

variable (crypto : PinCrypto)

/-- The exporter value of each TLS session: `export_keying_material` into 32 bytes. -/
abbrev Exporter := ℕ → Vector UInt8 32

/-- The handshake of a client or of a host. -/
inductive EndAuth
  | client (auth : ClientAuth crypto)
  | host (auth : HostAuth crypto)

/-- An end of a connection, with what it knows and what it has written. -/
structure End where
  session : ℕ
  pin : Option String
  auth : EndAuth crypto
  peer : Option Bytes := none
  keys : Option PinKeys := none
  wrote : List Message := []
  accepted : Option Digest := none

variable {crypto}

namespace EndAuth

/-- Which end it is. -/
def side : EndAuth crypto → Side
  | .client _ => .client
  | .host _ => .host

/-- The message that is being written. -/
def writing : EndAuth crypto → Option Message
  | .client (.writingAuth _ msg) => some msg
  | .client (.writingConfirm _ msg) => some msg
  | .host (.denying msg _) => some msg
  | .host (.writingAuth _ _ msg) => some msg
  | .host (.writingConfirm msg) => some msg
  | _ => none

/-- The keys that the machine holds. -/
def keys : EndAuth crypto → Option PinKeys
  | .client (.writingConfirm keys _) => some keys
  | .client (.readingConfirm keys) => some keys
  | .host (.readingConfirm (.ok keys)) => some keys
  | _ => none

/-- `authenticate` has returned `Ok`. -/
def Ok : EndAuth crypto → Prop
  | .client (.finished (.ok ())) => True
  | .host (.finished (.ok ())) => True
  | _ => False

/-- The element of the peer that the event brings. -/
def takes (auth : EndAuth crypto) (event : AuthEvent crypto) : Option Bytes :=
  match auth, event with
  | .client (.readingAuth _), .received (.ok (.auth element)) _ => some element
  | .host .readingAuth, .received (.ok (.auth element)) _ => some element
  | _, _ => none

/-- The confirmation that is accepted on the way to the machine `next`. -/
def accepts (auth : EndAuth crypto) (event : AuthEvent crypto) (next : EndAuth crypto) :
    Option Digest :=
  match auth, event, next with
  | .client (.readingConfirm _), .received (.ok (.authConfirm mac)) _,
      .client (.finished (.ok ())) => some mac
  | .host (.readingConfirm _), .received (.ok (.authConfirm mac)) _,
      .host (.writingConfirm _) => some mac
  | _, _, _ => none

/-- A step of either machine. A host also sees its lockout and the clock. -/
def step (pin : Option String) (binding : Bytes) (lockout : Lockout) (now : ℕ)
    (auth : EndAuth crypto) (event : AuthEvent crypto) : EndAuth crypto :=
  match auth with
  | .client auth => .client (auth.step binding event)
  | .host auth => .host (auth.step pin binding lockout now event).1

end EndAuth

namespace End

/-- A client opens a connection. -/
def openClient (session : ℕ) (pin : String) (coins : crypto.Coins) : End crypto :=
  let auth : EndAuth crypto := .client (ClientAuth.start pin coins)
  { session, pin := some pin, auth, wrote := auth.writing.toList }

/-- A host takes a connection. -/
def openHost (session : ℕ) (pin : Option String) : End crypto :=
  { session, pin, auth := .host .readingAuth }

/-- A step of the handshake at one end. -/
def step (exporter : Exporter) (state : End crypto) (lockout : Lockout) (now : ℕ)
    (event : AuthEvent crypto) : End crypto :=
  let auth := state.auth.step state.pin (exporter state.session).toList lockout now event
  { state with
    auth
    peer := (state.auth.takes event).or state.peer
    keys := auth.keys.or state.keys
    wrote := state.wrote ++ auth.writing.toList
    accepted := (state.auth.accepts event auth).or state.accepted }

end End

variable (crypto) in
/-- What happens: an end is opened on a TLS session, or an await of an end returns. -/
inductive HandshakeEvent
  | clientOpens (session : ℕ) (pin : String) (coins : crypto.Coins)
  | hostOpens (session : ℕ) (pin : Option String)
  | returns (index : ℕ) (lockout : Lockout) (now : ℕ) (event : AuthEvent crypto)

/-- One event at one of the ends. -/
def stepEnds (exporter : Exporter) (ends : List (End crypto)) :
    HandshakeEvent crypto → List (End crypto)
  | .clientOpens session pin coins => ends ++ [.openClient session pin coins]
  | .hostOpens session pin => ends ++ [.openHost session pin]
  | .returns index lockout now event =>
      ends.modify index fun state => state.step exporter lockout now event

end OmarchyConnect.System
