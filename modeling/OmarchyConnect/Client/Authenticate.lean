/-
# The handshake of the client

`authenticate` of the client as a machine whose states are its awaits, with the
events of the host's machine. The client sends its confirmation first and accepts the
host only by the host's confirmation.
-/

import OmarchyConnect.Host.Authenticate

namespace OmarchyConnect.Client

open OmarchyConnect.Library.Wire OmarchyConnect.Protocol
open OmarchyConnect.Host (AuthEvent)

variable (crypto : PinCrypto)

/-- Where `authenticate` waits. An error carries its text. -/
inductive ClientAuth
  | writingAuth (exchange : PinExchange crypto) (msg : Message)
  | readingAuth (exchange : PinExchange crypto)
  | writingConfirm (keys : PinKeys) (msg : Message)
  | readingConfirm (keys : PinKeys)
  | finished (result : Except String Unit)

variable {crypto}

/-- `authenticate` up to its first await. -/
def ClientAuth.start (pin : String) (coins : crypto.Coins) : ClientAuth crypto :=
  let (exchange, outbound) := PinExchange.start crypto .client pin coins
  .writingAuth exchange (.auth outbound)

/-- `authenticate` behind the message of the host. -/
def ClientAuth.onAuth (binding : Bytes) (exchange : PinExchange crypto) (hostMsg : Bytes) :
    ClientAuth crypto :=
  match exchange.finish crypto hostMsg binding with
  | .ok keys => .writingConfirm keys (.authConfirm (keys.confirmation crypto))
  | .error _ => .finished (.error "host sent a malformed PIN exchange")

/-- Check the confirmation of the host. -/
def ClientAuth.onConfirm (keys : PinKeys) (mac : Digest) : ClientAuth crypto :=
  match keys.verifyPeer crypto mac with
  | .ok () => .finished (.ok ())
  | .error _ =>
      .finished (.error "the host could not prove the PIN; this may not be your host")

/-- `authenticate` from one await to the next. -/
def ClientAuth.step (binding : Bytes) (auth : ClientAuth crypto) (event : AuthEvent crypto) :
    ClientAuth crypto :=
  match auth, event with
  | .writingAuth exchange _, .written true => .readingAuth exchange
  | .writingAuth _ _, .written false => .finished (.error "write auth")
  | .readingAuth exchange, .received (.ok (.auth hostMsg)) _ => .onAuth binding exchange hostMsg
  | .readingAuth _, .received (.ok (.authDenied _ reason)) _ => .finished (.error reason)
  | .readingAuth _, .received (.ok _) _ => .finished (.error "expected auth")
  | .readingAuth _, .received (.error _) _ => .finished (.error "read auth")
  | .writingConfirm keys _, .written true => .readingConfirm keys
  | .writingConfirm _ _, .written false => .finished (.error "write auth confirm")
  | .readingConfirm keys, .received (.ok (.authConfirm mac)) _ => .onConfirm keys mac
  | .readingConfirm _, .received (.ok (.authDenied _ reason)) _ => .finished (.error reason)
  | .readingConfirm _, .received (.ok _) _ => .finished (.error "expected auth confirm")
  | .readingConfirm _, .received (.error _) _ => .finished (.error "read auth confirm")
  | auth, _ => auth

end OmarchyConnect.Client
