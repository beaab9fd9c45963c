/-
# PIN authentication

Both ends run SPAKE2 over the PIN and confirm the key with an HMAC over a side label
and the TLS exporter value. SPAKE2 and HMAC are third-party code and a parameter
here; what is modelled is how they are called.
-/

import OmarchyConnect.Protocol.Codec
import Mathlib.Data.List.DropRight

namespace OmarchyConnect.Protocol

open OmarchyConnect.Library.Wire

/-- The identities that both ends put into the exchange. -/
def idClient : Bytes := utf8Bytes "omarchy-connect client"
def idHost : Bytes := utf8Bytes "omarchy-connect host"

/-- The two ends of a connection. -/
inductive Side
  | client
  | host
  deriving DecidableEq, Repr

/-- What an end puts in front of the binding that it confirms. -/
def Side.label : Side → Bytes
  | .client => utf8Bytes "client"
  | .host => utf8Bytes "host"

/-- The other end. -/
def Side.peer : Side → Side
  | .client => .host
  | .host => .client

/-- `char::is_whitespace`. -/
def isWhitespace (c : Char) : Bool :=
  (0x09 ≤ c.val && c.val ≤ 0x0d) || c.val == 0x20 || c.val == 0x85 || c.val == 0xa0 ||
    c.val == 0x1680 || (0x2000 ≤ c.val && c.val ≤ 0x200a) || c.val == 0x2028 || c.val == 0x2029 ||
    c.val == 0x202f || c.val == 0x205f || c.val == 0x3000

/-- `str::trim`. -/
def trim (text : String) : String :=
  String.ofList ((text.toList.dropWhile isWhitespace).rdropWhile isWhitespace)

/-- `char::is_control`. -/
def isControl (c : Char) : Bool := c.val ≤ 0x1f || (0x7f ≤ c.val && c.val ≤ 0x9f)

/-- How many characters a PIN has. -/
def pinMin : ℕ := 6
def pinMax : ℕ := 32

/-- `validate_pin`. -/
def validatePin (pin : String) : Except String String :=
  let pin := trim pin
  let len := pin.length
  if len < pinMin ∨ pinMax < len then
    .error s!"PIN must be {pinMin} to {pinMax} characters"
  else if pin.toList.any fun c => isWhitespace c || isControl c then
    .error "PIN cannot contain spaces"
  else .ok pin

/-- The third-party parts. A start takes the password, both identities and random
coins, and gives the state to finish with and the outbound message; finishing fails
on a malformed element. -/
structure PinCrypto where
  State : Type
  Coins : Type
  startA : (password idA idB : Bytes) → Coins → State × Bytes
  startB : (password idA idB : Bytes) → Coins → State × Bytes
  finish : State → Bytes → Option Bytes
  hmac : (key data : Bytes) → Digest

/-- The one error that both ends report for a failed exchange. -/
inductive AuthFailure
  | mk
  deriving DecidableEq, Repr

/-- A SPAKE2 exchange that waits for the element of the peer. -/
structure PinExchange (crypto : PinCrypto) where
  side : Side
  state : crypto.State

/-- The key that came out of an exchange, with the channel that it is bound to. -/
structure PinKeys where
  side : Side
  key : Bytes
  binding : Bytes
  deriving DecidableEq

variable (crypto : PinCrypto)

/-- The exchange and the outbound `Auth` payload. -/
def PinExchange.start (side : Side) (pin : String) (coins : crypto.Coins) :
    PinExchange crypto × Bytes :=
  let password := utf8Bytes (trim pin)
  let (state, outbound) :=
    match side with
    | .client => crypto.startA password idClient idHost coins
    | .host => crypto.startB password idClient idHost coins
  ({ side, state }, outbound)

/-- Consume the peer's `Auth` payload. A wrong PIN still succeeds here. -/
def PinExchange.finish (exchange : PinExchange crypto) (peer binding : Bytes) :
    Except AuthFailure PinKeys :=
  match crypto.finish exchange.state peer with
  | none => .error .mk
  | some key => .ok { side := exchange.side, key, binding }

namespace PinKeys

/-- The tag of an end under a key. -/
def mac (keys : PinKeys) (side : Side) : Digest :=
  crypto.hmac keys.key (side.label ++ keys.binding)

/-- The tag that an end sends. -/
def confirmation (keys : PinKeys) : Digest := keys.mac crypto keys.side

/-- The tag of the peer is checked, and nothing but equality lets it pass. -/
def verifyPeer (keys : PinKeys) (tag : Digest) : Except AuthFailure Unit :=
  if keys.mac crypto keys.side.peer = tag then .ok () else .error .mk

end PinKeys

end OmarchyConnect.Protocol
