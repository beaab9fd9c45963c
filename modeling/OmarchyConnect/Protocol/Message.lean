/-
# Session messages

The values that host and client exchange on the session stream, with the limits
of the wire format and the errors of its decoder. Integers keep the widths of the
source; a Rust `String` is a Lean `String`, which carries its own proof that its
bytes are UTF-8.
-/

import OmarchyConnect.Library.Wire

namespace OmarchyConnect.Protocol

open OmarchyConnect.Library.Wire

/-- A SHA-256 digest or an HMAC-SHA256 tag. -/
abbrev Digest := Vector UInt8 32

/-- The version and the limits of the protocol. -/
def protocolVersion : UInt16 := 2
def maxFrameBytes : ℕ := 8 * 1024 * 1024
def maxStringBytes : ℕ := 4096
def maxDisplays : ℕ := 16

/-- Why a frame could not be read. -/
inductive ProtocolError
  | closed
  | badLength (length : UInt32)
  | truncated
  | unknownType (kind : UInt8)
  | invalid
  | utf8
  | io
  deriving DecidableEq, Repr

/-- One display of the session description. A scale of 100 percent is 1.0. -/
structure DisplayInfo where
  id : UInt32
  x : Int32
  y : Int32
  width : UInt32
  height : UInt32
  scalePercent : UInt16
  name : String
  deriving DecidableEq, Repr

/-- What the client's pointer and keyboard do. -/
inductive InputEvent
  | mouseMove (displayId x y : UInt32)
  | mouseButton (displayId : UInt32) (button : UInt8) (pressed : Bool)
  | mouseWheel (displayId : UInt32) (dx dy : Int32)
  | key (code : UInt16) (pressed : Bool)
  deriving DecidableEq, Repr

/-- The messages of both ends. -/
inductive Message
  | hello (version : UInt16) (name : String)
  | helloAck (version : UInt16)
  | displays (displays : List DisplayInfo)
  | video (displayId ptsMs : UInt32) (keyframe : Bool) (data : Bytes)
  | input (event : InputEvent)
  | fileOffer (id : UInt32) (name : String) (size : UInt64)
  | fileAccept (id : UInt32)
  | fileChunk (id : UInt32) (offset : UInt64) (data : Bytes)
  | fileAck (id : UInt32) (offset : UInt64)
  | fileComplete (id : UInt32) (sha256 : Digest)
  | fileCancel (id : UInt32) (reason : String)
  | ping (nonce : UInt64)
  | pong (nonce : UInt64)
  | auth (spake2 : Bytes)
  | authConfirm (mac : Digest)
  | authDenied (retryAfterSecs : UInt32) (reason : String)
  deriving DecidableEq, Repr

end OmarchyConnect.Protocol
