/-
# Byte layout of a session message

`Message.encode` and `Message.decode` translate the two hand-written functions of
the wire format field by field. The reader of the source holds a buffer and a
position; here it holds the bytes from that position on.

Each field writer comes with the `Reads` law of its reader, so the round trip of
a message is the composition of the laws of its fields in wire order.
-/

import OmarchyConnect.Protocol.Message

namespace OmarchyConnect.Protocol

open OmarchyConnect.Library.Wire

/-! ## Field writers -/

/-- Numbers are little-endian, in the order of the widths. -/
def putU16 (v : UInt16) : Bytes := leBytes 2 v.toNat
def putU32 (v : UInt32) : Bytes := leBytes 4 v.toNat
def putU64 (v : UInt64) : Bytes := leBytes 8 v.toNat
def putI32 (v : Int32) : Bytes := putU32 v.toUInt32

/-- A byte string behind its length. -/
def putBytes (data : Bytes) : Bytes := putU32 (UInt32.ofNat data.length) ++ data

/-- The UTF-8 bytes of a text. -/
def utf8Bytes (text : String) : Bytes := text.toByteArray.data.toList

/-- The bytes of a text are its text again. -/
theorem fromUTF8?_utf8Bytes (text : String) :
    String.fromUTF8? (utf8Bytes text).toByteArray = some text := by
  have hbytes : (utf8Bytes text).toByteArray = text.toByteArray := by
    apply ByteArray.ext
    simp [utf8Bytes]
  rw [hbytes]
  simp [String.fromUTF8?, text.isValidUTF8, String.fromUTF8]

/-- A text is cut after `maxStringBytes` bytes, wherever that falls. -/
def putStr (text : String) : Bytes :=
  let bytes := utf8Bytes text
  let len := min bytes.length maxStringBytes
  putU16 (UInt16.ofNat len) ++ bytes.take len

/-- A text within the limit is written whole. -/
theorem putStr_of_le {text : String} (hlimit : (utf8Bytes text).length ≤ maxStringBytes) :
    putStr text = putU16 (UInt16.ofNat (utf8Bytes text).length) ++ utf8Bytes text := by
  simp only [putStr, min_eq_left hlimit, List.take_length]

/-! ## Message types on the wire -/

/-- The kinds of messages. -/
def tHello : UInt8 := 1
def tHelloAck : UInt8 := 2
def tDisplays : UInt8 := 3
def tVideo : UInt8 := 4
def tInput : UInt8 := 5
def tFileOffer : UInt8 := 6
def tFileAccept : UInt8 := 7
def tFileChunk : UInt8 := 8
def tFileAck : UInt8 := 9
def tFileComplete : UInt8 := 10
def tFileCancel : UInt8 := 11
def tPing : UInt8 := 12
def tPong : UInt8 := 13
def tAuth : UInt8 := 14
def tAuthConfirm : UInt8 := 15
def tAuthDenied : UInt8 := 16

/-- The kinds of input events. -/
def iMove : UInt8 := 1
def iButton : UInt8 := 2
def iWheel : UInt8 := 3
def iKey : UInt8 := 4

/-! ## Encoding -/

/-- `DisplayInfo`, as `encode` writes it. -/
def DisplayInfo.encode (display : DisplayInfo) : Bytes :=
  putU32 display.id ++ (putI32 display.x ++ (putI32 display.y ++ (putU32 display.width ++
    (putU32 display.height ++ (putU16 display.scalePercent ++ putStr display.name)))))

/-- `InputEvent`, as `encode` writes it. -/
def InputEvent.encode : InputEvent → Bytes
  | .mouseMove displayId x y => [iMove] ++ (putU32 displayId ++ (putU32 x ++ putU32 y))
  | .mouseButton displayId button pressed =>
      [iButton] ++ (putU32 displayId ++ ([button] ++ [pressed.toUInt8]))
  | .mouseWheel displayId dx dy => [iWheel] ++ (putU32 displayId ++ (putI32 dx ++ putI32 dy))
  | .key code pressed => [iKey] ++ (putU16 code ++ [pressed.toUInt8])

/-- `Message::encode`. -/
def Message.encode : Message → Bytes
  | .hello version name => [tHello] ++ (putU16 version ++ putStr name)
  | .helloAck version => [tHelloAck] ++ putU16 version
  | .displays infos =>
      [tDisplays] ++ (putU16 (UInt16.ofNat infos.length) ++ infos.flatMap DisplayInfo.encode)
  | .video displayId ptsMs keyframe data =>
      [tVideo] ++ (putU32 displayId ++ (putU32 ptsMs ++ ([keyframe.toUInt8] ++ putBytes data)))
  | .input event => [tInput] ++ event.encode
  | .fileOffer id name size => [tFileOffer] ++ (putU32 id ++ (putU64 size ++ putStr name))
  | .fileAccept id => [tFileAccept] ++ putU32 id
  | .fileChunk id offset data =>
      [tFileChunk] ++ (putU32 id ++ (putU64 offset ++ putBytes data))
  | .fileAck id offset => [tFileAck] ++ (putU32 id ++ putU64 offset)
  | .fileComplete id sha256 => [tFileComplete] ++ (putU32 id ++ sha256.toList)
  | .fileCancel id reason => [tFileCancel] ++ (putU32 id ++ putStr reason)
  | .ping nonce => [tPing] ++ putU64 nonce
  | .pong nonce => [tPong] ++ putU64 nonce
  | .auth spake2 => [tAuth] ++ putBytes spake2
  | .authConfirm mac => [tAuthConfirm] ++ mac.toList
  | .authDenied retryAfterSecs reason =>
      [tAuthDenied] ++ (putU32 retryAfterSecs ++ putStr reason)

/-! ## Decoding -/

namespace Reader

/-- The decoder's reader: the bytes from its position on, and its errors. -/
abbrev M (α : Type) := Library.Wire.Reader ProtocolError α

/-- `Reader::take`. -/
def take (n : ℕ) : M Bytes := Library.Wire.take .truncated n

/-- A reader that stops with an error. -/
def fail {α : Type} (error : ProtocolError) : M α := fun _ => .error error

/-- `Reader::u8`. -/
def u8 : M UInt8 := do
  let b ← take 1
  return b.headD 0

/-- `Reader::u16`. -/
def u16 : M UInt16 := do
  let b ← take 2
  return UInt16.ofNat (ofLeBytes b)

/-- `Reader::u32`. -/
def u32 : M UInt32 := do
  let b ← take 4
  return UInt32.ofNat (ofLeBytes b)

/-- `Reader::u64`. -/
def u64 : M UInt64 := do
  let b ← take 8
  return UInt64.ofNat (ofLeBytes b)

/-- `Reader::i32`. -/
def i32 : M Int32 := do
  let v ← u32
  return v.toInt32

/-- `Reader::bytes`. -/
def bytes : M Bytes := do
  let len ← u32
  if len.toNat > maxFrameBytes then fail .invalid else take len.toNat

/-- `Reader::str`. -/
def str : M String := do
  let len ← u16
  if len.toNat > maxStringBytes then fail .invalid
  else do
    let raw ← take len.toNat
    match String.fromUTF8? raw.toByteArray with
    | some text => return text
    | none => fail .utf8

/-- `copy_from_slice` into a 32-byte array. -/
def digest : M Digest := do
  let raw ← take 32
  return Vector.ofFn fun i => raw.getD i 0

/-- The `pressed` flag is 0 or 1. -/
def pressed : M Bool := do
  let flag ← u8
  if flag = 0 then return false
  else if flag = 1 then return true
  else fail .invalid

/-- A display in a `Displays` message. -/
def display : M DisplayInfo := do
  let id ← u32
  let x ← i32
  let y ← i32
  let width ← u32
  let height ← u32
  let scalePercent ← u16
  let name ← str
  if width = 0 ∨ height = 0 ∨ scalePercent = 0 then fail .invalid
  else return { id, x, y, width, height, scalePercent, name }

/-- The displays behind their number. -/
def displays : M (List DisplayInfo) := do
  let count ← u16
  if count.toNat > maxDisplays then fail .invalid else times display count.toNat

/-- An input event behind its kind. -/
def inputEvent : M InputEvent := do
  let inputKind ← u8
  if inputKind = iMove then do
    let displayId ← u32
    let x ← u32
    let y ← u32
    return .mouseMove displayId x y
  else if inputKind = iButton then do
    let displayId ← u32
    let button ← u8
    let pressed ← pressed
    return .mouseButton displayId button pressed
  else if inputKind = iWheel then do
    let displayId ← u32
    let dx ← i32
    let dy ← i32
    return .mouseWheel displayId dx dy
  else if inputKind = iKey then do
    let code ← u16
    let pressed ← pressed
    return .key code pressed
  else fail .invalid

/-- The body of a message of the given type. -/
def body (kind : UInt8) : M Message :=
  if kind = tHello then do
    let version ← u16
    let name ← str
    return .hello version name
  else if kind = tHelloAck then do
    let version ← u16
    return .helloAck version
  else if kind = tDisplays then do
    let displays ← displays
    return .displays displays
  else if kind = tVideo then do
    let displayId ← u32
    let ptsMs ← u32
    let flags ← u8
    let data ← bytes
    return .video displayId ptsMs (flags &&& 1 == 1) data
  else if kind = tInput then do
    let event ← inputEvent
    return .input event
  else if kind = tFileOffer then do
    let id ← u32
    let size ← u64
    let name ← str
    return .fileOffer id name size
  else if kind = tFileAccept then do
    let id ← u32
    return .fileAccept id
  else if kind = tFileChunk then do
    let id ← u32
    let offset ← u64
    let data ← bytes
    return .fileChunk id offset data
  else if kind = tFileAck then do
    let id ← u32
    let offset ← u64
    return .fileAck id offset
  else if kind = tFileComplete then do
    let id ← u32
    let sha256 ← digest
    return .fileComplete id sha256
  else if kind = tFileCancel then do
    let id ← u32
    let reason ← str
    return .fileCancel id reason
  else if kind = tPing then do
    let nonce ← u64
    return .ping nonce
  else if kind = tPong then do
    let nonce ← u64
    return .pong nonce
  else if kind = tAuth then do
    let spake2 ← bytes
    return .auth spake2
  else if kind = tAuthConfirm then do
    let mac ← digest
    return .authConfirm mac
  else if kind = tAuthDenied then do
    let retryAfterSecs ← u32
    let reason ← str
    return .authDenied retryAfterSecs reason
  else fail (.unknownType kind)

/-- A message behind its kind. -/
def message : M Message := do
  let kind ← u8
  body kind

end Reader

/-- Decode a whole frame body; bytes after the last field are an error. -/
def Message.decode (buf : Bytes) : Except ProtocolError Message :=
  match Reader.message.run buf with
  | .error error => .error error
  | .ok (msg, rest) => if rest.isEmpty then .ok msg else .error .invalid

/-! ## Field laws -/

namespace Reader

/-- A byte is read back. -/
theorem reads_u8 (v : UInt8) : Reads u8 [v] v := by
  have htake : Reads (take 1) [v] [v] := reads_take_of_length rfl
  exact htake.bind_pure rfl

/-- A number of two bytes is read back. -/
theorem reads_u16 (v : UInt16) : Reads u16 (putU16 v) v := by
  apply (reads_take_of_length (length_leBytes 2 v.toNat)).bind_pure
  rw [ofLeBytes_leBytes_of_lt v.toNat_lt, UInt16.ofNat_toNat]

/-- A number of four bytes is read back. -/
theorem reads_u32 (v : UInt32) : Reads u32 (putU32 v) v := by
  apply (reads_take_of_length (length_leBytes 4 v.toNat)).bind_pure
  rw [ofLeBytes_leBytes_of_lt v.toNat_lt, UInt32.ofNat_toNat]

/-- A number of eight bytes is read back. -/
theorem reads_u64 (v : UInt64) : Reads u64 (putU64 v) v := by
  apply (reads_take_of_length (length_leBytes 8 v.toNat)).bind_pure
  rw [ofLeBytes_leBytes_of_lt v.toNat_lt, UInt64.ofNat_toNat]

/-- A signed number is read back from the four bytes of its bit pattern. -/
theorem reads_i32 (v : Int32) : Reads i32 (putI32 v) v :=
  (reads_u32 v.toUInt32).bind_pure (by simp)

/-- A byte payload within the frame limit reads back. -/
theorem reads_bytes {data : Bytes} (hlimit : data.length ≤ maxFrameBytes) :
    Reads bytes (putBytes data) data := by
  have hlen : (UInt32.ofNat data.length).toNat = data.length := by
    rw [UInt32.toNat_ofNat']
    exact Nat.mod_eq_of_lt (by unfold maxFrameBytes at hlimit; omega)
  apply (reads_u32 _).bind
  rw [hlen, if_neg (by omega)]
  exact reads_take _ data

/-- A text within the string limit is written whole and reads back. -/
theorem reads_str {text : String} (hlimit : (utf8Bytes text).length ≤ maxStringBytes) :
    Reads str (putStr text) text := by
  have hlen : (UInt16.ofNat (utf8Bytes text).length).toNat = (utf8Bytes text).length := by
    rw [UInt16.toNat_ofNat']
    exact Nat.mod_eq_of_lt (by unfold maxStringBytes at hlimit; omega)
  rw [putStr_of_le hlimit]
  apply (reads_u16 _).bind
  rw [hlen, if_neg (by omega)]
  apply (reads_take _ _).bind_last
  rw [fromUTF8?_utf8Bytes]
  exact Reads.pure text

/-- A hash is read back. -/
theorem reads_digest (v : Digest) : Reads digest v.toList v := by
  apply (reads_take_of_length (by simp)).bind_pure
  ext i
  simp

/-- A flag is read back from the byte that it is written as. -/
theorem reads_pressed (v : Bool) : Reads pressed [v.toUInt8] v := by
  apply (reads_u8 _).bind_last
  cases v <;> exact Reads.pure _

end Reader

end OmarchyConnect.Protocol
