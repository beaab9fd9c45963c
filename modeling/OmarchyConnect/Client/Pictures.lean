/-
# From a packet to the window

Each monitor has a decoder of its own in the `DecoderBank`, and what it decodes goes into
the `FrameSlot`, where the window takes it. The packets of all monitors come over one
connection, and the window takes what there is whenever it paints.

`openh264` is third-party code and a parameter here.
-/

import OmarchyConnect.Library.Runs
import OmarchyConnect.Library.Saturating
import OmarchyConnect.Library.Slots
import OmarchyConnect.Library.Wire

namespace OmarchyConnect.Client

open OmarchyConnect.Library.Wire OmarchyConnect.Library.Runs OmarchyConnect.Library.Slots
open OmarchyConnect.Library.Saturating

/-- A decoded picture as `openh264` gives it. -/
structure Yuv where
  width : ℕ
  height : ℕ
  rgba : Bytes

/-- `openh264`: a new decoder, the units of a packet, and one call of `decode`. -/
structure OpenH264 where
  Decoder : Type
  new : Except String Decoder
  nalUnits : Bytes → List Bytes
  decode : Decoder → Bytes → Except String (Option Yuv) × Decoder

/-- A decoded picture. -/
structure RgbaFrame where
  width : UInt32
  height : UInt32
  rgba : Bytes
  deriving DecidableEq

/-- A picture with the monitor that it is of. -/
structure VideoFrame where
  displayId : UInt32
  width : UInt32
  height : UInt32
  rgba : Bytes
  deriving DecidableEq

variable (h264 : OpenH264)

/-- `DecoderBank`: the decoders by display. -/
abbrev DecoderBank : Type := UInt32 → Option h264.Decoder

variable {h264}

namespace DecoderBank

/-- One unit of a packet. A picture without an area is passed over, and so is an error. -/
def decodeNal (latest : Option RgbaFrame) (decoder : h264.Decoder) (nal : Bytes) :
    Option RgbaFrame × h264.Decoder :=
  match h264.decode decoder nal with
  | (.ok (some yuv), decoder) =>
      if yuv.width = 0 ∨ yuv.height = 0 then (latest, decoder)
      else (some ⟨UInt32.ofNat yuv.width, UInt32.ofNat yuv.height, yuv.rgba⟩, decoder)
  | (.ok none, decoder) => (latest, decoder)
  | (.error _, decoder) => (latest, decoder)

/-- All units of a packet. The last picture counts. -/
def decodeUnit (decoder : h264.Decoder) (accessUnit : Bytes) : Option RgbaFrame × h264.Decoder :=
  (h264.nalUnits accessUnit).foldl (fun found nal => decodeNal found.1 found.2 nal) (none, decoder)

/-- The decoder of a display, or a new one. -/
def decoderOf (found : Option h264.Decoder) : Except String h264.Decoder :=
  match found with
  | some decoder => .ok decoder
  | none => h264.new

/-- `DecoderBank::push`. -/
def push (bank : DecoderBank h264) (displayId : UInt32) (accessUnit : Bytes) :
    Except String (Option RgbaFrame) × DecoderBank h264 :=
  match decoderOf (bank displayId) with
  | .error err => (.error err, bank)
  | .ok decoder =>
      let (latest, decoder) := decodeUnit decoder accessUnit
      (.ok latest, Function.update bank displayId (some decoder))

end DecoderBank

/-! ## The session -/

/-- FNV-1a over some forty-eight bytes of the picture. `fuel` bounds the number of bytes that
are left. -/
def sampleFrom (rgba : Bytes) (stride : ℕ) : ℕ → ℕ → UInt64 → UInt64
  | 0, _, hash => hash
  | fuel + 1, index, hash =>
      match rgba[index]? with
      | none => hash
      | some byte =>
          sampleFrom rgba stride fuel (index + stride)
            ((hash ^^^ byte.toUInt64) * 0x100000001b3)

/-- `sample_rgba`. -/
def sampleRgba (rgba : Bytes) : UInt64 :=
  if rgba = [] then 0
  else sampleFrom rgba (max (rgba.length / 48) 4) rgba.length 0 0xcbf29ce484222325

/-- The part of a session that packets change: what the report needs of them, and the
decoders. -/
structure Watching (h264 : OpenH264) where
  bank : DecoderBank h264 := fun _ => none
  framesDecoded : UInt32 := 0
  motion : List UInt32 := []
  lastSample : UInt32 → Option UInt64 := fun _ => none
  slot : List VideoFrame := []

namespace Watching

variable (watching : Watching h264)

/-- `HashSet::insert`. -/
def insertMotion (motion : List UInt32) (displayId : UInt32) : List UInt32 :=
  if displayId ∈ motion then motion else displayId :: motion

/-- `note_motion`. -/
def noteMotion (displayId : UInt32) (rgba : Bytes) : Watching h264 :=
  let sample := sampleRgba rgba
  { watching with
    lastSample := Function.update watching.lastSample displayId (some sample)
    motion :=
      match watching.lastSample displayId with
      | none => watching.motion
      | some prev =>
          if prev ≠ sample then insertMotion watching.motion displayId else watching.motion }

/-- `FrameSlot::publish`. -/
def publish (frame : VideoFrame) : Watching h264 :=
  { watching with slot := put VideoFrame.displayId watching.slot frame }

/-- A packet in `handle_message`, with the frame that was decoded. -/
def video (displayId : UInt32) (data : Bytes) : Option VideoFrame × Watching h264 :=
  match watching.bank.push displayId data with
  | (.ok (some frame), bank) =>
      let shown : VideoFrame := ⟨displayId, frame.width, frame.height, frame.rgba⟩
      let noted := { watching with bank }.noteMotion displayId frame.rgba
      (some shown, { noted with framesDecoded := saturatingSucc noted.framesDecoded }.publish shown)
  | (.ok none, bank) => (none, { watching with bank })
  | (.error _, bank) => (none, { watching with bank })

/-- `FrameSlot::take`. -/
def take : List VideoFrame × Watching h264 := (watching.slot, { watching with slot := [] })

/-- The monitors with motion in `Live::report`. -/
def displaysWithMotion : List UInt32 := watching.motion.mergeSort (fun a b => decide (a ≤ b))

end Watching

/-- What happens to the pictures of a session: a packet comes, or the window takes what
there is. -/
inductive PictureEvent
  | packet (displayId : UInt32) (data : Bytes)
  | taken

/-- A session with all frames that were decoded, and all that the window took. -/
structure WatchRun (h264 : OpenH264) where
  watching : Watching h264 := {}
  decoded : List VideoFrame := []
  taken : List VideoFrame := []

/-- A packet, or the window taking what is in the slot. -/
def WatchRun.step (state : WatchRun h264) : PictureEvent → WatchRun h264
  | .packet displayId data =>
      let (frame, watching) := state.watching.video displayId data
      { state with watching, decoded := state.decoded ++ frame.toList }
  | .taken =>
      let (frames, watching) := state.watching.take
      { state with watching, taken := state.taken ++ frames }

/-! ## One monitor alone -/

/-- The frames that one decoder makes of the packets of its own monitor. -/
def decodeAlone (displayId : UInt32) :
    Option h264.Decoder → List Bytes → List VideoFrame
  | _, [] => []
  | found, data :: rest =>
      match DecoderBank.decoderOf found with
      | .error _ => decodeAlone displayId found rest
      | .ok decoder =>
          let (latest, decoder) := DecoderBank.decodeUnit decoder data
          (latest.map fun frame =>
            VideoFrame.mk displayId frame.width frame.height frame.rgba).toList ++
            decodeAlone displayId (some decoder) rest

/-- The packets of one monitor. -/
def packetsOf (displayId : UInt32) (events : List PictureEvent) : List Bytes :=
  events.filterMap fun event =>
    match event with
    | .packet other data => if other = displayId then some data else none
    | .taken => none

end OmarchyConnect.Client
