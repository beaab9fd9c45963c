/-
# The two encoders

`Encoder` starts with the hardware encoder where there is one: a process that takes pictures
and writes a stream, which a thread reads and cuts into access units. When the process takes
a picture no more, `encode` gives this picture and all later ones to `x264`.

`x264` is third-party code and a parameter here, and the process may write what it likes.
-/

import OmarchyConnect.Host.NalChunks
import OmarchyConnect.Host.Session
import OmarchyConnect.Library.Runs

namespace OmarchyConnect.Host

open OmarchyConnect.Library.Wire

/-! ## The software encoder -/

/-- A plane of the picture that is handed to x264. -/
structure Plane where
  stride : ℕ
  data : Bytes
  deriving DecidableEq

/-- What x264 is opened with. -/
structure X264Setup where
  fps : UInt32
  bitrate : UInt32
  maxKeyframeInterval : UInt32
  minKeyframeInterval : UInt32
  width : UInt32
  height : UInt32

/-- The calls of `x264`: a payload comes with whether it is a keyframe. -/
structure X264 where
  Context : Type
  build : X264Setup → Option Context
  headers : Context → Option Bytes
  encode : Context → UInt64 → List Plane → Option (Bytes × Bool) × Context

/-- Software x264 has no constant-quality control here, so the settings are mapped onto a
modest rate. -/
def softwareKbps (bitrateKbps : UInt32) : UInt32 :=
  if bitrateKbps = 0 then 8000
  else if 40000 ≤ bitrateKbps then 16000
  else if 20000 ≤ bitrateKbps then 12000
  else max 500 (min bitrateKbps 12000)

/-- `X264Encoder`. -/
structure X264Encoder (lib : X264) where
  context : lib.Context
  headers : Bytes
  width : UInt32
  height : UInt32

namespace X264Encoder

variable {lib : X264}

/-- `X264Encoder::open`. -/
def openSize (lib : X264) (width height fps bitrateKbps : UInt32) :
    Except String (X264Encoder lib) :=
  let fps := max fps 1
  let setup : X264Setup :=
    { fps
      bitrate := softwareKbps bitrateKbps
      maxKeyframeInterval := fps * 2
      minKeyframeInterval := fps
      width
      height }
  match lib.build setup with
  | none => .error ("x264 failed to open " ++ toString width ++ "x" ++ toString height)
  | some context =>
      match lib.headers context with
      | none => .error "x264 headers"
      | some headers => .ok { context, headers, width, height }

/-- The three planes of a picture. -/
def planes (encoder : X264Encoder lib) (i420 : Bytes) : List Plane :=
  let ySize := encoder.width.toNat * encoder.height.toNat
  let cSize := encoder.width.toNat / 2 * (encoder.height.toNat / 2)
  [⟨encoder.width.toNat, i420.take ySize⟩,
    ⟨encoder.width.toNat / 2, (i420.drop ySize).take cSize⟩,
    ⟨encoder.width.toNat / 2, (i420.drop (ySize + cSize)).take cSize⟩]

/-- `X264Encoder::encode`. -/
def encode (encoder : X264Encoder lib) (i420 : Bytes) (pts : UInt64) :
    Except String (List EncodedFrame) × X264Encoder lib :=
  match lib.encode encoder.context pts (encoder.planes i420) with
  | (none, context) => (.error "x264 encode", { encoder with context })
  | (some (payload, keyframe), context) =>
      if payload.isEmpty then (.ok [], { encoder with context })
      else
        let bytes := (if keyframe then encoder.headers else []) ++ payload
        (.ok [⟨keyframe, bytes⟩], { encoder with context })

end X264Encoder

/-! ## The hardware encoder -/

/-- The process, the thread that reads its output, and the channel of units. `read` remembers
the chunks that the thread read, `given` the units that `encode` took. -/
structure VaapiEncoder where
  pipe : Bytes := []
  closed : Bool := false
  carry : Bytes := []
  sending : List AccessUnit := []
  queue : List AccessUnit := []
  readerUp : Bool := true
  read : List Bytes := []
  given : List AccessUnit := []

/-- What the process and the thread do. -/
inductive FfmpegEvent
  | write (data : Bytes)
  | close
  | read (count : ℕ)
  | readFails
  | send

/-- What the process writes. -/
def FfmpegEvent.written : FfmpegEvent → Bytes
  | .write data => data
  | _ => []

namespace VaapiEncoder

variable (encoder : VaapiEncoder)

/-- The thread reads up to sixteen kilobytes, once all units of the last chunk are sent. -/
def readChunk (count : ℕ) : VaapiEncoder :=
  match encoder.readerUp, encoder.sending with
  | true, [] =>
      match encoder.pipe.take (min (count + 1) (16 * 1024)) with
      | [] => if encoder.closed then { encoder with readerUp := false } else encoder
      | byte :: rest =>
          let chunk := byte :: rest
          let (units, carry) := pushBytes encoder.carry chunk
          { encoder with
            pipe := encoder.pipe.drop chunk.length
            carry
            sending := units
            read := encoder.read ++ [chunk] }
  | _, _ => encoder

/-- A read that fails ends the thread. -/
def readFails : VaapiEncoder :=
  match encoder.sending with
  | [] => { encoder with readerUp := false }
  | _ :: _ => encoder

/-- The thread sends the next unit of its chunk. -/
def send : VaapiEncoder :=
  match encoder.sending with
  | [] => encoder
  | unit :: rest => { encoder with sending := rest, queue := encoder.queue ++ [unit] }

/-- One event of the process or of its reader thread. -/
def step : FfmpegEvent → VaapiEncoder
  | .write data => { encoder with pipe := encoder.pipe ++ data }
  | .close => { encoder with closed := true }
  | .read count => encoder.readChunk count
  | .readFails => encoder.readFails
  | .send => encoder.send

end VaapiEncoder

/-- How the calls on the process end when `encode` gives it a picture. -/
structure VaapiIo where
  writeAll : Option String := none
  flush : Option String := none
  tryWait : Except String (Option String) := .ok none
  stderr : String := ""

/-- Why the process does not take a picture. -/
def VaapiIo.failure (io : VaapiIo) : Option String :=
  match io.writeAll, io.flush, io.tryWait with
  | some _, _, _ => some "write frame to ffmpeg"
  | none, some _, _ => some "flush ffmpeg"
  | none, none, .error _ => some "ffmpeg status"
  | none, none, .ok (some status) => some ("ffmpeg exited (" ++ status ++ "): " ++ io.stderr)
  | none, none, .ok none => none

/-! ## Either of them -/

/-- The two backends of `Encoder`. -/
inductive EncoderBackend (lib : X264) where
  | x264 (encoder : X264Encoder lib)
  | vaapi (encoder : VaapiEncoder)

/-- A picture for `encode`. -/
structure TimedPicture where
  i420 : Bytes
  pts : UInt64

/-- What the calls of `encode` have returned. -/
abbrev EncodeAnswers : Type := List (TimedPicture × Except String (List EncodedFrame))

/-- `Encoder`, with the call that takes units out of the channel, what all calls have returned,
the pictures that the process took, and all that it wrote. -/
structure EncoderRun (lib : X264) where
  width : UInt32
  height : UInt32
  fps : UInt32
  bitrateKbps : UInt32
  backend : EncoderBackend lib
  call : Option (TimedPicture × List EncodedFrame) := none
  answers : EncodeAnswers := []
  taken : List TimedPicture := []
  produced : Bytes := []

/-- What happens around an encoder. -/
inductive EncoderEvent
  | process (event : FfmpegEvent)
  | call (picture : TimedPicture) (io : VaapiIo)
  | recv

/-- What `Encoder::open` finds: whether the variable forces x264, and whether the hardware
encoder was opened. -/
structure EncoderChoice where
  forceX264 : Bool
  vaapi : Bool

/-- A unit that was cut out is a frame. -/
def frameOf (unit : AccessUnit) : EncodedFrame := ⟨unit.keyframe, unit.data⟩

/-- The check of the length in front of both encoders. -/
def tooShort (size : ℕ) (picture : TimedPicture) : Option String :=
  if picture.i420.length < size then
    some ("i420 buffer is " ++ toString picture.i420.length ++ " bytes, need " ++ toString size)
  else none

namespace EncoderRun

variable {lib : X264} (state : EncoderRun lib)

/-- `Encoder::open`. -/
def openSize (lib : X264) (choice : EncoderChoice) (width height fps bitrateKbps : UInt32) :
    Except String (EncoderRun lib) :=
  if width = 0 ∨ height = 0 ∨ width % 2 ≠ 0 ∨ height % 2 ≠ 0 then
    .error ("encoder size must be even and non-zero, got " ++ toString width ++ "x" ++
      toString height)
  else if !choice.forceX264 && choice.vaapi then
    .ok { width, height, fps, bitrateKbps, backend := .vaapi {} }
  else
    match X264Encoder.openSize lib width height fps bitrateKbps with
    | .error err => .error err
    | .ok soft => .ok { width, height, fps, bitrateKbps, backend := .x264 soft }

/-- A call returns. -/
def answer (picture : TimedPicture) (result : Except String (List EncodedFrame)) : EncoderRun lib :=
  { state with answers := state.answers ++ [(picture, result)] }

/-- The hardware encoder has failed on a picture. -/
def switch (picture : TimedPicture) : EncoderRun lib :=
  match X264Encoder.openSize lib state.width state.height state.fps state.bitrateKbps with
  | .error err => state.answer picture (.error err)
  | .ok soft =>
      match soft.encode picture.i420 picture.pts with
      | (.error err, _) => state.answer picture (.error err)
      | (.ok frames, soft) =>
          { state with backend := .x264 soft }.answer picture (.ok frames)

/-- `Encoder::encode`, up to the loop that takes units out of the channel. -/
def encode (picture : TimedPicture) (io : VaapiIo) : EncoderRun lib :=
  match tooShort (i420Size state.width state.height) picture with
  | some err => state.answer picture (.error err)
  | none =>
      match state.backend with
      | .x264 soft =>
          let (result, soft) := soft.encode picture.i420 picture.pts
          { state with backend := .x264 soft }.answer picture result
      | .vaapi _ =>
          match io.failure with
          | none => { state with call := some (picture, []), taken := state.taken ++ [picture] }
          | some _ => state.switch picture

/-- One `try_recv`. -/
def recv : EncoderRun lib :=
  match state.call, state.backend with
  | some (picture, frames), .vaapi encoder =>
      match encoder.queue with
      | [] => { state with call := none }.answer picture (.ok frames)
      | unit :: rest =>
          { state with
            backend := .vaapi { encoder with queue := rest, given := encoder.given ++ [unit] }
            call := some (picture, frames ++ [frameOf unit]) }
  | _, _ => state

/-- One event. -/
def step : EncoderEvent → EncoderRun lib
  | .process event =>
      match state.backend with
      | .x264 _ => state
      | .vaapi encoder =>
          { state with
            backend := .vaapi (encoder.step event)
            produced := state.produced ++ event.written }
  | .call picture io =>
      match state.call with
      | none => state.encode picture io
      | some _ => state
  | .recv => state.recv

end EncoderRun

end OmarchyConnect.Host
