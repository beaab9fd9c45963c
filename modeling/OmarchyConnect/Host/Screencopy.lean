/-
# The rounds of the screencopy capture

The capture thread asks every output for a frame and then dispatches Wayland events, each
of which changes one output. `round` waits until every output has answered, `round_send`
also publishes each frame as soon as it is there. Between two calls of `dispatch_until`
the thread runs alone, so a step of the capture is what happens from one call to the next.

Reading the shared memory and converting it to a picture is a parameter, which
`GrabbedPictures` gives: the rounds do not depend on it.
-/

import OmarchyConnect.Host.Capture
import OmarchyConnect.Host.FrameInbox
import OmarchyConnect.Host.Yuv

namespace OmarchyConnect.Host

open OmarchyConnect.Library.Wire OmarchyConnect.Protocol

/-- The formats of shared memory that the code knows, and all others. -/
inductive Format
  | xrgb8888
  | argb8888
  | xbgr8888
  | abgr8888
  | other (code : UInt32)
  deriving DecidableEq

/-- `pixel_order`: the order of the bytes in memory, of the formats that are taken. -/
def pixelOrder : Format → Option PixelOrder
  | .xrgb8888 => some .bgrx
  | .argb8888 => some .bgra
  | .xbgr8888 => some .rgbx
  | .abgr8888 => some .rgba
  | .other _ => none

/-- `Spec`: what the compositor asks of a buffer. -/
structure Spec where
  format : Format
  width : UInt32
  height : UInt32
  stride : UInt32
  deriving DecidableEq

/-- A buffer with what the compositor has drawn into it. -/
structure ShmBuffer where
  spec : Spec
  content : Bytes

/-- `Pending`, the frame of an output in this round. -/
inductive Pending
  | idle
  | waiting
  | ready
  | failed
  deriving DecidableEq

/-- An output of the grabber. `about` is what the compositor has told about it besides its
buffer, and `asked` says that there is a frame of this round. -/
structure ScreencopyOutput where
  about : Output
  asked : Bool := false
  spec : Option Spec := none
  shm : Option ShmBuffer := none
  yInvert : Bool := false
  pending : Pending := .idle

/-- The events of a frame. Where the code makes a buffer, `created` says whether the
system lets it, and `ready` comes with what is in the buffer then. -/
inductive FrameEvent
  | buffer (format : Format) (width height stride : UInt32) (created : Bool)
  | bufferDone (created : Bool)
  | flags (yInvert : Bool)
  | ready (content : Bytes)
  | failed
  | other

namespace ScreencopyOutput

/-- The output as `layout` sees it. -/
def described (output : ScreencopyOutput) : Output :=
  { output.about with spec := output.spec.map fun spec => (spec.width, spec.height) }

/-- `State::attach`. A new buffer is empty. -/
def attach (output : ScreencopyOutput) (created : Bool) : ScreencopyOutput :=
  match output.spec with
  | none => { output with pending := .failed }
  | some spec =>
      if output.shm.map ShmBuffer.spec = some spec then output
      else if created then
        { output with
          shm := some ⟨spec, List.replicate (spec.stride.toNat * spec.height.toNat) 0⟩ }
      else { output with shm := none, pending := .failed }

/-- `Dispatch::event` for a frame of the given version. -/
def event (version : ℕ) (output : ScreencopyOutput) : FrameEvent → ScreencopyOutput
  | .buffer format width height stride created =>
      let output :=
        if (pixelOrder format).isSome then
          { output with spec := some ⟨format, width, height, stride⟩ }
        else output
      if version < 3 then output.attach created else output
  | .bufferDone created => output.attach created
  | .flags yInvert => { output with yInvert }
  | .ready content =>
      { output with
        pending := .ready
        shm := output.shm.map fun buffer => { buffer with content } }
  | .failed => { output with pending := .failed }
  | .other => output

end ScreencopyOutput

/-- `begin_round`. -/
def beginRound (outputs : List ScreencopyOutput) : List ScreencopyOutput :=
  outputs.map fun output => { output with pending := .waiting, asked := true }

/-- `end_round`. -/
def endRound (outputs : List ScreencopyOutput) : List ScreencopyOutput :=
  outputs.map fun output =>
    { output with
      pending := if output.pending = .waiting then .failed else output.pending
      asked := false }

/-- Events with the outputs they are for. -/
def dispatchPending (version : ℕ) (outputs : List ScreencopyOutput)
    (batch : List (ℕ × FrameEvent)) : List ScreencopyOutput :=
  batch.foldl (fun outputs (index, event) =>
    outputs.modify index fun output => output.event version event) outputs

/-- What a call of `dispatch_until` comes to: some events, perhaps none, the deadline, or
an error behind some events. -/
inductive Waited
  | events (batch : List (ℕ × FrameEvent))
  | deadline
  | broken (batch : List (ℕ × FrameEvent))

/-- Where the loop of `run` is. -/
inductive RoundPhase
  /-- Between two rounds. -/
  | resting
  /-- In a call of `dispatch_until`. -/
  | dispatching
  | ended
  deriving DecidableEq

/-- Some output has not answered yet. -/
def Awaits (outputs : List ScreencopyOutput) : Prop :=
  ∃ output ∈ outputs, output.pending = .waiting

instance decidableAwaits (outputs : List ScreencopyOutput) : Decidable (Awaits outputs) :=
  inferInstanceAs (Decidable (∃ output ∈ outputs, output.pending = .waiting))

/-! ## The round of `connect` -/

/-- The probe: the outputs, and where the loop is. -/
structure Probe where
  outputs : List ScreencopyOutput
  phase : RoundPhase

namespace Probe

/-- The head of the loop of `round`. -/
def turn (outputs : List ScreencopyOutput) : Probe :=
  if Awaits outputs then ⟨outputs, .dispatching⟩ else ⟨endRound outputs, .resting⟩

/-- `round`, up to its first wait. -/
def start (outputs : List ScreencopyOutput) : Probe := turn (beginRound outputs)

/-- A wait of the loop is over. -/
def step (version : ℕ) (probe : Probe) (waited : Waited) : Probe :=
  match probe.phase, waited with
  | .dispatching, .events batch => turn (dispatchPending version probe.outputs batch)
  | .dispatching, .deadline => ⟨endRound probe.outputs, .resting⟩
  | .dispatching, .broken batch => ⟨dispatchPending version probe.outputs batch, .ended⟩
  | _, _ => probe

end Probe

/-! ## The rounds of `run` -/

/-- The capture thread. `sent` belongs to `round_send`. -/
structure Screencopy where
  outputs : List ScreencopyOutput
  inbox : FrameInbox := {}
  sent : List Bool := []
  phase : RoundPhase := .resting

/-- What happens to the capture thread. -/
inductive ScreencopyEvent
  /-- The loop of `run` goes on with a round. -/
  | next
  /-- The loop of `run` finds that it is to stop. -/
  | stop
  | dispatched (waited : Waited)

namespace Screencopy

/-- The picture of a buffer, turned upside down where the flag says so: `read_exact_at`,
`flip_rows`, `pixel_order` and `packed_to_i420`. -/
abbrev Picture := ShmBuffer → Bool → UInt32 → UInt32 → Option Bytes

variable (picture : Picture) (version : ℕ) (ids : List (ℕ × UInt32 × UInt32))

/-- `Grabber::frame`, of the given output. -/
def frame (output : ScreencopyOutput) (index : ℕ) (width height : UInt32) : Option RawFrame :=
  if output.pending ≠ .ready then none
  else
    match output.shm with
    | none => none
    | some shm =>
        if even shm.spec.width ≠ width ∨ even shm.spec.height ≠ height then none
        else (picture shm output.yInvert width height).map fun i420 =>
          ⟨UInt32.ofNat index, width, height, i420⟩

/-- A turn of the loop of `publish_ready`. -/
def publishEntry (capture : Screencopy) (entry : ℕ × UInt32 × UInt32) : Screencopy :=
  let (index, width, height) := entry
  if (capture.sent[index]?).getD true then capture
  else
    match capture.outputs[index]? with
    | none => capture
    | some output =>
        match output.pending with
        | .failed => { capture with sent := capture.sent.set index true }
        | .ready =>
            { capture with
              outputs := capture.outputs.modify index fun output =>
                { output with pending := .failed }
              inbox := match frame picture output index width height with
                | some frame => capture.inbox.publish frame
                | none => capture.inbox
              sent := capture.sent.set index true }
        | .idle | .waiting => capture

/-- Each output that is ready is published, in the order of `ids`. -/
def publishReady (capture : Screencopy) : Screencopy :=
  ids.foldl (publishEntry picture) capture

/-- Behind the loop of `round_send`. -/
def finish (capture : Screencopy) : Screencopy :=
  let capture := capture.publishReady picture ids
  { capture with outputs := endRound capture.outputs, phase := .resting }

/-- The head of the loop of `round_send`, up to the next wait or the end. -/
def turn (capture : Screencopy) : Screencopy :=
  if capture.sent.all id then capture.finish picture ids
  else
    let capture := capture.publishReady picture ids
    if capture.sent.all id then capture.finish picture ids
    else { capture with phase := .dispatching }

/-- Once the loop of `run` has ended nobody publishes any more. -/
def close (capture : Screencopy) : Screencopy :=
  { capture with inbox := capture.inbox.close, phase := .ended }

/-- A step of the capture thread. -/
def step (capture : Screencopy) (event : ScreencopyEvent) : Screencopy :=
  match capture.phase, event with
  | .resting, .next =>
      turn picture ids
        { capture with
          outputs := beginRound capture.outputs
          sent := List.replicate capture.outputs.length false }
  | .resting, .stop => capture.close
  | .dispatching, .dispatched (.events batch) =>
      turn picture ids
        { capture with outputs := dispatchPending version capture.outputs batch }
  | .dispatching, .dispatched .deadline => capture.finish picture ids
  | .dispatching, .dispatched (.broken batch) =>
      close { capture with outputs := dispatchPending version capture.outputs batch }
  | _, _ => capture

/-- A call of `dispatch_until` waits for some output. -/
def WaitsForAnswer (capture : Screencopy) : Prop :=
  capture.phase = .dispatching → Awaits capture.outputs

end Screencopy

/-- The `ids` of `run`, from what the client is told. -/
def idsOf (displays : List DisplayInfo) : List (ℕ × UInt32 × UInt32) :=
  displays.map fun display => (display.id.toNat, display.width, display.height)

end OmarchyConnect.Host
