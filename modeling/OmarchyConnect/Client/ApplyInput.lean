/-
# Local input on its way to the host

`apply_input` is called once for each window that is painted, with what the toolkit has
gathered for it. It goes through the events only while the window has the focus and the
path field has not. The modifiers have no events of their own: they are compared with the
last ones seen.

The geometry of the window and the steps of the wheel are computed in `f32` and are
arguments. What a frame finds, as the rectangles of the monitors or the focus of the path
field, may be anything.
-/

import OmarchyConnect.Client.Keys
import OmarchyConnect.Protocol.Message
import Mathlib.Data.Finset.Basic

namespace OmarchyConnect.Client

open OmarchyConnect.Protocol

/-- The buttons of a pointer. -/
inductive PointerButton
  | primary
  | secondary
  | middle
  | extra1
  | extra2
  deriving DecidableEq

/-- The number of a button that is forwarded. -/
def PointerButton.number : PointerButton → Option UInt8
  | .primary => some 0
  | .secondary => some 1
  | .middle => some 2
  | .extra1 | .extra2 => none

/-- The units in which a wheel turns. -/
inductive MouseWheelUnit
  | line
  | point
  | page
  deriving DecidableEq

/-- The positions of a window, its rectangles and the distances of the wheel: whether a
rectangle contains a position, the pixel of a display at a position, and the wheel steps. -/
structure Geometry (Pos Rect Delta : Type) where
  contains : Rect → Pos → Bool
  pixel : DisplayInfo → Rect → Pos → UInt32 × UInt32
  wheel : MouseWheelUnit → Delta → Int32 × Int32

/-- The events of the toolkit. -/
inductive UiEvent (Pos Delta : Type)
  | key (key : Key) (pressed isRepeat : Bool)
  | pointerButton (pos : Pos) (button : PointerButton) (pressed : Bool)
  | mouseWheel (unit : MouseWheelUnit) (delta : Delta)
  | other

/-- What painting and the clicks on buttons have left when `apply_input` is called. -/
structure Scene (Rect : Type) where
  hits : List (DisplayInfo × Rect)
  chrome : List Rect
  hovered : Option UInt32
  detached : Finset UInt32
  fullscreen : Finset UInt32
  pathFocus : Bool

/-- The modifiers that are down. -/
structure Modifiers where
  shift : Bool
  ctrl : Bool
  alt : Bool
  deriving DecidableEq

/-- The input of a window but its events. `hasPath` says that the window has the path
field. -/
structure WindowInput (Pos : Type) where
  hasPath : Bool
  pointer : Option Pos
  focused : Bool
  modifiers : Modifiers

/-- The part of the client that deals with input, with the input events that it has sent. -/
structure ClientApp (Rect : Type) where
  scene : Scene Rect
  modifiers : Modifiers := ⟨false, false, false⟩
  sent : List InputEvent := []

namespace ClientApp

variable {Pos Rect Delta : Type} (geometry : Geometry Pos Rect Delta)

/-- An event is sent to the host. -/
def send (app : ClientApp Rect) (event : InputEvent) : ClientApp Rect :=
  { app with sent := app.sent ++ [event] }

/-- The display under a position, unless a bar of the window covers it. -/
def hit (app : ClientApp Rect) (pos : Pos) : Option (DisplayInfo × Rect) :=
  if app.scene.chrome.any fun rect => geometry.contains rect pos then none
  else app.scene.hits.find? fun (_, rect) => geometry.contains rect pos

/-- A modifier is told to the host when it has changed. -/
def syncMod (app : ClientApp Rect) (code : UInt16) (previous now : Bool) : ClientApp Rect :=
  if previous ≠ now then app.send (.key code now) else app

/-- The three calls of `sync_mod`. -/
def syncMods (app : ClientApp Rect) (mods : Modifiers) : ClientApp Rect :=
  let app := app.syncMod keyLeftShift app.modifiers.shift mods.shift
  let app := app.syncMod keyLeftCtrl app.modifiers.ctrl mods.ctrl
  let app := app.syncMod keyLeftAlt app.modifiers.alt mods.alt
  { app with modifiers := mods }

/-- F11 on a monitor takes it out of the overview and turns full screen on or off. -/
def toggleFullscreen (app : ClientApp Rect) : ClientApp Rect :=
  match app.scene.hovered with
  | none => app
  | some id =>
      { app with
        scene.detached := insert id app.scene.detached
        scene.fullscreen :=
          if id ∈ app.scene.fullscreen then app.scene.fullscreen.erase id
          else insert id app.scene.fullscreen }

/-- Escape leaves full screen instead of being forwarded. -/
def leavesFullscreen (app : ClientApp Rect) : Option UInt32 :=
  app.scene.hovered.filter (· ∈ app.scene.fullscreen)

/-- A key in `apply_input`. -/
def applyKey (app : ClientApp Rect) (key : Key) (pressed isRepeat : Bool) : ClientApp Rect :=
  if isRepeat then app
  else if pressed ∧ key = .f11 then app.toggleFullscreen
  else
    match (if pressed ∧ key = .escape then app.leavesFullscreen else none) with
    | some id => { app with scene.fullscreen := app.scene.fullscreen.erase id }
    | none =>
        match evdevCode key with
        | some code => app.send (.key code pressed)
        | none => app

/-- A press on a monitor takes the focus from the path field. -/
def surrenderFocus (app : ClientApp Rect) (hasPath pressed : Bool) : ClientApp Rect :=
  if pressed ∧ hasPath then { app with scene.pathFocus := false } else app

/-- A pointer button in `apply_input`. -/
def applyButton (app : ClientApp Rect) (hasPath : Bool) (pos : Pos) (button : PointerButton)
    (pressed : Bool) : ClientApp Rect :=
  match app.hit geometry pos with
  | none => app
  | some (display, rect) =>
      let app := app.surrenderFocus hasPath pressed
      let (x, y) := geometry.pixel display rect pos
      match button.number with
      | none => app
      | some number =>
          (app.send (.mouseMove display.id x y)).send (.mouseButton display.id number pressed)

/-- A turn of the wheel in `apply_input`. -/
def applyWheel (app : ClientApp Rect) (unit : MouseWheelUnit) (delta : Delta) : ClientApp Rect :=
  match app.scene.hovered with
  | none => app
  | some displayId =>
      let (dx, dy) := geometry.wheel unit delta
      if dx ≠ 0 ∨ dy ≠ 0 then app.send (.mouseWheel displayId dx dy) else app

/-- The loop body of `apply_input`. -/
def applyEvent (hasPath : Bool) (app : ClientApp Rect) : UiEvent Pos Delta → ClientApp Rect
  | .key key pressed isRepeat => app.applyKey key pressed isRepeat
  | .pointerButton pos button pressed => app.applyButton geometry hasPath pos button pressed
  | .mouseWheel unit delta => app.applyWheel geometry unit delta
  | .other => app

/-- The pointer is followed on the monitors. -/
def followPointer (app : ClientApp Rect) (pointer : Option Pos) : ClientApp Rect :=
  match pointer.bind (fun pos => (app.hit geometry pos).map fun found => (found, pos)) with
  | none => app
  | some ((display, rect), pos) =>
      let (x, y) := geometry.pixel display rect pos
      app.send (.mouseMove display.id x y)

/-- `typing`: the path field has the focus. -/
def typing (app : ClientApp Rect) (input : WindowInput Pos) : Bool :=
  input.hasPath && app.scene.pathFocus

/-- `apply_input` up to its loop, and whether it gets there. -/
def enterInput (app : ClientApp Rect) (input : WindowInput Pos) : Bool × ClientApp Rect :=
  if app.typing input then (false, app)
  else
    let app := app.followPointer geometry input.pointer
    if input.focused then (true, app.syncMods input.modifiers) else (false, app)

/-- `apply_input`. -/
def applyInput (app : ClientApp Rect) (input : WindowInput Pos)
    (events : List (UiEvent Pos Delta)) : ClientApp Rect :=
  let (listening, app) := app.enterInput geometry input
  if listening then events.foldl (applyEvent geometry input.hasPath) app else app

end ClientApp

end OmarchyConnect.Client
