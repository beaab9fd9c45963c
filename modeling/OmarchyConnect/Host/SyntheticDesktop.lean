/-
# The test pattern

Without a compositor the host shows two monitors that it draws itself: a bar that moves over
a ramp of grey, the name of the monitor with the number of the frame, and the pointer.
`DemoSession` is a session of the demo with its desktop.
-/

import OmarchyConnect.Host.FrameClock
import OmarchyConnect.Library.Drawing

namespace OmarchyConnect.Host

open OmarchyConnect.Library.Wire OmarchyConnect.Library.Files OmarchyConnect.Library.Loops
open OmarchyConnect.Protocol

/-- Seven rows of five bits. -/
def glyph (ch : Char) : Vector UInt8 7 :=
  match ch.toUpper with
  | '0' => #v[0b01110, 0b10001, 0b10011, 0b10101, 0b11001, 0b10001, 0b01110]
  | '1' => #v[0b00100, 0b01100, 0b00100, 0b00100, 0b00100, 0b00100, 0b01110]
  | '2' => #v[0b01110, 0b10001, 0b00001, 0b00010, 0b00100, 0b01000, 0b11111]
  | '3' => #v[0b11110, 0b00001, 0b00001, 0b01110, 0b00001, 0b00001, 0b11110]
  | '4' => #v[0b00010, 0b00110, 0b01010, 0b10010, 0b11111, 0b00010, 0b00010]
  | '5' => #v[0b11111, 0b10000, 0b11110, 0b00001, 0b00001, 0b10001, 0b01110]
  | '6' => #v[0b00110, 0b01000, 0b10000, 0b11110, 0b10001, 0b10001, 0b01110]
  | '7' => #v[0b11111, 0b00001, 0b00010, 0b00100, 0b01000, 0b01000, 0b01000]
  | '8' => #v[0b01110, 0b10001, 0b10001, 0b01110, 0b10001, 0b10001, 0b01110]
  | '9' => #v[0b01110, 0b10001, 0b10001, 0b01111, 0b00001, 0b00010, 0b01100]
  | 'A' => #v[0b01110, 0b10001, 0b10001, 0b11111, 0b10001, 0b10001, 0b10001]
  | 'B' => #v[0b11110, 0b10001, 0b10001, 0b11110, 0b10001, 0b10001, 0b11110]
  | 'C' => #v[0b01110, 0b10001, 0b10000, 0b10000, 0b10000, 0b10001, 0b01110]
  | 'D' => #v[0b11110, 0b10001, 0b10001, 0b10001, 0b10001, 0b10001, 0b11110]
  | 'E' => #v[0b11111, 0b10000, 0b10000, 0b11110, 0b10000, 0b10000, 0b11111]
  | 'F' => #v[0b11111, 0b10000, 0b10000, 0b11110, 0b10000, 0b10000, 0b10000]
  | 'G' => #v[0b01110, 0b10001, 0b10000, 0b10111, 0b10001, 0b10001, 0b01111]
  | 'H' => #v[0b10001, 0b10001, 0b10001, 0b11111, 0b10001, 0b10001, 0b10001]
  | 'I' => #v[0b01110, 0b00100, 0b00100, 0b00100, 0b00100, 0b00100, 0b01110]
  | 'J' => #v[0b00111, 0b00010, 0b00010, 0b00010, 0b10010, 0b10010, 0b01100]
  | 'K' => #v[0b10001, 0b10010, 0b10100, 0b11000, 0b10100, 0b10010, 0b10001]
  | 'L' => #v[0b10000, 0b10000, 0b10000, 0b10000, 0b10000, 0b10000, 0b11111]
  | 'M' => #v[0b10001, 0b11011, 0b10101, 0b10101, 0b10001, 0b10001, 0b10001]
  | 'N' => #v[0b10001, 0b11001, 0b10101, 0b10011, 0b10001, 0b10001, 0b10001]
  | 'O' => #v[0b01110, 0b10001, 0b10001, 0b10001, 0b10001, 0b10001, 0b01110]
  | 'P' => #v[0b11110, 0b10001, 0b10001, 0b11110, 0b10000, 0b10000, 0b10000]
  | 'Q' => #v[0b01110, 0b10001, 0b10001, 0b10001, 0b10101, 0b10010, 0b01101]
  | 'R' => #v[0b11110, 0b10001, 0b10001, 0b11110, 0b10100, 0b10010, 0b10001]
  | 'S' => #v[0b01111, 0b10000, 0b10000, 0b01110, 0b00001, 0b00001, 0b11110]
  | 'T' => #v[0b11111, 0b00100, 0b00100, 0b00100, 0b00100, 0b00100, 0b00100]
  | 'U' => #v[0b10001, 0b10001, 0b10001, 0b10001, 0b10001, 0b10001, 0b01110]
  | 'V' => #v[0b10001, 0b10001, 0b10001, 0b10001, 0b10001, 0b01010, 0b00100]
  | 'W' => #v[0b10001, 0b10001, 0b10001, 0b10101, 0b10101, 0b10101, 0b01010]
  | 'X' => #v[0b10001, 0b10001, 0b01010, 0b00100, 0b01010, 0b10001, 0b10001]
  | 'Y' => #v[0b10001, 0b10001, 0b01010, 0b00100, 0b00100, 0b00100, 0b00100]
  | 'Z' => #v[0b11111, 0b00001, 0b00010, 0b00100, 0b01000, 0b10000, 0b11111]
  | '-' => #v[0b00000, 0b00000, 0b00000, 0b11111, 0b00000, 0b00000, 0b00000]
  | ' ' => Vector.replicate 7 0
  | _ => #v[0b11111, 0b10001, 0b10001, 0b10001, 0b10001, 0b10001, 0b11111]

/-- The bit of a column of a glyph. -/
def lit (bits : UInt8) (col : ℕ) : Bool := bits &&& 1 <<< UInt8.ofNat (4 - col) != 0

/-- One pixel of a text, where the plane has it. -/
def drawDot (w x yy : ℕ) (y : Bytes) : Checked Bytes :=
  if x < w ∧ yy * w + x < y.length then write y (yy * w + x) 240 else .ok y

/-- One character. Each of its pixels is three by three on the plane. -/
def drawGlyph (w pen originY : ℕ) (glyph : Vector UInt8 7) : Bytes → Checked Bytes :=
  forRange (fun row => forRange (fun col y =>
    if lit (nth glyph.toList row) col then
      forRange (fun sy => forRange (fun sx =>
        drawDot w (pen + col * 3 + sx) (originY + row * 3 + sy)) 3) 3 y
    else .ok y) 5) 7

/-- `draw_text`, from a character on. -/
def drawText (w pen originY : ℕ) : List Char → Bytes → Checked Bytes
  | [], y => .ok y
  | ch :: text, y => do
      let y ← drawGlyph w pen originY (glyph ch) y
      drawText w (pen + 6 * 3) originY text y

/-- `draw_cross`. -/
def drawCross (w h cx cy : ℕ) (y : Bytes) : Checked Bytes := do
  let y ← forRange (fun turn y =>
    let x : ℤ := cx + (turn - 14)
    if 0 ≤ x ∧ x < w ∧ cy < h then write y (cy * w + x.toNat) 16 else .ok y) 29 y
  forRange (fun turn y =>
    let row : ℤ := cy + (turn - 14)
    if 0 ≤ row ∧ row < h ∧ cx < w then write y (row.toNat * w + cx) 16 else .ok y) 29 y

/-- The pointer is drawn on its own display. -/
def drawPointer (w h : ℕ) (cursor : Option (UInt32 × UInt32)) (y : Bytes) : Checked Bytes :=
  match cursor with
  | some (cx, cy) => drawCross w h cx.toNat cy.toNat y
  | none => .ok y

/-- The bar stands here. -/
def barPlace (frame : UInt64) (w : ℕ) : ℕ := min (frame.toNat * 14) (2 ^ 64 - 1) % max w 1

/-- The bar in front of the ramp. -/
def luma (w bar col : ℕ) : UInt8 :=
  if col - bar + (bar - col) < 18 then 230 else 36 + UInt8.ofNat (col * 90 / max w 1)

/-- The two tones of the displays. -/
def chroma (index : ℕ) : UInt8 × UInt8 := if index % 2 = 0 then (96, 150) else (120, 200)

/-- The label and the number of the frame. -/
def frameText (label : String) (frame : UInt64) : List Char :=
  (label ++ " " ++ toString frame.toNat).toList

/-- `render_i420`. -/
def renderI420 (index : ℕ) (frame : UInt64) (width height : UInt32) (label : String)
    (cursor : Option (UInt32 × UInt32)) : Checked Bytes := do
  let w := width.toNat
  let h := height.toNat
  let y : Bytes := List.replicate (w * h) 0
  let u := List.replicate (w / 2 * (h / 2)) (chroma index).1
  let v := List.replicate (w / 2 * (h / 2)) (chroma index).2
  let bar := barPlace frame w
  let y ← forRange (fun row => forRange (fun col y =>
    write y (row * w + col) (luma w bar col)) w) h y
  let y ← drawText w 24 24 (frameText label frame) y
  let y ← drawPointer w h cursor y
  .ok (y ++ u ++ v)

/-- `SyntheticDesktop`, with the count of the frames drawn. -/
structure SyntheticDesktop where
  displays : List DisplayInfo := demoDisplays
  frame : UInt64 := 0

namespace SyntheticDesktop

variable (desktop : SyntheticDesktop)

/-- The place of the pointer on a display. -/
def pointerOn (cursor : Cursor) (displayId : UInt32) : Option (UInt32 × UInt32) :=
  if cursor.visible ∧ cursor.displayId = displayId then some (cursor.x, cursor.y) else none

/-- The frame of one display. -/
def renderDisplay (cursor : Cursor) (display : DisplayInfo) (index : ℕ) : Checked RawFrame := do
  let i420 ← renderI420 index desktop.frame display.width display.height display.name
    (pointerOn cursor display.id)
  .ok { displayId := display.id, width := display.width, height := display.height, i420 }

/-- `SyntheticDesktop::render`, which draws each display and counts the frame. -/
def render (cursor : Cursor) : Checked (SyntheticDesktop × List RawFrame) := do
  let frames ← desktop.displays.zipIdx.mapM fun (display, index) =>
    desktop.renderDisplay cursor display index
  .ok ({ desktop with frame := desktop.frame + 1 }, frames)

end SyntheticDesktop

/-! ## The session of the demo -/

/-- A session and the desktop that it draws. `rendered` remembers the frames of each tick, with
the input that the reader had applied by then. -/
structure DemoSession where
  session : Session
  desktop : SyntheticDesktop := {}
  rendered : List (List InputEvent × List RawFrame) := []

/-- What happens to the session, but that a tick draws. -/
inductive DemoEvent
  | tick (backend : RawFrame → Backend)
  | session (event : SessionEvent)

namespace DemoSession

variable (sha256 : Bytes → Digest)

/-- A demo session starts. -/
def start (config : HostConfig) (disk : Disk UInt8) : DemoSession :=
  { session := Session.start { config with demo := true } demoDisplays disk }

/-- The loop takes a tick where it waits for one. -/
def tick (demo : DemoSession) (backend : RawFrame → Backend) : Checked DemoSession :=
  match demo.session.drive with
  | .selecting => do
      let (desktop, frames) ← demo.desktop.render demo.session.cursor
      .ok
        { session := demo.session.stepDrive sha256 (.tick frames backend)
          desktop
          rendered := demo.rendered ++ [(demo.session.applied, frames)] }
  | _ => .ok demo

/-- A step of a demo session, which draws its own frames. -/
def step (demo : DemoSession) : DemoEvent → Checked DemoSession
  | .tick backend => demo.tick sha256 backend
  | .session (.drive (.tick _ _)) => .ok demo
  | .session event => .ok { demo with session := demo.session.step sha256 event }

end DemoSession

end OmarchyConnect.Host
