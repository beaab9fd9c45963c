/-
# The pixel converters

The captures give packed, interleaved or planar pixels in rows of a stride, and the
encoders take I420: a luma plane and two planes of a quarter of its size, without gaps.
The converters are loops over checked buffers. Sizes in bytes are natural numbers here
and `usize` in the source; only `saturatingMul` looks at the difference.
-/

import OmarchyConnect.Host.Capture
import OmarchyConnect.Host.Session
import OmarchyConnect.Library.Loops

namespace OmarchyConnect.Host

open OmarchyConnect.Library.Wire OmarchyConnect.Library.Loops

/-- `PixelOrder`. -/
inductive PixelOrder
  | rgb
  | bgr
  | rgba
  | bgra
  | rgbx
  | bgrx

/-- `PixelOrder::bytes_per_pixel`. -/
def PixelOrder.bytesPerPixel : PixelOrder → ℕ
  | .rgb | .bgr => 3
  | .rgba | .bgra | .rgbx | .bgrx => 4

/-- `PixelOrder::rgb`, the red, the green and the blue of a pixel. -/
def PixelOrder.rgbOf (order : PixelOrder) (px : Bytes) : Checked (UInt8 × UInt8 × UInt8) := do
  let first ← read px 0
  let second ← read px 1
  let third ← read px 2
  match order with
  | .rgb | .rgba => .ok (first, second, third)
  | .bgr | .bgra => .ok (third, second, first)
  | .rgbx => .ok (first, second, third)
  | .bgrx => .ok (third, second, first)

/-- `clamp_u8`. -/
def clampU8 (v : ℤ) : UInt8 := UInt8.ofNat (max 0 (min v 255)).toNat

/-- The sums of `rgb_to_yuv` before they are clamped. -/
def yuvSums (r g b : UInt8) : ℤ × ℤ × ℤ :=
  let r : ℤ := r.toNat
  let g : ℤ := g.toNat
  let b : ℤ := b.toNat
  (((66 * r + 129 * g + 25 * b + 128) >>> (8 : ℕ)) + 16,
    ((-38 * r - 74 * g + 112 * b + 128) >>> (8 : ℕ)) + 128,
    ((112 * r - 94 * g - 18 * b + 128) >>> (8 : ℕ)) + 128)

/-- `rgb_to_yuv`. -/
def rgbToYuv (r g b : UInt8) : UInt8 × UInt8 × UInt8 :=
  let (y, u, v) := yuvSums r g b
  (clampU8 y, clampU8 u, clampU8 v)

/-! ## The planes of a frame -/

/-- The parts of a frame that `split_at_mut` gives out. -/
structure Planes where
  y : Bytes
  u : Bytes
  v : Bytes

/-- A frame of zeros, split. -/
def Planes.split (width height : UInt32) : Checked Planes := do
  let dst : Bytes := List.replicate (i420Size width height) 0
  let ySize := width.toNat * height.toNat
  let cw := width.toNat / 2
  let (yPlane, rest) ← splitAt dst ySize
  let (uPlane, vPlane) ← splitAt rest (cw * height.toNat / 2)
  .ok ⟨yPlane, uPlane, vPlane⟩

/-- The frame that the planes are parts of. -/
def Planes.dst (planes : Planes) : Bytes := planes.y ++ planes.u ++ planes.v

/-- Both chroma planes are written at one index. -/
def Planes.writeChroma (planes : Planes) (c : ℕ) (u v : UInt8) : Checked Planes := do
  let uPlane ← write planes.u c u
  let vPlane ← write planes.v c v
  .ok { planes with u := uPlane, v := vPlane }

/-- A luma sample is written. -/
def Planes.writeLuma (planes : Planes) (i : ℕ) (y : UInt8) : Checked Planes := do
  let yPlane ← write planes.y i y
  .ok { planes with y := yPlane }

/-! ## Packed RGB -/

/-- `usize::MAX` on a target of 64 bits. -/
def usizeMax : ℕ := 2 ^ 64 - 1

/-- `usize::saturating_mul`. -/
def saturatingMul (a b : ℕ) : ℕ := min (a * b) usizeMax

/-- The body of the loop of `packed_to_i420`. -/
def packedPixel (src : Bytes) (stride : ℕ) (width : UInt32) (order : PixelOrder) (row col : ℕ)
    (planes : Planes) : Checked Planes := do
  let bpp := order.bytesPerPixel
  let cw := width.toNat / 2
  let o := row * stride + col * bpp
  let px ← slice src o (o + bpp)
  let (r, g, b) ← order.rgbOf px
  let (y, u, v) := rgbToYuv r g b
  let planes ← planes.writeLuma (row * width.toNat + col) y
  if row % 2 = 0 ∧ col % 2 = 0 then planes.writeChroma (row / 2 * cw + col / 2) u v
  else .ok planes

/-- `packed_to_i420`. -/
def packedToI420 (src : Bytes) (stride : ℕ) (width height : UInt32) (order : PixelOrder) :
    Checked (Option Bytes) :=
  let width := even width
  let height := even height
  if width = 0 ∨ height = 0 then .ok none
  else
    let bpp := order.bytesPerPixel
    if stride < width.toNat * bpp then .ok none
    else
      let need := saturatingMul stride height.toNat
      if src.length < need then .ok none
      else do
        let planes ← Planes.split width height
        let planes ← forRange (fun row =>
          forRange (packedPixel src stride width order row) width.toNat) height.toNat planes
        .ok (some planes.dst)

/-! ## YUY2 -/

/-- The body of the loop of `yuy2_to_i420`. -/
def yuy2Pair (src : Bytes) (stride : ℕ) (width : UInt32) (row col : ℕ) (planes : Planes) :
    Checked Planes := do
  let cw := width.toNat / 2
  let o := row * stride + col * 4
  let y0 ← read src o
  let u ← read src (o + 1)
  let y1 ← read src (o + 2)
  let v ← read src (o + 3)
  let x := col * 2
  let planes ← planes.writeLuma (row * width.toNat + x) y0
  let planes ← planes.writeLuma (row * width.toNat + x + 1) y1
  if row % 2 = 0 then planes.writeChroma (row / 2 * cw + col) u v else .ok planes

/-- `yuy2_to_i420`. -/
def yuy2ToI420 (src : Bytes) (stride : ℕ) (width height : UInt32) : Checked (Option Bytes) :=
  let width := even width
  let height := even height
  if width = 0 ∨ height = 0 ∨ stride < width.toNat * 2 then .ok none
  else if src.length < stride * height.toNat then .ok none
  else do
    let planes ← Planes.split width height
    let planes ← forRange (fun row =>
      forRange (yuy2Pair src stride width row) (width.toNat / 2)) height.toNat planes
    .ok (some planes.dst)

/-! ## NV12 -/

/-- The body of the first loop of `nv12_to_i420`. -/
def nv12Row (src : Bytes) (yStride : ℕ) (width : UInt32) (row : ℕ) (planes : Planes) :
    Checked Planes := do
  let srcRow ← slice src (row * yStride) (row * yStride + width.toNat)
  let yPlane ← copyInto planes.y (row * width.toNat) (row * width.toNat + width.toNat) srcRow
  .ok { planes with y := yPlane }

/-- The body of the second loop of `nv12_to_i420`. -/
def nv12Pair (uv : Bytes) (uvStride : ℕ) (width : UInt32) (row col : ℕ) (planes : Planes) :
    Checked Planes := do
  let cw := width.toNat / 2
  let o := row * uvStride + col * 2
  let u ← read uv o
  let v ← read uv (o + 1)
  planes.writeChroma (row * cw + col) u v

/-- `nv12_to_i420`. -/
def nv12ToI420 (src : Bytes) (yStride uvStride : ℕ) (width height : UInt32) :
    Checked (Option Bytes) :=
  let width := even width
  let height := even height
  if width = 0 ∨ height = 0 ∨ yStride < width.toNat ∨ uvStride < width.toNat then .ok none
  else
    let yBytes := yStride * height.toNat
    let uvBytes := uvStride * (height.toNat / 2)
    if src.length < yBytes + uvBytes then .ok none
    else do
      let planes ← Planes.split width height
      let planes ← forRange (nv12Row src yStride width) height.toNat planes
      let uv ← slice src yBytes src.length
      let planes ← forRange (fun row =>
        forRange (nv12Pair uv uvStride width row) (width.toNat / 2)) (height.toNat / 2) planes
      .ok (some planes.dst)

/-! ## I420 -/

/-- `copy_i420`. -/
def copyI420 (src : Bytes) (width height : UInt32) : Checked (Option Bytes) :=
  let width := even width
  let height := even height
  let need := i420Size width height
  if src.length < need ∨ width = 0 ∨ height = 0 then .ok none
  else do
    let frame ← slice src 0 need
    .ok (some frame)

end OmarchyConnect.Host
