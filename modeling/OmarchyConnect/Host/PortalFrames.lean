/-
# The frames of the portal

`frame_from_buffer` takes the data blocks of a PipeWire buffer. Planar formats may come
in a block for each plane or in one block for all, and every block has its own stride.
-/

import OmarchyConnect.Host.Yuv

namespace OmarchyConnect.Host

open OmarchyConnect.Library.Wire OmarchyConnect.Library.Loops

/-- The formats that the source names. -/
inductive VideoFormat
  | bgrx
  | rgbx
  | bgra
  | rgba
  | bgr
  | rgb
  | yuy2
  | i420
  | nv12
  | other

/-- A data block: what its chunk says, and its memory when it is mapped. -/
structure Data where
  stride : Int32
  offset : UInt32
  size : UInt32
  data : Option Bytes

/-- The bytes of a block with their stride. -/
structure OwnedPlane where
  bytes : Bytes
  stride : ℕ
  deriving DecidableEq

/-- The stride of a block, where it has one. -/
def positiveStride (stride : Int32) (fallback : ℕ) : ℕ :=
  if 0 < stride then stride.toInt.toNat else fallback

/-- `owned_plane`. -/
def ownedPlane (data : Data) (fallbackStride : ℕ) : Option OwnedPlane :=
  let stride := positiveStride data.stride fallbackStride
  let offset := data.offset.toNat
  let size := data.size.toNat
  match data.data with
  | none => none
  | some raw =>
      let bytes :=
        if 0 < size ∧ offset + size ≤ raw.length then (raw.drop offset).take size else raw
      if bytes = [] then none else some ⟨bytes, stride⟩

/-- Rows that go beyond the end of the source are left out. -/
def copyPlane (out src : Bytes) (stride width : ℕ) : ℕ → Bytes
  | 0 => out
  | row + 1 =>
      let out := copyPlane out src stride width row
      let start := row * stride
      if start + width ≤ src.length then out ++ (src.drop start).take width else out

/-- `planar_i420`. -/
def planarI420 (width height : UInt32) (yData uData vData : Data) : Option Bytes :=
  match ownedPlane yData width.toNat, ownedPlane uData (width.toNat / 2),
    ownedPlane vData (width.toNat / 2) with
  | some y, some u, some v =>
      let out := copyPlane [] y.bytes y.stride width.toNat height.toNat
      let out := copyPlane out u.bytes u.stride (width.toNat / 2) (height.toNat / 2)
      let out := copyPlane out v.bytes v.stride (width.toNat / 2) (height.toNat / 2)
      if out.length = i420Size width height then some out else none
  | _, _, _ => none

/-- `default_stride`. -/
def defaultStride (format : VideoFormat) (width : UInt32) : ℕ :=
  let w := width.toNat
  match format with
  | .rgb | .bgr => w * 3
  | .yuy2 => w * 2
  | .i420 | .nv12 => w
  | _ => w * 4

/-- `convert_packed`. -/
def convertPacked (format : VideoFormat) (bytes : Bytes) (stride : ℕ) (width height : UInt32) :
    Checked (Option Bytes) :=
  match format with
  | .bgrx => packedToI420 bytes stride width height .bgrx
  | .rgbx => packedToI420 bytes stride width height .rgbx
  | .bgra => packedToI420 bytes stride width height .bgra
  | .rgba => packedToI420 bytes stride width height .rgba
  | .bgr => packedToI420 bytes stride width height .bgr
  | .rgb => packedToI420 bytes stride width height .rgb
  | .yuy2 => yuy2ToI420 bytes stride width height
  | .i420 => copyI420 bytes width height
  | .nv12 => nv12ToI420 bytes stride stride width height
  | .other => .ok none

/-- The conversion of `frame_from_buffer`, by the format and the number of blocks. -/
def blocksToI420 (format : VideoFormat) (width height : UInt32) :
    List Data → Checked (Option Bytes)
  | [] => .ok none
  | first :: rest =>
      match format, rest with
      | .i420, second :: third :: _ => .ok (planarI420 width height first second third)
      | .nv12, second :: _ =>
          match ownedPlane first width.toNat, ownedPlane second width.toNat with
          | some y, some uv => nv12ToI420 (y.bytes ++ uv.bytes) y.stride uv.stride width height
          | _, _ => .ok none
      | format, _ =>
          match ownedPlane first (defaultStride format width) with
          | some plane => convertPacked format plane.bytes plane.stride width height
          | none => .ok none

/-- `frame_from_buffer`. -/
def frameFromBuffer (displayId : UInt32) (format : VideoFormat) (size : UInt32 × UInt32)
    (datas : List Data) : Checked (Option RawFrame) :=
  let width := even size.1
  let height := even size.2
  if width < 2 ∨ height < 2 then .ok none
  else do
    let i420 ← blocksToI420 format width height datas
    .ok (i420.map fun i420 => { displayId, width, height, i420 })

end OmarchyConnect.Host
