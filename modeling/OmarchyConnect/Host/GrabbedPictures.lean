/-
# The pictures that are grabbed

`Grabber::frame` copies the shared memory of an output, turns the copy upside down where
the compositor says so and converts it. This is what the rounds of the capture take for
the picture of a buffer. It never panics, and the frame shows the rows of the buffer in
the order in which they are seen.
-/

import OmarchyConnect.Host.FlipRows
import OmarchyConnect.Host.Screencopy
import OmarchyConnect.Host.YuvPictures

namespace OmarchyConnect.Host

open OmarchyConnect.Library.Wire OmarchyConnect.Library.Loops OmarchyConnect.Library.Rows

namespace ShmBuffer

/-- The bytes of all rows. -/
def len (buffer : ShmBuffer) : ℕ := buffer.spec.stride.toNat * buffer.spec.height.toNat

/-- `read_exact_at` into the scratch. A file that is too short is an error. -/
def readExact (buffer : ShmBuffer) : Option Bytes :=
  if buffer.content.length < buffer.len then none else some (buffer.content.take buffer.len)

/-- The scratch is turned upside down where the flag says so. -/
def turned (buffer : ShmBuffer) (yInvert : Bool) (scratch : Bytes) : Checked Bytes :=
  if yInvert then flipRows scratch buffer.spec.stride.toNat buffer.spec.height.toNat
  else .ok scratch

/-- `Grabber::frame`, from `read_exact_at` to the conversion. -/
def toI420 (buffer : ShmBuffer) (yInvert : Bool) (width height : UInt32) :
    Checked (Option Bytes) := do
  match buffer.readExact with
  | none => .ok none
  | some scratch =>
      let scratch ← buffer.turned yInvert scratch
      match pixelOrder buffer.spec.format with
      | none => .ok none
      | some order => packedToI420 scratch buffer.spec.stride.toNat width height order

/-- The row of the buffer that is seen at a row of the picture. -/
def seenRow (buffer : ShmBuffer) (yInvert : Bool) (row : ℕ) : ℕ :=
  if yInvert then buffer.spec.height.toNat - 1 - row else row

/-- The picture of the buffer. -/
def picture (buffer : ShmBuffer) (yInvert : Bool) (order : PixelOrder) : Picture where
  y r c :=
    (packedSample buffer.content buffer.spec.stride.toNat order (buffer.seenRow yInvert r) c).1
  u r c := (packedSample buffer.content buffer.spec.stride.toNat order
    (buffer.seenRow yInvert (2 * r)) (2 * c)).2.1
  v r c := (packedSample buffer.content buffer.spec.stride.toNat order
    (buffer.seenRow yInvert (2 * r)) (2 * c)).2.2

variable {buffer : ShmBuffer} {scratch : Bytes}

/-- A buffer that is read is long enough. -/
theorem readExact_eq_some (hread : buffer.readExact = some scratch) :
    buffer.len ≤ buffer.content.length ∧ scratch = buffer.content.take buffer.len := by
  unfold readExact at hread
  split_ifs at hread with hshort
  exact ⟨Nat.not_lt.mp hshort, (Option.some.inj hread).symm⟩

/-- What is read has the length of the buffer. -/
theorem length_of_readExact (hread : buffer.readExact = some scratch) :
    scratch.length = buffer.len := by
  obtain ⟨hlength, rfl⟩ := readExact_eq_some hread
  rw [List.length_take]
  exact Nat.min_eq_left hlength

/-- The scratch has the rows in the order in which they are seen. -/
theorem turned_yields (yInvert : Bool) (hread : buffer.readExact = some scratch) :
    Yields (buffer.turned yInvert scratch)
      (RowsFrom buffer.spec.stride.toNat buffer.spec.height.toNat (buffer.seenRow yInvert)
        scratch) := by
  cases yInvert with
  | true => exact flipRows_yields (length_of_readExact hread).ge
  | false => exact .ok (.refl scratch)

/-- The row that is seen is one of the picture. -/
theorem seenRow_lt {yInvert : Bool} {row : ℕ} (hrow : row < buffer.spec.height.toNat) :
    buffer.seenRow yInvert row < buffer.spec.height.toNat := by
  unfold seenRow
  split_ifs <;> omega

/-- A pixel of the scratch is the pixel of the buffer that is seen there. -/
theorem packedSample_turned {yInvert : Bool} {order : PixelOrder} {turnedRows : Bytes}
    (hread : buffer.readExact = some scratch)
    (hrows : RowsFrom buffer.spec.stride.toNat buffer.spec.height.toNat (buffer.seenRow yInvert)
      scratch turnedRows) {row col : ℕ} (hrow : row < buffer.spec.height.toNat)
    (hcol : (col + 1) * order.bytesPerPixel ≤ buffer.spec.stride.toNat) :
    packedSample turnedRows buffer.spec.stride.toNat order row col =
      packedSample buffer.content buffer.spec.stride.toNat order (buffer.seenRow yInvert row)
        col := by
  obtain ⟨-, hscratch⟩ := readExact_eq_some hread
  rw [Nat.succ_mul] at hcol
  have hbyte : ∀ k < order.bytesPerPixel,
      nth turnedRows (row * buffer.spec.stride.toNat + col * order.bytesPerPixel + k) =
        nth buffer.content
          (buffer.seenRow yInvert row * buffer.spec.stride.toNat + col * order.bytesPerPixel +
            k) := by
    intro k hk
    have hinside : col * order.bytesPerPixel + k < buffer.spec.stride.toNat := by omega
    rw [Nat.add_assoc, Nat.add_assoc, hrows.cell row hrow _ hinside, hscratch]
    exact nth_take (cell_lt (seenRow_lt hrow) hinside)
  have hbpp := order.three_le_bytesPerPixel
  have hred : order.red < order.bytesPerPixel := by cases order <;> decide
  have hblue : order.blue < order.bytesPerPixel := by cases order <;> decide
  simp only [packedSample]
  rw [hbyte _ hred, hbyte 1 (by omega), hbyte _ hblue]

/-- The rows in the order in which they are seen make the picture of the buffer. -/
theorem agrees_picture {yInvert : Bool} {order : PixelOrder} {turnedRows : Bytes}
    (hread : buffer.readExact = some scratch)
    (hrows : RowsFrom buffer.spec.stride.toNat buffer.spec.height.toNat (buffer.seenRow yInvert)
      scratch turnedRows)
    (hstride : (even buffer.spec.width).toNat * order.bytesPerPixel ≤
      buffer.spec.stride.toNat) :
    (Picture.packed turnedRows buffer.spec.stride.toNat order).Agrees
      (buffer.picture yInvert order) (even buffer.spec.width) (even buffer.spec.height) := by
  have hsample : ∀ row < (even buffer.spec.height).toNat,
      ∀ col < (even buffer.spec.width).toNat,
        packedSample turnedRows buffer.spec.stride.toNat order row col =
          packedSample buffer.content buffer.spec.stride.toNat order
            (buffer.seenRow yInvert row) col := by
    intro row hrow col hcol
    refine packedSample_turned hread hrows (hrow.trans_le (even_le _)) ?_
    exact (Nat.mul_le_mul_right order.bytesPerPixel hcol).trans hstride
  exact {
    y := fun r hr c hc => congrArg Prod.fst (hsample r hr c hc)
    u := fun r hr c hc => congrArg (·.2.1) (hsample (2 * r) (by omega) (2 * c) (by omega))
    v := fun r hr c hc => congrArg (·.2.2) (hsample (2 * r) (by omega) (2 * c) (by omega)) }

/-- Sizes of four bytes do not saturate. -/
theorem stride_fits (stride height : UInt32) : stride.toNat * height.toNat ≤ usizeMax := by
  have hstride := Nat.le_of_lt_succ stride.toNat_lt
  have hheight := Nat.le_of_lt_succ height.toNat_lt
  exact (Nat.mul_le_mul hstride hheight).trans (by decide)

/-- The conversion does not panic, and gives a frame just when the file has all rows and
the rows have all pixels. -/
theorem toI420_converts (buffer : ShmBuffer) (yInvert : Bool) {order : PixelOrder}
    (horder : pixelOrder buffer.spec.format = some order) :
    Converts (buffer.toI420 yInvert (even buffer.spec.width) (even buffer.spec.height))
      (even buffer.spec.width ≠ 0 ∧ even buffer.spec.height ≠ 0 ∧
        (even buffer.spec.width).toNat * order.bytesPerPixel ≤ buffer.spec.stride.toNat ∧
        buffer.len ≤ buffer.content.length)
      (buffer.picture yInvert order) (even buffer.spec.width) (even buffer.spec.height) := by
  unfold toI420
  cases hread : buffer.readExact with
  | none =>
      refine Converts.none fun hready => ?_
      rw [readExact, if_neg (Nat.not_lt.mpr hready.2.2.2)] at hread
      cases hread
  | some scratch =>
      obtain ⟨hcontent, -⟩ := readExact_eq_some hread
      refine (turned_yields yInvert hread).bind fun turnedRows hrows => ?_
      have hcovers : buffer.spec.stride.toNat * (even buffer.spec.height).toNat ≤
          turnedRows.length := by
        rw [hrows.length, length_of_readExact hread]
        exact Nat.mul_le_mul_left buffer.spec.stride.toNat (even_le buffer.spec.height)
      have hconverts := packedToI420_converts turnedRows buffer.spec.stride.toNat
        (even buffer.spec.width) (even buffer.spec.height) order (stride_fits _ _)
      simp only [even_even] at hconverts
      rw [horder]
      refine hconverts.congr ⟨?_, ?_⟩ fun hready => agrees_picture hread hrows hready.2.2.1
      · exact fun ⟨hwidth, hheight, hstride, _⟩ => ⟨hwidth, hheight, hstride, hcontent⟩
      · exact fun ⟨hwidth, hheight, hstride, _⟩ => ⟨hwidth, hheight, hstride, hcovers⟩

/-- Without an order of its pixels a buffer has no picture. -/
theorem toI420_of_unknown (buffer : ShmBuffer) (yInvert : Bool) (width height : UInt32)
    (horder : pixelOrder buffer.spec.format = none) :
    buffer.toI420 yInvert width height = .ok none := by
  unfold toI420
  cases hread : buffer.readExact with
  | none => rfl
  | some scratch =>
      obtain ⟨turnedRows, hturned, -⟩ := turned_yields yInvert hread
      simp only [hturned, horder]
      rfl

/-- Nothing panics, whatever the buffer says of itself. -/
theorem toI420_isOk (buffer : ShmBuffer) (yInvert : Bool) :
    ∃ result, buffer.toI420 yInvert (even buffer.spec.width) (even buffer.spec.height) =
      .ok result := by
  cases horder : pixelOrder buffer.spec.format with
  | none => exact ⟨none, buffer.toI420_of_unknown yInvert _ _ horder⟩
  | some order =>
      obtain ⟨result, hresult, -⟩ := buffer.toI420_converts yInvert horder
      exact ⟨result, hresult⟩

end ShmBuffer

namespace Screencopy

/-- The pictures that the capture thread takes from the buffers. -/
def grabbed : Screencopy.Picture := fun buffer yInvert width height =>
  match buffer.toI420 yInvert width height with
  | .ok i420 => i420
  | .error _ => none

/-- A frame that is grabbed shows the buffer of its output. -/
theorem frame_shows {output : ScreencopyOutput} {index : ℕ} {width height : UInt32}
    {found : RawFrame} (hframe : frame grabbed output index width height = some found) :
    ∃ buffer order, output.shm = some buffer ∧ pixelOrder buffer.spec.format = some order ∧
      found.width = width ∧ found.height = height ∧
      (buffer.picture output.yInvert order).Shows width height found.i420 := by
  unfold frame at hframe
  split_ifs at hframe
  split at hframe
  next => cases hframe
  next buffer hbuffer =>
    split_ifs at hframe with hsize
    rw [not_or, not_not, not_not] at hsize
    obtain ⟨rfl, rfl⟩ := hsize
    obtain ⟨i420, hi420, rfl⟩ := Option.map_eq_some_iff.mp hframe
    cases horder : pixelOrder buffer.spec.format with
    | none =>
        rw [grabbed, buffer.toI420_of_unknown _ _ _ horder] at hi420
        cases hi420
    | some order =>
        obtain ⟨result, hresult, -, hshows⟩ := buffer.toI420_converts output.yInvert horder
        rw [grabbed, hresult] at hi420
        exact ⟨buffer, order, hbuffer, horder, rfl, rfl, hshows i420 hi420⟩

end Screencopy

end OmarchyConnect.Host
