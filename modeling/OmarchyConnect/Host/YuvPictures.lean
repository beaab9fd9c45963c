/-
# What the pixel converters show

A frame shows a picture when it has the length of its size and the samples of the three
planes are those of the picture. Each converter yields, without an index out of range, a
frame that shows the picture of its source, just when the source covers its rows.

The luma and the chroma of packed pixels are those of limited-range BT.601: the standard
fixes the shares of the channels, and a byte is its sample in steps of a 256th.

`Planes.Drawn` is the invariant of the loops: the cells that have been gone over are
those of the picture.
-/

import OmarchyConnect.Host.Yuv
import OmarchyConnect.Library.ColourSamples

namespace OmarchyConnect.Host

open OmarchyConnect.Library.Wire OmarchyConnect.Library.Loops
open OmarchyConnect.Library.ColourSamples

/-- The luma samples and the samples of the two chroma planes, by row and column. -/
structure Picture where
  y : ℕ → ℕ → UInt8
  u : ℕ → ℕ → UInt8
  v : ℕ → ℕ → UInt8

/-- An I420 frame shows a picture, sample by sample. -/
structure Picture.Shows (picture : Picture) (width height : UInt32) (out : Bytes) : Prop where
  length : out.length = i420Size width height
  y : ∀ r < height.toNat, ∀ c < width.toNat, nth out (r * width.toNat + c) = picture.y r c
  u : ∀ r < height.toNat / 2, ∀ c < width.toNat / 2,
    nth out (width.toNat * height.toNat + (r * (width.toNat / 2) + c)) = picture.u r c
  v : ∀ r < height.toNat / 2, ∀ c < width.toNat / 2,
    nth out (width.toNat * height.toNat + width.toNat / 2 * (height.toNat / 2) +
      (r * (width.toNat / 2) + c)) = picture.v r c

/-- Two pictures have the same samples, as far as a frame of the size shows them. -/
structure Picture.Agrees (picture other : Picture) (width height : UInt32) : Prop where
  y : ∀ r < height.toNat, ∀ c < width.toNat, picture.y r c = other.y r c
  u : ∀ r < height.toNat / 2, ∀ c < width.toNat / 2, picture.u r c = other.u r c
  v : ∀ r < height.toNat / 2, ∀ c < width.toNat / 2, picture.v r c = other.v r c

/-- The answer of a converter that does not panic: a frame just when the source is
`ready`, and then one that shows the picture. -/
def Converts (answer : Checked (Option Bytes)) (ready : Prop) (picture : Picture)
    (width height : UInt32) : Prop :=
  Yields answer fun result =>
    (result.isSome ↔ ready) ∧ ∀ out, result = some out → picture.Shows width height out

namespace Picture.Shows

variable {picture other : Picture} {width height : UInt32} {out out' : Bytes}

/-- A frame that shows a picture shows the pictures that agree with it, and no others. -/
theorem iff_agrees (hshows : picture.Shows width height out) :
    other.Shows width height out ↔ picture.Agrees other width height := by
  constructor
  · intro hother
    exact {
      y := fun r hr c hc => (hshows.y r hr c hc).symm.trans (hother.y r hr c hc)
      u := fun r hr c hc => (hshows.u r hr c hc).symm.trans (hother.u r hr c hc)
      v := fun r hr c hc => (hshows.v r hr c hc).symm.trans (hother.v r hr c hc) }
  · intro hagrees
    exact {
      length := hshows.length
      y := fun r hr c hc => (hshows.y r hr c hc).trans (hagrees.y r hr c hc)
      u := fun r hr c hc => (hshows.u r hr c hc).trans (hagrees.u r hr c hc)
      v := fun r hr c hc => (hshows.v r hr c hc).trans (hagrees.v r hr c hc) }

/-- A picture is shown by one frame only. -/
theorem unique (hout : picture.Shows width height out) (hout' : picture.Shows width height out') :
    out = out' := by
  apply ext_nth (hout.length.trans hout'.length.symm)
  intro i hi
  have hsize : i420Size width height =
      width.toNat * height.toNat + 2 * (width.toNat / 2 * (height.toNat / 2)) := rfl
  rw [hout.length] at hi
  by_cases hy : i < width.toNat * height.toNat
  · obtain ⟨r, hr, c, hc, rfl⟩ := exists_cell hy
    rw [hout.y r hr c hc, hout'.y r hr c hc]
  obtain ⟨j, rfl⟩ := Nat.exists_eq_add_of_le (Nat.not_lt.mp hy)
  by_cases hu : j < width.toNat / 2 * (height.toNat / 2)
  · obtain ⟨r, hr, c, hc, rfl⟩ := exists_cell hu
    rw [hout.u r hr c hc, hout'.u r hr c hc]
  obtain ⟨k, rfl⟩ := Nat.exists_eq_add_of_le (Nat.not_lt.mp hu)
  obtain ⟨r, hr, c, hc, rfl⟩ := exists_cell
    (by omega : k < width.toNat / 2 * (height.toNat / 2))
  rw [← Nat.add_assoc, hout.v r hr c hc, hout'.v r hr c hc]

/-- The frames of two pictures are equal when the pictures agree. -/
theorem eq_iff_agrees (hout : picture.Shows width height out)
    (hother : other.Shows width height out') :
    out = out' ↔ picture.Agrees other width height := by
  constructor
  · rintro rfl
    exact hout.iff_agrees.mp hother
  · intro hagrees
    exact (hout.iff_agrees.mpr hagrees).unique hother

end Picture.Shows

/-- A converter whose source is ready gives a frame that shows the picture. -/
theorem Converts.exists_frame {answer : Checked (Option Bytes)} {ready : Prop}
    {picture : Picture} {width height : UInt32} (h : Converts answer ready picture width height)
    (hready : ready) : ∃ out, answer = .ok (some out) ∧ picture.Shows width height out := by
  obtain ⟨result, hanswer, hsome, hshows⟩ := h
  obtain ⟨out, rfl⟩ := Option.isSome_iff_exists.mp (hsome.mpr hready)
  exact ⟨out, hanswer, hshows out rfl⟩

/-- A converter may be said to show another picture that agrees wherever it is ready. -/
theorem Converts.congr {answer : Checked (Option Bytes)} {ready ready' : Prop}
    {picture other : Picture} {width height : UInt32}
    (h : Converts answer ready picture width height) (hready : ready ↔ ready')
    (hagrees : ready → picture.Agrees other width height) :
    Converts answer ready' other width height := by
  refine h.mono fun result ⟨hsome, hshows⟩ => ⟨hsome.trans hready, fun out hout => ?_⟩
  have hnow : ready := hsome.mp (hout ▸ rfl)
  exact (hshows out hout).iff_agrees.mpr (hagrees hnow)

/-! ## The pictures of the sources -/

/-- Where the red of a pixel is among its bytes. The green is always the second. -/
def PixelOrder.red : PixelOrder → ℕ
  | .rgb | .rgba | .rgbx => 0
  | .bgr | .bgra | .bgrx => 2

/-- Where the blue of a pixel is. -/
def PixelOrder.blue (order : PixelOrder) : ℕ := 2 - order.red

/-- The channels of a pixel. -/
def pixelChannels (r g b : UInt8) : Channel → ℤ :=
  Channel.pick (r.toNat : ℤ) (g.toNat : ℤ) (b.toNat : ℤ)

/-- A sample of a pixel as a byte, in steps of a 256th. -/
def sampleByte (sample : Sample Channel) (r g b : UInt8) : UInt8 :=
  UInt8.ofNat (sample.fixed 256 (pixelChannels r g b)).toNat

/-- The luma and the two chroma bytes that BT.601 has for a pixel. -/
def bt601Pixel (r g b : UInt8) : UInt8 × UInt8 × UInt8 :=
  (sampleByte bt601.luma r g b, sampleByte (bt601.chroma .blue) r g b,
    sampleByte (bt601.chroma .red) r g b)

/-- The luma and the chroma of a packed source pixel. -/
def packedSample (src : Bytes) (stride : ℕ) (order : PixelOrder) (row col : ℕ) :
    UInt8 × UInt8 × UInt8 :=
  let o := row * stride + col * order.bytesPerPixel
  bt601Pixel (nth src (o + order.red)) (nth src (o + 1)) (nth src (o + order.blue))

/-- The chroma is that of the pixel at the even row and column. -/
def Picture.packed (src : Bytes) (stride : ℕ) (order : PixelOrder) : Picture where
  y r c := (packedSample src stride order r c).1
  u r c := (packedSample src stride order (2 * r) (2 * c)).2.1
  v r c := (packedSample src stride order (2 * r) (2 * c)).2.2

/-- Each luma sample is followed by a chroma sample, of `u` and of `v` in turn. -/
def Picture.yuy2 (src : Bytes) (stride : ℕ) : Picture where
  y r c := nth src (r * stride + 2 * c)
  u r c := nth src (2 * r * stride + 2 * (2 * c) + 1)
  v r c := nth src (2 * r * stride + 2 * (2 * c) + 3)

/-- The luma rows and behind them the rows of chroma pairs. -/
def Picture.nv12 (ys uvs : Bytes) (yStride uvStride : ℕ) : Picture where
  y r c := nth ys (r * yStride + c)
  u r c := nth uvs (r * uvStride + 2 * c)
  v r c := nth uvs (r * uvStride + 2 * c + 1)

/-! ## Even sizes -/

/-- `even` gives an even number. -/
theorem toNat_even_mod (value : UInt32) : (even value).toNat % 2 = 0 := by
  have hbits := Nat.and_mod_two_pow (a := value.toNat) (b := 0xfffffffe) (n := 1)
  simpa [even] using hbits

/-- `even` rounds down to an even number. -/
theorem toNat_even (value : UInt32) : (even value).toNat = 2 * (value.toNat / 2) := by
  have hhalf : (even value).toNat / 2 = value.toNat / 2 := by
    have hbits : (even value).toNat / 2 = value.toNat / 2 &&& (2 ^ 31 - 1) :=
      Nat.and_div_two
    rw [hbits, Nat.and_two_pow_sub_one_eq_mod]
    exact Nat.mod_eq_of_lt (Nat.div_lt_of_lt_mul value.toNat_lt)
  have hparity := toNat_even_mod value
  omega

/-- `even` rounds down. -/
theorem even_le (value : UInt32) : (even value).toNat ≤ value.toNat := by
  rw [toNat_even]
  omega

/-- `even` changes no even number. -/
@[simp]
theorem even_even (value : UInt32) : even (even value) = even value := by
  simp [even, UInt32.and_assoc]

/-! ## Drawing -/

/-- The samples drawn so far are those of the picture. -/
structure Planes.Drawn (width height : UInt32) (picture : Picture) (luma chroma : ℕ → ℕ → Prop)
    (planes : Planes) : Prop where
  y : Filled width.toNat height.toNat luma picture.y planes.y
  u : Filled (width.toNat / 2) (height.toNat / 2) chroma picture.u planes.u
  v : Filled (width.toNat / 2) (height.toNat / 2) chroma picture.v planes.v

section Drawing

variable {width height : UInt32} {picture : Picture} {luma chroma later : ℕ → ℕ → Prop}
  {planes : Planes}

/-- The three planes of a split frame have their sizes. -/
theorem Planes.split_yields (heven : height.toNat % 2 = 0) (hluma : ∀ r c, ¬ luma r c)
    (hchroma : ∀ r c, ¬ chroma r c) :
    Yields (Planes.split width height) (Planes.Drawn width height picture luma chroma) := by
  have hquarter : width.toNat / 2 * height.toNat / 2 = width.toNat / 2 * (height.toNat / 2) :=
    Nat.mul_div_assoc _ (Nat.dvd_of_mod_eq_zero heven)
  have hsize : i420Size width height =
      width.toNat * height.toNat + 2 * (width.toNat / 2 * (height.toNat / 2)) := rfl
  have hluma' : width.toNat * height.toNat ≤ i420Size width height := by omega
  have hchroma' : width.toNat / 2 * height.toNat / 2 ≤
      i420Size width height - width.toNat * height.toNat := by omega
  simp only [Planes.split, splitAt, List.length_replicate, List.drop_replicate,
    List.take_replicate, if_pos hluma', if_pos hchroma', bind, Except.bind]
  refine .ok ⟨.of_none ?_ hluma, .of_none ?_ hchroma, .of_none ?_ hchroma⟩
  all_goals
    rw [List.length_replicate]
    omega

/-- Of what is drawn, any part is drawn. -/
theorem Planes.Drawn.mono {luma' chroma' : ℕ → ℕ → Prop}
    (hplanes : planes.Drawn width height picture luma chroma)
    (hluma : ∀ r < height.toNat, ∀ c < width.toNat, luma' r c → luma r c)
    (hchroma : ∀ r < height.toNat / 2, ∀ c < width.toNat / 2, chroma' r c → chroma r c) :
    planes.Drawn width height picture luma' chroma' :=
  ⟨hplanes.y.mono hluma, hplanes.u.mono hchroma, hplanes.v.mono hchroma⟩

/-- A luma sample of the picture is drawn. -/
theorem Planes.Drawn.writeLuma (hplanes : planes.Drawn width height picture luma chroma)
    {row col : ℕ} (hrow : row < height.toNat) (hcol : col < width.toNat)
    (hlater : ∀ r c, later r c → luma r c ∨ r = row ∧ c = col) :
    Yields (planes.writeLuma (row * width.toNat + col) (picture.y row col))
      (Planes.Drawn width height picture later chroma) := by
  apply (hplanes.y.write hrow hcol hlater).bind
  intro yPlane hy
  exact .ok ⟨hy, hplanes.u, hplanes.v⟩

/-- A chroma pair of the picture is drawn. -/
theorem Planes.Drawn.writeChroma (hplanes : planes.Drawn width height picture luma chroma)
    {row col : ℕ} (hrow : row < height.toNat / 2) (hcol : col < width.toNat / 2)
    (hlater : ∀ r c, later r c → chroma r c ∨ r = row ∧ c = col) :
    Yields (planes.writeChroma (row * (width.toNat / 2) + col) (picture.u row col)
        (picture.v row col))
      (Planes.Drawn width height picture luma later) := by
  apply (hplanes.u.write hrow hcol hlater).bind
  intro uPlane hu
  apply (hplanes.v.write hrow hcol hlater).bind
  intro vPlane hv
  exact .ok ⟨hplanes.y, hu, hv⟩

/-- Fully drawn planes are the parts of a frame that shows the picture. -/
theorem Planes.Drawn.shows (hplanes : planes.Drawn width height picture luma chroma)
    (hluma : ∀ r < height.toNat, ∀ c < width.toNat, luma r c)
    (hchroma : ∀ r < height.toNat / 2, ∀ c < width.toNat / 2, chroma r c) :
    picture.Shows width height planes.dst := by
  have hy := hplanes.y.length
  have hu := hplanes.u.length
  have hv := hplanes.v.length
  have huv : (planes.y ++ planes.u).length =
      width.toNat * height.toNat + width.toNat / 2 * (height.toNat / 2) := by
    rw [List.length_append, hy, hu]
  refine ⟨?_, fun r hr c hc => ?_, fun r hr c hc => ?_, fun r hr c hc => ?_⟩
  · rw [Planes.dst, List.length_append, huv, hv, i420Size]
    ring
  · rw [Planes.dst, List.append_assoc, nth_append_left _ (hy ▸ cell_lt hr hc)]
    exact hplanes.y.cell r hr c hc (hluma r hr c hc)
  · rw [Planes.dst, List.append_assoc, ← hy, nth_append_right,
      nth_append_left _ (hu ▸ cell_lt hr hc)]
    exact hplanes.u.cell r hr c hc (hchroma r hr c hc)
  · rw [Planes.dst, ← huv, nth_append_right]
    exact hplanes.v.cell r hr c hc (hchroma r hr c hc)

/-- A converter that refuses a source that is not ready. -/
theorem Converts.none {ready : Prop} (hnot : ¬ ready) :
    Converts (.ok none) ready picture width height :=
  .ok ⟨iff_of_false (by simp) hnot, by simp⟩

/-- A converter that goes over all cells of a frame and gives it out. -/
theorem Converts.some {ready : Prop} (hready : ready) {result : Checked Planes}
    (hresult : Yields result fun planes =>
      picture.Shows width height planes.dst) :
    Converts (result >>= fun planes => .ok (some planes.dst)) ready picture width height := by
  apply hresult.bind
  intro planes hplanes
  refine .ok ⟨iff_of_true rfl hready, fun out hout => ?_⟩
  obtain rfl := Option.some.inj hout
  exact hplanes

end Drawing

/-! ## The samples of a pixel -/

/-- A sum in range is not clamped. -/
theorem toNat_clampU8 {v : ℤ} (hlow : 0 ≤ v) (hhigh : v ≤ 255) : ((clampU8 v).toNat : ℤ) = v := by
  rw [clampU8, min_eq_left hhigh, max_eq_right hlow, UInt8.toNat_ofNat']
  omega

/-- A sample that a sum of `rgb_to_yuv` gives without being clamped, up to a limit. -/
structure Unclamped (sum : ℤ) (sample : UInt8) (limit : ℤ) : Prop where
  low : 16 ≤ sum
  high : sum ≤ limit
  eq : (sample.toNat : ℤ) = sum

/-- A sum within its limits becomes its sample. -/
theorem unclamped_clampU8 {sum limit : ℤ} (hlow : 16 ≤ sum) (hhigh : sum ≤ limit)
    (hlimit : limit ≤ 255) : Unclamped sum (clampU8 sum) limit :=
  ⟨hlow, hhigh, toNat_clampU8 (by omega) (by omega)⟩

/-- The sums of a pixel are in the limited range of BT.601. -/
theorem rgbToYuv_unclamped (r g b : UInt8) :
    Unclamped (yuvSums r g b).1 (rgbToYuv r g b).1 235 ∧
      Unclamped (yuvSums r g b).2.1 (rgbToYuv r g b).2.1 240 ∧
      Unclamped (yuvSums r g b).2.2 (rgbToYuv r g b).2.2 240 := by
  have hr := r.toNat_lt
  have hg := g.toNat_lt
  have hb := b.toNat_lt
  simp only [rgbToYuv, yuvSums, Int.shiftRight_eq_div_pow]
  refine ⟨unclamped_clampU8 ?_ ?_ (by decide), unclamped_clampU8 ?_ ?_ (by decide),
    unclamped_clampU8 ?_ ?_ (by decide)⟩
  all_goals omega

/-- The sums are the samples of BT.601 in fixed point. -/
theorem yuvSums_eq (r g b : UInt8) :
    yuvSums r g b = (bt601.luma.fixed 256 (pixelChannels r g b),
      (bt601.chroma .blue).fixed 256 (pixelChannels r g b),
      (bt601.chroma .red).fixed 256 (pixelChannels r g b)) := by
  have hround := fun n : ℤ => round_div_two_mul n (by decide : 0 < 128)
  simp only [Sample.fixed, bt601_luma_steps, bt601_blue_steps, bt601_red_steps, Channel.sum_eq,
    pixelChannels, Channel.pick_red, Channel.pick_green, Channel.pick_blue, yuvSums,
    Int.shiftRight_eq_div_pow, Prod.mk.injEq]
  rw [hround, hround, hround]
  simp only [bt601, Primaries.luma, Primaries.chroma]
  omega

/-- The code has the bytes of BT.601. -/
theorem rgbToYuv_eq (r g b : UInt8) : rgbToYuv r g b = bt601Pixel r g b := by
  have hclamp {sum limit : ℤ} {sample : UInt8} (h : Unclamped sum sample limit) :
      sample = UInt8.ofNat sum.toNat := by
    rw [← h.eq, Int.toNat_natCast, UInt8.ofNat_toNat]
  obtain ⟨hy, hu, hv⟩ := rgbToYuv_unclamped r g b
  rw [yuvSums_eq] at hy hu hv
  exact Prod.ext (hclamp hy) (Prod.ext (hclamp hu) (hclamp hv))

/-- Bytes that are less than one off the samples of a pixel. -/
structure NearSamples (r g b : UInt8) (bytes : UInt8 × UInt8 × UInt8) : Prop where
  y : |(bytes.1.toNat : ℚ) - bt601.luma.exact (pixelChannels r g b)| < 1
  u : |(bytes.2.1.toNat : ℚ) - (bt601.chroma .blue).exact (pixelChannels r g b)| < 1
  v : |(bytes.2.2.toNat : ℚ) - (bt601.chroma .red).exact (pixelChannels r g b)| < 1

/-- The channels of a pixel are of eight bits. -/
theorem eightBit_pixelChannels (r g b : UInt8) : EightBit (pixelChannels r g b) := by
  have hr := r.toNat_lt
  have hg := g.toNat_lt
  have hb := b.toNat_lt
  intro channel
  cases channel <;> simp only [pixelChannels, Channel.pick_red, Channel.pick_green,
    Channel.pick_blue] <;> omega

/-- A byte that was not clamped is as near as the sum. -/
theorem Unclamped.near {sum limit : ℤ} {byte : UInt8} {value : ℚ} (h : Unclamped sum byte limit)
    (hnear : |(sum : ℚ) - value| < 1) : |(byte.toNat : ℚ) - value| < 1 := by
  rwa [← h.eq, Int.cast_natCast] at hnear

/-- The samples of a pixel are near those of BT.601. -/
theorem rgbToYuv_near (r g b : UInt8) : NearSamples r g b (rgbToYuv r g b) := by
  have hbytes := eightBit_pixelChannels r g b
  obtain ⟨hy, hu, hv⟩ := rgbToYuv_unclamped r g b
  rw [yuvSums_eq] at hy hu hv
  exact ⟨hy.near (bt601_luma_near hbytes), hu.near (bt601_blue_near hbytes),
    hv.near (bt601_red_near hbytes)⟩

/-! ## Packed RGB -/

section Packed

variable {src : Bytes} {stride : ℕ} {order : PixelOrder} {width height : UInt32}

/-- A pixel has at least three bytes. -/
theorem PixelOrder.three_le_bytesPerPixel (order : PixelOrder) : 3 ≤ order.bytesPerPixel := by
  cases order <;> decide

/-- The three channels of a pixel are read at their places. -/
theorem PixelOrder.rgbOf_eq (order : PixelOrder) {px : Bytes} (h : 3 ≤ px.length) :
    order.rgbOf px = .ok (nth px order.red, nth px 1, nth px order.blue) := by
  have hfirst : read px 0 = .ok (nth px 0) := read_eq (by omega)
  have hsecond : read px 1 = .ok (nth px 1) := read_eq (by omega)
  have hthird : read px 2 = .ok (nth px 2) := read_eq (by omega)
  cases order <;>
    simp [PixelOrder.rgbOf, PixelOrder.red, PixelOrder.blue, hfirst, hsecond, hthird, bind,
      Except.bind]

/-- The bytes of a unit of `n` bytes in a row lie inside of a source that covers the rows. -/
theorem unit_le {row col rows cols n : ℕ} (hrow : row < rows) (hcol : col < cols)
    (hstride : cols * n ≤ stride) (hsrc : stride * rows ≤ src.length) :
    row * stride + col * n + n ≤ src.length := by
  calc row * stride + col * n + n = row * stride + (col + 1) * n := by ring
    _ ≤ row * stride + cols * n := by gcongr; exact hcol
    _ ≤ row * stride + stride := by gcongr
    _ = stride * (row + 1) := by ring
    _ ≤ stride * rows := Nat.mul_le_mul_left stride hrow
    _ ≤ src.length := hsrc

/-- The pixels before a row and a column are drawn, the chroma of those that have it. -/
def PackedBefore (src : Bytes) (stride : ℕ) (order : PixelOrder) (width height : UInt32)
    (row col : ℕ) : Planes → Prop :=
  Planes.Drawn width height (.packed src stride order) (Before row col)
    (fun r c => Before row col (2 * r) (2 * c))

/-- A turn of the loop draws the cells of its pixel. -/
theorem packedPixel_yields {planes : Planes} {row col : ℕ} (hheight : height.toNat % 2 = 0)
    (hwidth : width.toNat % 2 = 0) (hrow : row < height.toNat) (hcol : col < width.toNat)
    (hstride : width.toNat * order.bytesPerPixel ≤ stride)
    (hsrc : stride * height.toNat ≤ src.length)
    (hplanes : PackedBefore src stride order width height row col planes) :
    Yields (packedPixel src stride width order row col planes)
      (PackedBefore src stride order width height row (col + 1)) := by
  have hpx := slice_yields (Nat.le_add_right (row * stride + col * order.bytesPerPixel)
    order.bytesPerPixel) (unit_le hrow hcol hstride hsrc)
  apply hpx.bind
  rintro px ⟨hlength, hbytes⟩
  have hbpp := order.three_le_bytesPerPixel
  have hred : order.red < order.bytesPerPixel := by cases order <;> decide
  have hblue : order.blue < order.bytesPerPixel := by cases order <;> decide
  rw [Nat.add_sub_cancel_left] at hlength hbytes
  rw [order.rgbOf_eq (by omega), hbytes _ hred, hbytes 1 (by omega), hbytes _ hblue]
  have hsample : rgbToYuv (nth src (row * stride + col * order.bytesPerPixel + order.red))
      (nth src (row * stride + col * order.bytesPerPixel + 1))
      (nth src (row * stride + col * order.bytesPerPixel + order.blue)) =
        packedSample src stride order row col := rgbToYuv_eq _ _ _
  simp only [bind, Except.bind, hsample]
  change Yields ((planes.writeLuma (row * width.toNat + col)
    (packedSample src stride order row col).1) >>= fun planes =>
      if row % 2 = 0 ∧ col % 2 = 0 then
        planes.writeChroma (row / 2 * (width.toNat / 2) + col / 2)
          (packedSample src stride order row col).2.1 (packedSample src stride order row col).2.2
      else .ok planes) _
  have hluma : Yields (planes.writeLuma (row * width.toNat + col)
        (packedSample src stride order row col).1)
      (Planes.Drawn width height (.packed src stride order) (Before row (col + 1))
        (fun r c => Before row col (2 * r) (2 * c))) :=
    Planes.Drawn.writeLuma hplanes hrow hcol fun r c => Before.succ
  apply hluma.bind
  intro planes hplanes
  split_ifs with hchroma
  · have hpixel : packedSample src stride order (2 * (row / 2)) (2 * (col / 2)) =
        packedSample src stride order row col := by
      congr 1 <;> omega
    have hu : (Picture.packed src stride order).u (row / 2) (col / 2) =
        (packedSample src stride order row col).2.1 := by rw [← hpixel]; rfl
    have hv : (Picture.packed src stride order).v (row / 2) (col / 2) =
        (packedSample src stride order row col).2.2 := by rw [← hpixel]; rfl
    have hwritten : Yields _ (PackedBefore src stride order width height row (col + 1)) :=
      hplanes.writeChroma (by omega : row / 2 < height.toNat / 2)
        (by omega : col / 2 < width.toNat / 2) (by unfold Before; omega)
    rwa [hu, hv] at hwritten
  · exact .ok (hplanes.mono (fun _ _ _ _ h => h) (by unfold Before; omega))

/-- `packed_to_i420` draws the picture, or refuses it. -/
theorem packedToI420_converts (src : Bytes) (stride : ℕ) (width height : UInt32)
    (order : PixelOrder) (hfits : stride * (even height).toNat ≤ usizeMax) :
    Converts (packedToI420 src stride width height order)
      (even width ≠ 0 ∧ even height ≠ 0 ∧
        (even width).toNat * order.bytesPerPixel ≤ stride ∧
        stride * (even height).toNat ≤ src.length)
      (.packed src stride order) (even width) (even height) := by
  have hneed : saturatingMul stride (even height).toNat = stride * (even height).toNat :=
    Nat.min_eq_left hfits
  unfold packedToI420
  simp only [hneed]
  split_ifs with hzero hstride hsrc
  · exact .none fun ⟨hwidth, hheight, _, _⟩ => hzero.elim hwidth hheight
  · exact .none fun ⟨_, _, hle, _⟩ => absurd hstride (Nat.not_lt.mpr hle)
  · exact .none fun ⟨_, _, _, hle⟩ => absurd hsrc (Nat.not_lt.mpr hle)
  · rw [not_or] at hzero
    rw [Nat.not_lt] at hstride hsrc
    have hstart : Yields (Planes.split (even width) (even height))
        (PackedBefore src stride order (even width) (even height) 0 0) :=
      Planes.split_yields (toNat_even_mod height) not_before_zero
        fun r c => not_before_zero (2 * r) (2 * c)
    apply hstart.bind
    intro planes hstart
    apply Converts.some ⟨hzero.1, hzero.2, hstride, hsrc⟩
    have hloop := forRange_forRange_yields
      (PackedBefore src stride order (even width) (even height)) hstart
      (fun row hrow col hcol planes hplanes => packedPixel_yields (toNat_even_mod height)
        (toNat_even_mod width) hrow hcol hstride hsrc hplanes)
      (fun row planes hplanes => Planes.Drawn.mono hplanes (fun r _ c hc => Before.of_next hc)
        fun r _ c hc => Before.of_next (by omega))
    exact hloop.mono fun planes hplanes => Planes.Drawn.shows hplanes
      (fun r hr _ _ => .inl hr) fun r hr _ _ => .inl (by omega)

end Packed

/-! ## YUY2 -/

section Yuy2

variable {src : Bytes} {stride : ℕ} {width height : UInt32}

/-- The pairs of pixels before a row and a column are drawn. -/
def Yuy2Before (src : Bytes) (stride : ℕ) (width height : UInt32) (row col : ℕ) : Planes → Prop :=
  Planes.Drawn width height (.yuy2 src stride) (Before row (2 * col))
    (fun r c => Before row col (2 * r) c)

/-- A turn of the loop draws two luma cells, and on an even row a cell of the chroma. -/
theorem yuy2Pair_yields {planes : Planes} {row col : ℕ} (hheight : height.toNat % 2 = 0)
    (hwidth : width.toNat % 2 = 0) (hrow : row < height.toNat) (hcol : col < width.toNat / 2)
    (hstride : width.toNat * 2 ≤ stride) (hsrc : stride * height.toNat ≤ src.length)
    (hplanes : Yuy2Before src stride width height row col planes) :
    Yields (yuy2Pair src stride width row col planes)
      (Yuy2Before src stride width height row (col + 1)) := by
  have hunit : row * stride + col * 4 + 4 ≤ src.length := unit_le hrow hcol (by omega) hsrc
  unfold yuy2Pair
  simp only [read_eq (by omega : row * stride + col * 4 < src.length),
    read_eq (by omega : row * stride + col * 4 + 1 < src.length),
    read_eq (by omega : row * stride + col * 4 + 2 < src.length),
    read_eq (by omega : row * stride + col * 4 + 3 < src.length), bind, Except.bind]
  have hfirst : Yields
      (planes.writeLuma (row * width.toNat + col * 2) (nth src (row * stride + col * 4)))
      (Planes.Drawn width height (.yuy2 src stride) (Before row (2 * col + 1))
        (fun r c => Before row col (2 * r) c)) := by
    have hsample : (Picture.yuy2 src stride).y row (col * 2) =
        nth src (row * stride + col * 4) := by
      simp only [Picture.yuy2]
      congr 1
      ring
    rw [← hsample]
    exact Planes.Drawn.writeLuma hplanes hrow (by omega) (by unfold Before; omega)
  apply hfirst.bind
  intro planes hplanes
  have hsecond : Yields
      (planes.writeLuma (row * width.toNat + col * 2 + 1) (nth src (row * stride + col * 4 + 2)))
      (Planes.Drawn width height (.yuy2 src stride) (Before row (2 * (col + 1)))
        (fun r c => Before row col (2 * r) c)) := by
    have hsample : (Picture.yuy2 src stride).y row (col * 2 + 1) =
        nth src (row * stride + col * 4 + 2) := by
      simp only [Picture.yuy2]
      congr 1
      ring
    rw [← hsample, Nat.add_assoc (row * width.toNat)]
    exact hplanes.writeLuma hrow (by omega) (by unfold Before; omega)
  apply hsecond.bind
  intro planes hplanes
  split_ifs with hchroma
  · have hrow' : 2 * (row / 2) = row := by omega
    have hu : (Picture.yuy2 src stride).u (row / 2) col =
        nth src (row * stride + col * 4 + 1) := by
      simp only [Picture.yuy2, hrow']
      congr 1
      ring
    have hv : (Picture.yuy2 src stride).v (row / 2) col =
        nth src (row * stride + col * 4 + 3) := by
      simp only [Picture.yuy2, hrow']
      congr 1
      ring
    rw [← hu, ← hv]
    exact hplanes.writeChroma (by omega) hcol (by unfold Before; omega)
  · exact .ok (hplanes.mono (fun _ _ _ _ h => h) (by unfold Before; omega))

/-- `yuy2_to_i420` draws the picture, or refuses it. -/
theorem yuy2ToI420_converts (src : Bytes) (stride : ℕ) (width height : UInt32) :
    Converts (yuy2ToI420 src stride width height)
      (even width ≠ 0 ∧ even height ≠ 0 ∧ (even width).toNat * 2 ≤ stride ∧
        stride * (even height).toNat ≤ src.length)
      (.yuy2 src stride) (even width) (even height) := by
  unfold yuy2ToI420
  simp only
  split_ifs with hzero hsrc
  · exact .none fun ⟨hwidth, hheight, hle, _⟩ =>
      hzero.elim hwidth (Or.rec hheight (Nat.not_lt.mpr hle))
  · exact .none fun ⟨_, _, _, hle⟩ => absurd hsrc (Nat.not_lt.mpr hle)
  · rw [not_or, not_or, Nat.not_lt] at hzero
    rw [Nat.not_lt] at hsrc
    obtain ⟨hwidth, hheight, hstride⟩ := hzero
    have hstart : Yields (Planes.split (even width) (even height))
        (Yuy2Before src stride (even width) (even height) 0 0) :=
      Planes.split_yields (toNat_even_mod height) not_before_zero
        fun r c => not_before_zero (2 * r) c
    apply hstart.bind
    intro planes hstart
    apply Converts.some ⟨hwidth, hheight, hstride, hsrc⟩
    have hloop := forRange_forRange_yields
      (Yuy2Before src stride (even width) (even height)) hstart
      (fun row hrow col hcol planes hplanes => yuy2Pair_yields (toNat_even_mod height)
        (toNat_even_mod width) hrow hcol hstride hsrc hplanes)
      (fun row planes hplanes => Planes.Drawn.mono hplanes
        (fun r _ c hc => Before.of_next (by have := toNat_even_mod width; omega))
        fun r _ c hc => Before.of_next hc)
    exact hloop.mono fun planes hplanes => Planes.Drawn.shows hplanes
      (fun r hr _ _ => .inl hr) fun r hr _ _ => .inl (by omega)

end Yuy2

/-! ## NV12 -/

section Nv12

variable {src : Bytes} {yStride uvStride : ℕ} {width height : UInt32}

/-- A row of the Y plane is copied. -/
theorem nv12Row_yields {uvs : Bytes} {planes : Planes} {row : ℕ} (hrow : row < height.toNat)
    (hstride : width.toNat ≤ yStride) (hsrc : yStride * height.toNat ≤ src.length)
    (hplanes : planes.Drawn width height (.nv12 src uvs yStride uvStride) (fun r _ => r < row)
      (Before 0 0)) :
    Yields (nv12Row src yStride width row planes)
      (Planes.Drawn width height (.nv12 src uvs yStride uvStride) (fun r _ => r < row + 1)
        (Before 0 0)) := by
  have hend : row * yStride + width.toNat ≤ src.length := by
    have hunit := unit_le hrow Nat.one_pos (by omega : 1 * yStride ≤ yStride) hsrc
    omega
  apply (slice_yields (Nat.le_add_right (row * yStride) width.toNat) hend).bind
  rintro srcRow ⟨hlength, hbytes⟩
  rw [Nat.add_sub_cancel_left] at hlength hbytes
  apply (hplanes.y.copyRow hrow hlength hbytes).bind
  intro yPlane hy
  exact .ok ⟨hy, hplanes.u, hplanes.v⟩

/-- A pair of the UV plane is taken apart. -/
theorem nv12Pair_yields {uv : Bytes} {luma : ℕ → ℕ → Prop} {planes : Planes} {row col : ℕ}
    (hrow : row < height.toNat / 2) (hcol : col < width.toNat / 2)
    (hstride : width.toNat ≤ uvStride) (huv : uvStride * (height.toNat / 2) ≤ uv.length)
    (hplanes : planes.Drawn width height (.nv12 src uv yStride uvStride) luma (Before row col)) :
    Yields (nv12Pair uv uvStride width row col planes)
      (Planes.Drawn width height (.nv12 src uv yStride uvStride) luma (Before row (col + 1))) := by
  have hunit : row * uvStride + col * 2 + 2 ≤ uv.length := unit_le hrow hcol (by omega) huv
  unfold nv12Pair
  simp only [read_eq (by omega : row * uvStride + col * 2 < uv.length),
    read_eq (by omega : row * uvStride + col * 2 + 1 < uv.length), bind, Except.bind]
  have hwritten := hplanes.writeChroma hrow hcol fun r c => Before.succ
  simpa only [Picture.nv12, Nat.mul_comm 2 col] using hwritten

/-- `nv12_to_i420` draws the picture, or refuses it. -/
theorem nv12ToI420_converts (src : Bytes) (yStride uvStride : ℕ) (width height : UInt32) :
    Converts (nv12ToI420 src yStride uvStride width height)
      (even width ≠ 0 ∧ even height ≠ 0 ∧ (even width).toNat ≤ yStride ∧
        (even width).toNat ≤ uvStride ∧
        yStride * (even height).toNat + uvStride * ((even height).toNat / 2) ≤ src.length)
      (.nv12 src (src.drop (yStride * (even height).toNat)) yStride uvStride)
      (even width) (even height) := by
  unfold nv12ToI420
  simp only
  split_ifs with hzero hsrc
  · exact .none fun ⟨hwidth, hheight, hle, hle', _⟩ => hzero.elim hwidth
      (Or.rec hheight (Or.rec (Nat.not_lt.mpr hle) (Nat.not_lt.mpr hle')))
  · exact .none fun ⟨_, _, _, _, hle⟩ => absurd hsrc (Nat.not_lt.mpr hle)
  · rw [not_or, not_or, not_or, Nat.not_lt, Nat.not_lt] at hzero
    rw [Nat.not_lt] at hsrc
    obtain ⟨hwidth, hheight, hyStride, huvStride⟩ := hzero
    have hyBytes : yStride * (even height).toNat ≤ src.length := by omega
    have hstart : Yields (Planes.split (even width) (even height))
        (Planes.Drawn (even width) (even height)
          (.nv12 src (src.drop (yStride * (even height).toNat)) yStride uvStride)
          (fun r _ => r < 0) (Before 0 0)) :=
      Planes.split_yields (toNat_even_mod height) (by simp) not_before_zero
    apply hstart.bind
    intro planes hstart
    have hluma := forRange_yields
      (fun row => Planes.Drawn (even width) (even height)
        (.nv12 src (src.drop (yStride * (even height).toNat)) yStride uvStride)
        (fun r _ => r < row) (Before 0 0)) hstart
      (fun row hrow planes hplanes => nv12Row_yields hrow hyStride hyBytes hplanes)
    apply hluma.bind
    intro planes hplanes
    rw [slice_to_end hyBytes]
    apply Converts.some ⟨hwidth, hheight, hyStride, huvStride, hsrc⟩
    have hchroma := forRange_forRange_yields
      (fun row col => Planes.Drawn (even width) (even height)
        (.nv12 src (src.drop (yStride * (even height).toNat)) yStride uvStride)
        (fun r _ => r < (even height).toNat) (Before row col)) hplanes
      (fun row hrow col hcol planes hplanes => nv12Pair_yields hrow hcol huvStride
        (by rw [List.length_drop]; omega) hplanes)
      (fun row planes hplanes => hplanes.mono (fun _ _ _ _ h => h)
        fun r _ c hc => Before.of_next hc)
    exact hchroma.mono fun planes hplanes =>
      hplanes.shows (fun r hr _ _ => hr) fun r hr _ _ => .inl hr

end Nv12

/-! ## The three converters -/

/-- The converters are exact: none panics, each gives a frame just when its source covers
the rows of an even size that is not zero, and the frame shows the picture of the source.
The luma and the chroma of packed pixels are less than one off those of BT.601 and in its
limited range: the clamp changes nothing. -/
theorem converters_exact (src : Bytes) (stride yStride uvStride : ℕ) (width height : UInt32)
    (order : PixelOrder) (hfits : stride * (even height).toNat ≤ usizeMax) :
    Converts (packedToI420 src stride width height order)
        (even width ≠ 0 ∧ even height ≠ 0 ∧
          (even width).toNat * order.bytesPerPixel ≤ stride ∧
          stride * (even height).toNat ≤ src.length)
        (.packed src stride order) (even width) (even height) ∧
      Converts (yuy2ToI420 src stride width height)
        (even width ≠ 0 ∧ even height ≠ 0 ∧ (even width).toNat * 2 ≤ stride ∧
          stride * (even height).toNat ≤ src.length)
        (.yuy2 src stride) (even width) (even height) ∧
      Converts (nv12ToI420 src yStride uvStride width height)
        (even width ≠ 0 ∧ even height ≠ 0 ∧ (even width).toNat ≤ yStride ∧
          (even width).toNat ≤ uvStride ∧
          yStride * (even height).toNat + uvStride * ((even height).toNat / 2) ≤ src.length)
        (.nv12 src (src.drop (yStride * (even height).toNat)) yStride uvStride)
        (even width) (even height) ∧
      ∀ r g b : UInt8,
        Unclamped (yuvSums r g b).1 (rgbToYuv r g b).1 235 ∧
          Unclamped (yuvSums r g b).2.1 (rgbToYuv r g b).2.1 240 ∧
          Unclamped (yuvSums r g b).2.2 (rgbToYuv r g b).2.2 240 ∧
          rgbToYuv r g b = bt601Pixel r g b ∧ NearSamples r g b (rgbToYuv r g b) :=
  ⟨packedToI420_converts src stride width height order hfits,
    yuy2ToI420_converts src stride width height,
    nv12ToI420_converts src yStride uvStride width height, fun r g b =>
      have ⟨hy, hu, hv⟩ := rgbToYuv_unclamped r g b
      ⟨hy, hu, hv, rgbToYuv_eq r g b, rgbToYuv_near r g b⟩⟩

/-- Two rows of two grey pixels. -/
theorem converters_exact_grey :
    Converts (packedToI420 (List.replicate 12 200) 6 2 2 .rgb)
      (even 2 ≠ 0 ∧ even 2 ≠ 0 ∧ (even 2).toNat * PixelOrder.rgb.bytesPerPixel ≤ 6 ∧
        6 * (even 2).toNat ≤ (List.replicate 12 (200 : UInt8)).length)
      (.packed (List.replicate 12 200) 6 .rgb) (even 2) (even 2) :=
  (converters_exact (List.replicate 12 200) 6 2 2 2 2 .rgb (by decide)).1

end OmarchyConnect.Host
