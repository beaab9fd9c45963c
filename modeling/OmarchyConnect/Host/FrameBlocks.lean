/-
# Frames in one block and in several

Two NV12 blocks are put behind each other and converted as one, with the chroma looked
for behind the luma rows: blocks of a layout decode to their own planes, whatever they
hold, just when the luma block ends with its rows. One I420 block is cut at the size of a
frame without gaps: the images of a layout give the frames of their three planes just when
the layout has no gaps and no further rows.
-/

import OmarchyConnect.Host.PortalFrames
import OmarchyConnect.Host.YuvPictures

namespace OmarchyConnect.Host

open OmarchyConnect.Library.Wire OmarchyConnect.Library.Loops

/-- The frame is made of what the blocks are converted to. -/
theorem frameFromBuffer_eq {size : UInt32 × UInt32} (hwidth : ¬ even size.1 < 2)
    (hheight : ¬ even size.2 < 2) {format : VideoFormat} {datas : List Data} {out : Bytes}
    (hout : blocksToI420 format (even size.1) (even size.2) datas = .ok (some out))
    (displayId : UInt32) :
    frameFromBuffer displayId format size datas =
      .ok (some ⟨displayId, even size.1, even size.2, out⟩) := by
  unfold frameFromBuffer
  simp only [hwidth, hheight, or_self, if_false, hout]
  rfl

/-- A length from two on is not zero. -/
theorem ne_zero_of_not_lt_two {value : UInt32} (h : ¬ value < 2) : value ≠ 0 := by
  rintro rfl
  exact h (by decide)

/-- An even length is at least two where the length is. -/
theorem even_not_lt_two {value : UInt32} (h : 2 ≤ value.toNat) : ¬ even value < 2 := by
  rw [UInt32.lt_iff_toNat_lt, toNat_even]
  show ¬ 2 * (value.toNat / 2) < 2
  omega

/-- A plane of zeros with a one at a place. -/
def marked (length place : ℕ) : Bytes := (List.replicate length 0).set place 1

/-- A marked plane has its length. -/
theorem length_marked (length place : ℕ) : (marked length place).length = length := by
  simp [marked]

/-- Only the mark is one. -/
theorem nth_marked {length place : ℕ} (h : place < length) (i : ℕ) :
    nth (marked length place) i = if place = i then 1 else 0 := by
  have hzeros : nth (List.replicate length (0 : UInt8)) i = 0 := by
    unfold nth
    rw [List.getD_eq_getElem?_getD, List.getElem?_replicate]
    split_ifs <;> rfl
  rw [marked, nth_set (by rwa [List.length_replicate]), hzeros]

/-- A block with the stride of another one and bytes of its own. -/
def Data.holding (data : Data) (bytes : Bytes) : Data :=
  { data with offset := 0, size := 0, data := some bytes }

/-- The plane of a block has other bytes when the block is given other bytes. -/
theorem ownedPlane_holding {data : Data} {fallbackStride : ℕ} {plane : OwnedPlane}
    (h : ownedPlane data fallbackStride = some plane) {bytes : Bytes} (hbytes : bytes ≠ []) :
    ownedPlane (data.holding bytes) fallbackStride = some ⟨bytes, plane.stride⟩ := by
  have hstride : positiveStride data.stride fallbackStride = plane.stride := by
    unfold ownedPlane at h
    split at h
    next => exact absurd h.symm (Option.some_ne_none plane)
    next raw hraw =>
      simp only at h
      split_ifs at h
      all_goals exact congrArg OwnedPlane.stride (Option.some.inj h)
  simp [ownedPlane, Data.holding, hstride, hbytes]

/-- The bytes of an owned plane are not empty. -/
theorem bytes_ne_nil_of_ownedPlane {data : Data} {fallbackStride : ℕ} {plane : OwnedPlane}
    (h : ownedPlane data fallbackStride = some plane) : plane.bytes ≠ [] := by
  unfold ownedPlane at h
  split at h
  next => exact absurd h.symm (Option.some_ne_none plane)
  next raw hraw =>
    simp only at h
    split_ifs at h with hwindow hempty hempty
    all_goals
      obtain rfl := Option.some.inj h
      exact hempty

/-! ## NV12 in two blocks -/

/-- Two blocks of an NV12 frame and the planes they hold, each with all its rows. -/
structure Nv12Blocks (size : UInt32 × UInt32) (first second : Data) (y uv : OwnedPlane) :
    Prop where
  width : ¬ even size.1 < 2
  height : ¬ even size.2 < 2
  luma : ownedPlane first (even size.1).toNat = some y
  chroma : ownedPlane second (even size.1).toNat = some uv
  yStride : (even size.1).toNat ≤ y.stride
  uvStride : (even size.1).toNat ≤ uv.stride
  yRows : y.stride * (even size.2).toNat ≤ y.bytes.length
  uvRows : uv.stride * ((even size.2).toNat / 2) ≤ uv.bytes.length

/-- As many bytes in rows of the same stride. -/
structure OwnedPlane.SameLayout (plane other : OwnedPlane) : Prop where
  stride : plane.stride = other.stride
  length : plane.bytes.length = other.bytes.length

/-- What is left of a luma block behind its rows. -/
def OwnedPlane.padding (y : OwnedPlane) (height : UInt32) : Bytes :=
  y.bytes.drop (y.stride * height.toNat)

/-- The chroma rows are the same bytes when the padding is put in front of them. -/
def PaddingUnseen (padding : Bytes) (uv : OwnedPlane) (width height : UInt32) : Prop :=
  ∀ r < height.toNat / 2, ∀ c < width.toNat,
    nth (padding ++ uv.bytes) (r * uv.stride + c) = nth uv.bytes (r * uv.stride + c)

/-- Padding of no length is not seen. -/
theorem OwnedPlane.paddingUnseen_of_length {y uv : OwnedPlane} {width height : UInt32}
    (h : y.bytes.length = y.stride * height.toNat) :
    PaddingUnseen (y.padding height) uv width height := by
  intro r _ c _
  rw [OwnedPlane.padding, List.drop_of_length_le (Nat.le_of_eq h), List.nil_append]

/-- Padding of any length is seen with some bytes. -/
theorem not_paddingUnseen_marked {length uvLength stride : ℕ} (hpadding : 0 < length)
    (huv : 0 < uvLength) {width height : UInt32} (hwidth : 0 < width.toNat)
    (hheight : 0 < height.toNat / 2) :
    ¬ PaddingUnseen (List.replicate length 0) ⟨marked uvLength 0, stride⟩ width height := by
  intro hunseen
  have hfirst := hunseen 0 hheight 0 hwidth
  rw [Nat.zero_mul, Nat.add_zero, nth_append_left _ (by rwa [List.length_replicate]),
    nth_marked huv, if_pos rfl, nth_eq_getElem (by rwa [List.length_replicate]),
    List.getElem_replicate] at hfirst
  exact absurd hfirst (by decide)

section Nv12

variable {size : UInt32 × UInt32} {first second : Data} {y uv : OwnedPlane}

/-- The two blocks as one agree with the two blocks where the padding is not seen. -/
theorem Nv12Blocks.agrees_iff (h : Nv12Blocks size first second y uv) :
    (Picture.nv12 (y.bytes ++ uv.bytes)
        ((y.bytes ++ uv.bytes).drop (y.stride * (even size.2).toNat)) y.stride uv.stride).Agrees
      (.nv12 y.bytes uv.bytes y.stride uv.stride) (even size.1) (even size.2) ↔
      PaddingUnseen (y.padding (even size.2)) uv (even size.1) (even size.2) := by
  have heven := toNat_even_mod size.1
  rw [List.drop_append_of_le_length h.yRows]
  constructor
  · intro hagrees r hr c hc
    rcases Nat.mod_two_eq_zero_or_one c with hparity | hparity
    · have hu := hagrees.u r hr (c / 2) (by omega)
      simp only [Picture.nv12] at hu
      rwa [show 2 * (c / 2) = c by omega] at hu
    · have hv := hagrees.v r hr (c / 2) (by omega)
      simp only [Picture.nv12] at hv
      rwa [Nat.add_assoc, show 2 * (c / 2) + 1 = c by omega] at hv
  · intro hunseen
    exact {
      y := fun r hr c hc => nth_append_left _
        (Nat.lt_of_lt_of_le (cell_lt hr (Nat.lt_of_lt_of_le hc h.yStride)) h.yRows)
      u := fun r hr c hc => hunseen r hr (2 * c) (by omega)
      v := fun r hr c hc => hunseen r hr (2 * c + 1) (by omega) }

/-- A frame in two NV12 blocks is always built, and it shows the planes of its blocks just
when what stands behind the luma rows is not seen. -/
theorem Nv12Blocks.shows_iff_paddingUnseen (h : Nv12Blocks size first second y uv)
    (rest : List Data) (displayId : UInt32) :
    ∃ frame, frameFromBuffer displayId .nv12 size (first :: second :: rest) = .ok (some frame) ∧
      ((Picture.nv12 y.bytes uv.bytes y.stride uv.stride).Shows (even size.1) (even size.2)
          frame.i420 ↔ PaddingUnseen (y.padding (even size.2)) uv (even size.1) (even size.2)) := by
  have hconverts := nv12ToI420_converts (y.bytes ++ uv.bytes) y.stride uv.stride (even size.1)
    (even size.2)
  rw [even_even, even_even] at hconverts
  have hready : y.stride * (even size.2).toNat + uv.stride * ((even size.2).toNat / 2) ≤
      (y.bytes ++ uv.bytes).length := by
    rw [List.length_append]
    exact Nat.add_le_add h.yRows h.uvRows
  obtain ⟨out, hout, hshows⟩ := hconverts.exists_frame
    ⟨ne_zero_of_not_lt_two h.width, ne_zero_of_not_lt_two h.height, h.yStride, h.uvStride, hready⟩
  have hblocks : blocksToI420 .nv12 (even size.1) (even size.2) (first :: second :: rest) =
      .ok (some out) := by
    simp only [blocksToI420, h.luma, h.chroma, hout]
  refine ⟨_, frameFromBuffer_eq h.width h.height hblocks displayId, ?_⟩
  rw [hshows.iff_agrees, h.agrees_iff]

/-- Every frame in two NV12 blocks of the layout of two planes is built and shows the planes
of its own blocks. -/
def Nv12LayoutShows (size : UInt32 × UInt32) (y uv : OwnedPlane) (rest : List Data)
    (displayId : UInt32) : Prop :=
  ∀ first second y' uv', Nv12Blocks size first second y' uv' →
    y'.SameLayout y → uv'.SameLayout uv →
      ∃ frame, frameFromBuffer displayId .nv12 size (first :: second :: rest) =
          .ok (some frame) ∧
        (Picture.nv12 y'.bytes uv'.bytes y'.stride uv'.stride).Shows (even size.1)
          (even size.2) frame.i420

/-- Blocks whose padding is seen with the layout of any blocks that have padding. -/
theorem Nv12Blocks.exists_seen (h : Nv12Blocks size first second y uv)
    (hpadding : y.stride * (even size.2).toNat < y.bytes.length) :
    ∃ first' second' y' uv', Nv12Blocks size first' second' y' uv' ∧ y'.SameLayout y ∧
      uv'.SameLayout uv ∧
        ¬ PaddingUnseen (y'.padding (even size.2)) uv' (even size.1) (even size.2) := by
  have hwidth : 0 < (even size.1).toNat := by
    have hnot := h.width
    rw [UInt32.lt_iff_toNat_lt] at hnot
    exact Nat.lt_of_lt_of_le (by decide) (Nat.not_lt.mp hnot)
  have hheight : 0 < (even size.2).toNat / 2 := by
    have hnot := h.height
    rw [UInt32.lt_iff_toNat_lt] at hnot
    exact Nat.div_pos (Nat.not_lt.mp hnot) (by decide)
  have huv := List.length_pos_iff.mpr (bytes_ne_nil_of_ownedPlane h.chroma)
  have hys : List.replicate y.bytes.length (0 : UInt8) ≠ [] :=
    List.length_pos_iff.mp (by rw [List.length_replicate]; omega)
  have huvs : marked uv.bytes.length 0 ≠ [] :=
    List.length_pos_iff.mp (by rwa [length_marked])
  refine ⟨first.holding (List.replicate y.bytes.length 0),
    second.holding (marked uv.bytes.length 0), ⟨List.replicate y.bytes.length 0, y.stride⟩,
    ⟨marked uv.bytes.length 0, uv.stride⟩, ?_, ⟨rfl, List.length_replicate⟩,
    ⟨rfl, length_marked _ _⟩, ?_⟩
  · exact {
      width := h.width
      height := h.height
      luma := ownedPlane_holding h.luma hys
      chroma := ownedPlane_holding h.chroma huvs
      yStride := h.yStride
      uvStride := h.uvStride
      yRows := h.yRows.trans_eq List.length_replicate.symm
      uvRows := h.uvRows.trans_eq (length_marked _ _).symm }
  · rw [OwnedPlane.padding, List.drop_replicate]
    exact not_paddingUnseen_marked (Nat.sub_pos_of_lt hpadding) huv hwidth hheight

/-- A frame in two NV12 blocks is always built. The frames of a layout show the planes of
their blocks, whatever these hold, just when the luma block ends with its rows. -/
theorem Nv12Blocks.shows_iff (h : Nv12Blocks size first second y uv) (rest : List Data)
    (displayId : UInt32) :
    (∃ frame, frameFromBuffer displayId .nv12 size (first :: second :: rest) =
      .ok (some frame)) ∧
      (Nv12LayoutShows size y uv rest displayId ↔
        y.bytes.length = y.stride * (even size.2).toNat) := by
  obtain ⟨built, hbuilt, -⟩ := h.shows_iff_paddingUnseen rest displayId
  refine ⟨⟨built, hbuilt⟩, ?_, ?_⟩
  · intro hlayout
    by_contra hne
    obtain ⟨first', second', y', uv', h', hy, huv, hseen⟩ :=
      h.exists_seen (Nat.lt_of_le_of_ne h.yRows (Ne.symm hne))
    obtain ⟨frame, hframe, hshows⟩ := hlayout first' second' y' uv' h' hy huv
    obtain ⟨frame', hframe', hiff⟩ := h'.shows_iff_paddingUnseen rest displayId
    obtain rfl : frame = frame' := Option.some.inj (Except.ok.inj (hframe.symm.trans hframe'))
    exact hseen (hiff.mp hshows)
  · intro hlength first' second' y' uv' h' hy _
    obtain ⟨frame, hframe, hiff⟩ := h'.shows_iff_paddingUnseen rest displayId
    refine ⟨frame, hframe, hiff.mpr (OwnedPlane.paddingUnseen_of_length ?_)⟩
    rw [hy.length, hy.stride, hlength]

/-- A luma block that ends with its two rows, in front of a chroma block with padding. -/
theorem Nv12Blocks.shows_iff_twoRows :
    (∃ frame, frameFromBuffer 0 .nv12 (2, 2)
        [⟨2, 0, 4, some [16, 17, 18, 19]⟩, ⟨2, 0, 4, some [200, 100, 0, 0]⟩] =
          .ok (some frame)) ∧
      (Nv12LayoutShows (2, 2) ⟨[16, 17, 18, 19], 2⟩ ⟨[200, 100, 0, 0], 2⟩ [] 0 ↔
        ([16, 17, 18, 19] : Bytes).length = 2 * (even 2).toNat) :=
  @Nv12Blocks.shows_iff (2, 2) _ _ ⟨[16, 17, 18, 19], 2⟩ ⟨[200, 100, 0, 0], 2⟩
    ⟨by decide, by decide, by decide, by decide, by decide, by decide, by decide, by decide⟩ [] 0

/-- The third row of an odd height is taken for the chroma. -/
theorem Nv12Blocks.oddRow_misread :
    Nv12Blocks (2, 3) ⟨2, 0, 6, some [16, 17, 18, 19, 20, 21]⟩ ⟨2, 0, 2, some [200, 100]⟩
        ⟨[16, 17, 18, 19, 20, 21], 2⟩ ⟨[200, 100], 2⟩ ∧
      ∃ frame, frameFromBuffer 0 .nv12 (2, 3)
          [⟨2, 0, 6, some [16, 17, 18, 19, 20, 21]⟩, ⟨2, 0, 2, some [200, 100]⟩] =
            .ok (some frame) ∧
        ¬ (Picture.nv12 [16, 17, 18, 19, 20, 21] [200, 100] 2 2).Shows (even 2) (even 3)
          frame.i420 := by
  refine ⟨⟨by decide, by decide, by decide, by decide, by decide, by decide, by decide,
    by decide⟩, ⟨0, 2, 2, [16, 17, 18, 19, 20, 21]⟩, rfl, ?_⟩
  intro hshows
  have hu := hshows.u 0 (by decide) 0 (by decide)
  exact absurd hu (by decide)

end Nv12

/-! ## I420 in one block and in three -/

/-- An I420 image: all rows of the luma, then those of the two chroma planes. A chroma
plane has a row for every two rows of the luma, and may have another for the odd one. -/
structure I420Image (size : UInt32 × UInt32) (stride chromaRows : ℕ) (ys us vs : Bytes) :
    Prop where
  width : 2 ≤ size.1.toNat
  height : 2 ≤ size.2.toNat
  parity : stride % 2 = 0
  covers : size.1.toNat ≤ stride
  rows : size.2.toNat / 2 ≤ chromaRows
  luma : ys.length = stride * size.2.toNat
  first : us.length = stride / 2 * chromaRows
  second : vs.length = stride / 2 * chromaRows

/-- One block with the whole of an image, and three with its planes. -/
structure I420Blocks (size : UInt32 × UInt32) (stride chromaRows : ℕ) (ys us vs : Bytes)
    (block first second third : Data) : Prop where
  image : I420Image size stride chromaRows ys us vs
  whole : ownedPlane block (even size.1).toNat = some ⟨ys ++ us ++ vs, stride⟩
  yPlane : ownedPlane first (even size.1).toNat = some ⟨ys, stride⟩
  uPlane : ownedPlane second ((even size.1).toNat / 2) = some ⟨us, stride / 2⟩
  vPlane : ownedPlane third ((even size.1).toNat / 2) = some ⟨vs, stride / 2⟩

/-- The picture of three planes with the strides of an image. -/
def Picture.planar (ys us vs : Bytes) (stride : ℕ) : Picture where
  y r c := nth ys (r * stride + c)
  u r c := nth us (r * (stride / 2) + c)
  v r c := nth vs (r * (stride / 2) + c)

/-- The picture of a block that is read without gaps. -/
def Picture.gapless (block : Bytes) (width height : UInt32) : Picture where
  y r c := nth block (r * width.toNat + c)
  u r c := nth block (width.toNat * height.toNat + (r * (width.toNat / 2) + c))
  v r c := nth block (width.toNat * height.toNat + width.toNat / 2 * (height.toNat / 2) +
    (r * (width.toNat / 2) + c))

/-- The image has the layout of a frame: no gaps in the rows and no rows to leave out. -/
structure Gapless (size : UInt32 × UInt32) (stride chromaRows : ℕ) : Prop where
  width : stride = (even size.1).toNat
  height : size.2.toNat = (even size.2).toNat
  rows : chromaRows = size.2.toNat / 2

section I420

/-- A plane with all its rows is copied row after row. -/
theorem copyPlane_eq (out : Bytes) {src : Bytes} {stride width height : ℕ}
    (hwidth : width ≤ stride) (hsrc : stride * height ≤ src.length) :
    ∃ plane, copyPlane out src stride width height = out ++ plane ∧
      Filled width height (fun _ _ => True) (fun r c => nth src (r * stride + c)) plane := by
  induction height with
  | zero => exact ⟨[], (List.append_nil out).symm, rfl, fun r hr => absurd hr (Nat.not_lt_zero r)⟩
  | succ row ih =>
      rw [Nat.mul_succ] at hsrc
      obtain ⟨plane, hcopy, hplane⟩ := ih (by omega)
      have hstop : row * stride + width ≤ src.length := by
        rw [Nat.mul_comm row stride]
        omega
      refine ⟨plane ++ (src.drop (row * stride)).take width, ?_, hplane.appendRow ?_ ?_⟩
      · rw [copyPlane, hcopy, if_pos hstop, List.append_assoc]
      · exact length_slice hstop
      · intro c hc
        rw [nth_take hc, nth_drop]

/-- Cutting a block at the size of a frame shows the block without gaps. -/
theorem copyI420_converts (src : Bytes) (width height : UInt32) :
    Converts (copyI420 src width height)
      (even width ≠ 0 ∧ even height ≠ 0 ∧ i420Size (even width) (even height) ≤ src.length)
      (.gapless src (even width) (even height)) (even width) (even height) := by
  unfold copyI420
  simp only
  split_ifs with hnot
  · exact .none fun ⟨hwidth, hheight, hle⟩ =>
      hnot.elim (Nat.not_lt.mpr hle) (Or.rec hwidth hheight)
  · rw [not_or, not_or, Nat.not_lt] at hnot
    obtain ⟨hle, hwidth, hheight⟩ := hnot
    have hsize : i420Size (even width) (even height) = (even width).toNat * (even height).toNat +
        2 * ((even width).toNat / 2 * ((even height).toNat / 2)) := rfl
    rw [slice, if_pos ⟨Nat.zero_le _, hle⟩, Nat.sub_zero, List.drop_zero]
    refine .ok ⟨iff_of_true rfl ⟨hwidth, hheight, hle⟩, fun out hout => ?_⟩
    obtain rfl := Option.some.inj hout
    exact {
      length := List.length_take_of_le hle
      y := fun r hr c hc => nth_take (by have := cell_lt hr hc; omega)
      u := fun r hr c hc => nth_take (by have := cell_lt hr hc; omega)
      v := fun r hr c hc => nth_take (by have := cell_lt hr hc; omega) }

variable {size : UInt32 × UInt32} {stride chromaRows : ℕ} {ys us vs : Bytes}
  {block first second third : Data}

/-- Three blocks with all rows of an image give a frame with its planes. -/
theorem I420Image.planarI420_shows (h : I420Image size stride chromaRows ys us vs)
    (hfirst : ownedPlane first (even size.1).toNat = some ⟨ys, stride⟩)
    (hsecond : ownedPlane second ((even size.1).toNat / 2) = some ⟨us, stride / 2⟩)
    (hthird : ownedPlane third ((even size.1).toNat / 2) = some ⟨vs, stride / 2⟩) :
    ∃ out, planarI420 (even size.1) (even size.2) first second third = some out ∧
      (Picture.planar ys us vs stride).Shows (even size.1) (even size.2) out := by
  have hwidth := toNat_even size.1
  have hheight := toNat_even size.2
  have hcovers := h.covers
  have hrows := h.rows
  have hys : stride * (even size.2).toNat ≤ ys.length := by
    rw [h.luma]
    exact Nat.mul_le_mul_left stride (by omega)
  have hus : stride / 2 * ((even size.2).toNat / 2) ≤ us.length := by
    rw [h.first]
    exact Nat.mul_le_mul_left (stride / 2) (by omega)
  have hvs : stride / 2 * ((even size.2).toNat / 2) ≤ vs.length := by
    rw [h.second]
    exact Nat.mul_le_mul_left (stride / 2) (by omega)
  obtain ⟨yPlane, hy, hyFilled⟩ := copyPlane_eq [] (by omega : (even size.1).toNat ≤ stride) hys
  obtain ⟨uPlane, hu, huFilled⟩ := copyPlane_eq yPlane
    (by omega : (even size.1).toNat / 2 ≤ stride / 2) hus
  obtain ⟨vPlane, hv, hvFilled⟩ := copyPlane_eq (yPlane ++ uPlane)
    (by omega : (even size.1).toNat / 2 ≤ stride / 2) hvs
  have hdrawn : Planes.Drawn (even size.1) (even size.2) (.planar ys us vs stride)
      (fun _ _ => True) (fun _ _ => True) ⟨yPlane, uPlane, vPlane⟩ :=
    ⟨hyFilled, huFilled, hvFilled⟩
  have hshows := hdrawn.shows (fun _ _ _ _ => trivial) fun _ _ _ _ => trivial
  refine ⟨_, ?_, hshows⟩
  simp only [planarI420, hfirst, hsecond, hthird, hy, hu, hv, List.nil_append]
  exact if_pos hshows.length

/-- A block of all rows is long enough for a frame without gaps. -/
theorem I420Image.i420Size_le (h : I420Image size stride chromaRows ys us vs) :
    i420Size (even size.1) (even size.2) ≤ (ys ++ us ++ vs).length := by
  have hwidth := toNat_even size.1
  have hheight := toNat_even size.2
  have hcovers := h.covers
  have hrows := h.rows
  have hluma : (even size.1).toNat * (even size.2).toNat ≤ stride * size.2.toNat :=
    Nat.mul_le_mul (by omega) (by omega)
  have hchroma : (even size.1).toNat / 2 * ((even size.2).toNat / 2) ≤ stride / 2 * chromaRows :=
    Nat.mul_le_mul (by omega) (by omega)
  rw [List.length_append, List.length_append, h.luma, h.first, h.second, i420Size]
  omega

/-- An image without gaps is read alike both ways. -/
theorem I420Image.agrees_of_gapless (h : I420Image size stride chromaRows ys us vs)
    (hgapless : Gapless size stride chromaRows) :
    (Picture.gapless (ys ++ us ++ vs) (even size.1) (even size.2)).Agrees
      (.planar ys us vs stride) (even size.1) (even size.2) := by
  obtain ⟨rfl, hheight, rfl⟩ := hgapless
  have hys : ys.length = (even size.1).toNat * (even size.2).toNat := by rw [h.luma, hheight]
  have hus : us.length = (even size.1).toNat / 2 * ((even size.2).toNat / 2) := by
    rw [h.first, hheight]
  have hyus : (ys ++ us).length = (even size.1).toNat * (even size.2).toNat +
      (even size.1).toNat / 2 * ((even size.2).toNat / 2) := by
    rw [List.length_append, hys, hus]
  constructor
  · intro r hr c hc
    have hlt := cell_lt hr hc
    rw [Picture.gapless, List.append_assoc]
    exact nth_append_left _ (hys ▸ hlt)
  · intro r hr c hc
    have hlt := cell_lt hr hc
    simp only [Picture.gapless, Picture.planar]
    rw [← hys, List.append_assoc, nth_append_right, nth_append_left _ (hus ▸ hlt)]
  · intro r hr c hc
    simp only [Picture.gapless, Picture.planar]
    rw [← hyus, nth_append_right]

/-- A layout with gaps or with rows to leave out has images that are not read alike. -/
theorem Gapless.of_agrees (hwidth : 2 ≤ size.1.toNat) (hheight : 2 ≤ size.2.toNat)
    (hparity : stride % 2 = 0) (hcovers : size.1.toNat ≤ stride)
    (hrows : size.2.toNat / 2 ≤ chromaRows)
    (hagrees : ∀ ys us vs, I420Image size stride chromaRows ys us vs →
      (Picture.gapless (ys ++ us ++ vs) (even size.1) (even size.2)).Agrees
        (.planar ys us vs stride) (even size.1) (even size.2)) :
    Gapless size stride chromaRows := by
  have hevenWidth := toNat_even size.1
  have hevenHeight := toNat_even size.2
  have hchroma : 0 < stride / 2 * chromaRows := Nat.mul_pos (by omega) (by omega)
  have hrow : stride * 2 ≤ stride * size.2.toNat := Nat.mul_le_mul_left stride hheight
  -- a mark in each plane: at the second luma row and at the start of each chroma plane
  have hall := hagrees (marked (stride * size.2.toNat) stride)
    (marked (stride / 2 * chromaRows) 0) (marked (stride / 2 * chromaRows) 0)
    ⟨hwidth, hheight, hparity, hcovers, hrows, length_marked _ _, length_marked _ _,
      length_marked _ _⟩
  have hstride : stride = (even size.1).toNat := by
    have hy := hall.y 1 (by omega) 0 (by omega)
    simp only [Picture.gapless, Picture.planar, Nat.one_mul, Nat.add_zero] at hy
    rw [List.append_assoc, nth_append_left _ (by rw [length_marked]; omega),
      nth_marked (by omega), nth_marked (by omega), if_pos rfl] at hy
    by_contra hne
    exact absurd hy (by rw [if_neg hne]; decide)
  have hlines : size.2.toNat = (even size.2).toNat := by
    by_contra hne
    have hlt : stride * (even size.2).toNat < stride * size.2.toNat :=
      Nat.mul_lt_mul_of_pos_left (by omega) (by omega)
    have hle : stride * 2 ≤ stride * (even size.2).toNat := Nat.mul_le_mul_left stride (by omega)
    have hu := hall.u 0 (by omega) 0 (by omega)
    simp only [Picture.gapless, Picture.planar, Nat.zero_mul, Nat.add_zero] at hu
    rw [← hstride, List.append_assoc, nth_append_left _ (by rwa [length_marked]),
      nth_marked (by omega), nth_marked hchroma, if_pos rfl, if_neg (by omega)] at hu
    exact absurd hu (by decide)
  refine ⟨hstride, hlines, ?_⟩
  by_contra hne
  have hlt : stride / 2 * ((even size.2).toNat / 2) < stride / 2 * chromaRows :=
    Nat.mul_lt_mul_of_pos_left (by omega) (by omega)
  have hpos : 0 < stride / 2 * ((even size.2).toNat / 2) := Nat.mul_pos (by omega) (by omega)
  -- the second chroma plane is looked for inside of the first
  have hinside : nth (marked (stride * size.2.toNat) stride ++
      (marked (stride / 2 * chromaRows) 0 ++ marked (stride / 2 * chromaRows) 0))
      (stride * size.2.toNat + stride / 2 * ((even size.2).toNat / 2)) = 0 := by
    have hshift := nth_append_right (marked (stride * size.2.toNat) stride)
      (marked (stride / 2 * chromaRows) 0 ++ marked (stride / 2 * chromaRows) 0)
      (stride / 2 * ((even size.2).toNat / 2))
    rw [length_marked] at hshift
    rw [hshift, nth_append_left _ (by rwa [length_marked]), nth_marked hchroma,
      if_neg (by omega)]
  have hv := hall.v 0 (by omega) 0 (by omega)
  simp only [Picture.gapless, Picture.planar, Nat.zero_mul, Nat.add_zero] at hv
  rw [← hstride, ← hlines, List.append_assoc] at hv
  rw [← hlines] at hinside
  rw [hinside, nth_marked hchroma, if_pos rfl] at hv
  exact absurd hv (by decide)

/-- Both ways give a frame, and it is the same when both read the image alike. -/
theorem I420Blocks.frames_eq_iff_agrees
    (h : I420Blocks size stride chromaRows ys us vs block first second third)
    (rest : List Data) (displayId : UInt32) :
    ∃ whole planar, frameFromBuffer displayId .i420 size [block] = .ok (some whole) ∧
      frameFromBuffer displayId .i420 size (first :: second :: third :: rest) =
        .ok (some planar) ∧
      (whole = planar ↔ (Picture.gapless (ys ++ us ++ vs) (even size.1) (even size.2)).Agrees
        (.planar ys us vs stride) (even size.1) (even size.2)) := by
  have hwidth := even_not_lt_two h.image.width
  have hheight := even_not_lt_two h.image.height
  have hcopy := copyI420_converts (ys ++ us ++ vs) (even size.1) (even size.2)
  rw [even_even, even_even] at hcopy
  obtain ⟨whole, hwhole, hshowsWhole⟩ := hcopy.exists_frame
    ⟨ne_zero_of_not_lt_two hwidth, ne_zero_of_not_lt_two hheight, h.image.i420Size_le⟩
  obtain ⟨planar, hplanar, hshowsPlanar⟩ := h.image.planarI420_shows h.yPlane h.uPlane h.vPlane
  have hone : blocksToI420 .i420 (even size.1) (even size.2) [block] = .ok (some whole) := by
    simp only [blocksToI420, defaultStride, h.whole, convertPacked, hwhole]
  have hthree : blocksToI420 .i420 (even size.1) (even size.2)
      (first :: second :: third :: rest) = .ok (some planar) := by
    simp only [blocksToI420, hplanar]
  refine ⟨_, _, frameFromBuffer_eq hwidth hheight hone displayId,
    frameFromBuffer_eq hwidth hheight hthree displayId, ?_⟩
  rw [RawFrame.mk.injEq]
  simp only [true_and]
  exact hshowsWhole.eq_iff_agrees hshowsPlanar

/-- The blocks of an image may hold any other image of the layout. -/
theorem I420Blocks.holding (h : I420Blocks size stride chromaRows ys us vs block first second third)
    {ys' us' vs' : Bytes} (himage : I420Image size stride chromaRows ys' us' vs') :
    I420Blocks size stride chromaRows ys' us' vs' (block.holding (ys' ++ us' ++ vs'))
      (first.holding ys') (second.holding us') (third.holding vs') := by
  have hsame : ∀ {plane plane' : Bytes} {n : ℕ}, plane.length = n → plane'.length = n →
      plane ≠ [] → plane' ≠ [] := by
    intro plane plane' n hlength hlength' hne
    rw [← List.length_pos_iff] at hne ⊢
    omega
  have hys := hsame h.image.luma himage.luma (bytes_ne_nil_of_ownedPlane h.yPlane)
  have hus := hsame h.image.first himage.first (bytes_ne_nil_of_ownedPlane h.uPlane)
  have hvs := hsame h.image.second himage.second (bytes_ne_nil_of_ownedPlane h.vPlane)
  exact {
    image := himage
    whole := ownedPlane_holding h.whole (List.append_ne_nil_of_right_ne_nil _ hvs)
    yPlane := ownedPlane_holding h.yPlane hys
    uPlane := ownedPlane_holding h.uPlane hus
    vPlane := ownedPlane_holding h.vPlane hvs }

/-- Every image of a layout gives a frame in one block and in three, and the same. -/
def I420LayoutAgrees (size : UInt32 × UInt32) (stride chromaRows : ℕ) (rest : List Data)
    (displayId : UInt32) : Prop :=
  ∀ ys us vs block first second third,
    I420Blocks size stride chromaRows ys us vs block first second third →
      ∃ whole planar, frameFromBuffer displayId .i420 size [block] = .ok (some whole) ∧
        frameFromBuffer displayId .i420 size (first :: second :: third :: rest) =
          .ok (some planar) ∧
        whole = planar

/-- Both ways always give a frame. It is the same for all images of a layout just when the
layout has no gaps in its rows and no rows to leave out. -/
theorem I420Blocks.frames_eq_iff
    (h : I420Blocks size stride chromaRows ys us vs block first second third)
    (rest : List Data) (displayId : UInt32) :
    (∃ whole planar, frameFromBuffer displayId .i420 size [block] = .ok (some whole) ∧
      frameFromBuffer displayId .i420 size (first :: second :: third :: rest) =
        .ok (some planar)) ∧
      (I420LayoutAgrees size stride chromaRows rest displayId ↔
        Gapless size stride chromaRows) := by
  obtain ⟨whole, planar, hwhole, hplanar, -⟩ := h.frames_eq_iff_agrees rest displayId
  refine ⟨⟨whole, planar, hwhole, hplanar⟩, ?_, ?_⟩
  · intro hlayout
    refine Gapless.of_agrees h.image.width h.image.height h.image.parity h.image.covers
      h.image.rows ?_
    intro ys' us' vs' himage
    have hblocks := h.holding himage
    obtain ⟨whole, planar, hwhole, hplanar, heq⟩ := hlayout _ _ _ _ _ _ _ hblocks
    obtain ⟨whole', planar', hwhole', hplanar', hiff⟩ :=
      hblocks.frames_eq_iff_agrees rest displayId
    obtain rfl : whole = whole' := Option.some.inj (Except.ok.inj (hwhole.symm.trans hwhole'))
    obtain rfl : planar = planar' :=
      Option.some.inj (Except.ok.inj (hplanar.symm.trans hplanar'))
    exact hiff.mp heq
  · intro hgapless ys' us' vs' block' first' second' third' hblocks
    obtain ⟨whole, planar, hwhole, hplanar, hiff⟩ := hblocks.frames_eq_iff_agrees rest displayId
    exact ⟨whole, planar, hwhole, hplanar, hiff.mpr (hblocks.image.agrees_of_gapless hgapless)⟩

/-- Two by two samples without gaps. -/
theorem I420Blocks.frames_eq_iff_twoByTwo :
    (∃ whole planar, frameFromBuffer 0 .i420 (2, 2) [⟨2, 0, 6, some [1, 2, 3, 4, 5, 6]⟩] =
        .ok (some whole) ∧
      frameFromBuffer 0 .i420 (2, 2)
          [⟨2, 0, 4, some [1, 2, 3, 4]⟩, ⟨1, 0, 1, some [5]⟩, ⟨1, 0, 1, some [6]⟩] =
        .ok (some planar)) ∧
      (I420LayoutAgrees (2, 2) 2 1 [] 0 ↔ Gapless (2, 2) 2 1) :=
  @I420Blocks.frames_eq_iff (2, 2) 2 1 [1, 2, 3, 4] [5] [6]
    ⟨2, 0, 6, some [1, 2, 3, 4, 5, 6]⟩ _ _ _
    ⟨⟨by decide, by decide, by decide, by decide, by decide, by decide, by decide, by decide⟩,
      by decide, by decide, by decide, by decide⟩ [] 0

/-- Two samples in rows of four: the block is read across the gap. -/
theorem I420Image.gap_shears :
    I420Image (2, 2) 4 1 [1, 2, 0, 0, 3, 4, 0, 0] [5, 0] [6, 0] ∧
      ∃ whole planar,
        frameFromBuffer 0 .i420 (2, 2)
          [⟨4, 0, 12, some [1, 2, 0, 0, 3, 4, 0, 0, 5, 0, 6, 0]⟩] = .ok (some whole) ∧
        frameFromBuffer 0 .i420 (2, 2)
          [⟨4, 0, 8, some [1, 2, 0, 0, 3, 4, 0, 0]⟩, ⟨2, 0, 2, some [5, 0]⟩,
            ⟨2, 0, 2, some [6, 0]⟩] = .ok (some planar) ∧
        whole ≠ planar := by
  refine ⟨⟨by decide, by decide, by decide, by decide, by decide, by decide, by decide,
    by decide⟩, ⟨0, 2, 2, [1, 2, 0, 0, 3, 4]⟩, ⟨0, 2, 2, [1, 2, 3, 4, 5, 6]⟩, rfl, rfl, ?_⟩
  simp

end I420

end OmarchyConnect.Host
