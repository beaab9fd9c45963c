/-
# What the test pattern shows

The text and the pointer are stamped on the bar and the ramp. No index of the loops is out of
range, whatever the size, the text and the pointer are. Two numbers of a frame differ in a
digit, and a pixel of a digit is three by three: the arms of two pointers do not hide it.
-/

import OmarchyConnect.Host.SyntheticDesktop
import OmarchyConnect.Host.YuvPictures

namespace OmarchyConnect.Host

open OmarchyConnect.Library.Wire OmarchyConnect.Library.Loops OmarchyConnect.Library.Drawing
open OmarchyConnect.Protocol

/-! ## The cells -/

/-- The cells of a glyph. -/
def glyphCells (pen originY : ℕ) (glyph : Vector UInt8 7) : Set (ℕ × ℕ) :=
  {cell | ∃ row < 7, ∃ col < 5, lit (nth glyph.toList row) col ∧ ∃ sy < 3, ∃ sx < 3,
    cell = (originY + row * 3 + sy, pen + col * 3 + sx)}

/-- The cells that a text lights, glyph by glyph. -/
def textCells (pen originY : ℕ) (text : List Char) : Set (ℕ × ℕ) :=
  {cell | ∃ i, ∃ ch ∈ text[i]?, cell ∈ glyphCells (pen + i * 18) originY (glyph ch)}

/-- The two arms of the cross. -/
def crossCells (cx cy : ℕ) : Set (ℕ × ℕ) :=
  {cell | (cell.1 = cy ∧ cell.2 ≤ cx + 14 ∧ cx ≤ cell.2 + 14) ∨
    (cell.2 = cx ∧ cell.1 ≤ cy + 14 ∧ cy ≤ cell.1 + 14)}

/-- The cells of the pointer. -/
def pointerCells : Option (UInt32 × UInt32) → Set (ℕ × ℕ)
  | some (cx, cy) => crossCells cx.toNat cy.toNat
  | none => ∅

/-- The test pattern, from the chroma of its display to the pointer on top. -/
noncomputable def testPicture (index : ℕ) (frame : UInt64) (width : UInt32) (label : String)
    (cursor : Option (UInt32 × UInt32)) : Picture where
  y := overlay 16 (pointerCells cursor) (overlay 240 (textCells 24 24 (frameText label frame))
    fun _ col => luma width.toNat (barPlace frame width.toNat) col)
  u _ _ := (chroma index).1
  v _ _ := (chroma index).2

/-! ## The loops -/

/-- A dot is one cell. -/
theorem stamps_drawDot (w h x yy : ℕ) : Stamps w h 240 {(yy, x)} (drawDot w x yy) := by
  by_cases hinside : yy < h ∧ x < w
  · obtain ⟨hyy, hx⟩ := hinside
    intro picture plane hplane
    have hcell : x < w ∧ yy * w + x < plane.length :=
      ⟨hx, hplane.length ▸ cell_lt hyy hx⟩
    rw [drawDot, if_pos hcell]
    exact Stamps.write hyy hx picture plane hplane
  · refine Stamps.keep (fun row hrow col hcol hcell => ?_) fun plane hlength => ?_
    · obtain ⟨rfl, rfl⟩ := Prod.mk.inj hcell
      exact hinside ⟨hrow, hcol⟩
    · refine if_neg fun ⟨hx, hlt⟩ => hinside ⟨?_, hx⟩
      rw [hlength, Nat.mul_comm w] at hlt
      exact Nat.lt_of_mul_lt_mul_right (Nat.lt_of_le_of_lt (Nat.le_add_right _ _) hlt)

/-- A glyph lights its cells. -/
theorem stamps_drawGlyph (w h pen originY : ℕ) (glyph : Vector UInt8 7) :
    Stamps w h 240 (glyphCells pen originY glyph) (drawGlyph w pen originY glyph) := by
  have hloops := Stamps.forRange (n := 7) fun row _ => Stamps.forRange (n := 5) fun col _ =>
    Stamps.ite fun _ : lit (nth glyph.toList row) col = true =>
      Stamps.forRange (n := 3) fun sy _ => Stamps.forRange (n := 3) fun sx _ =>
        stamps_drawDot w h (pen + col * 3 + sx) (originY + row * 3 + sy)
  exact hloops.congr fun row _ col _ => by
    simp only [glyphCells, Set.mem_ofPred_eq, Set.mem_singleton_iff]

/-- A text lights the cells of its glyphs. -/
theorem stamps_drawText (w h pen originY : ℕ) (text : List Char) :
    Stamps w h 240 (textCells pen originY text) (drawText w pen originY text) := by
  induction text generalizing pen with
  | nil => exact Stamps.keep (fun _ _ _ _ ⟨_, _, hch, _⟩ => nomatch hch) fun _ _ => rfl
  | cons ch text ih =>
      refine ((stamps_drawGlyph w h pen originY (glyph ch)).andThen (ih (pen + 18))).congr
        fun row _ col _ => ⟨?_, ?_⟩
      · rintro (hfirst | ⟨i, other, hother, hcell⟩)
        · exact ⟨0, ch, rfl, by rwa [Nat.zero_mul, Nat.add_zero]⟩
        · refine ⟨i + 1, other, hother, ?_⟩
          rwa [Nat.succ_mul, Nat.add_comm (i * 18), ← Nat.add_assoc]
      · rintro ⟨i, other, hother, hcell⟩
        cases i with
        | zero =>
            obtain rfl := Option.some.inj hother
            rw [Nat.zero_mul, Nat.add_zero] at hcell
            exact .inl hcell
        | succ i =>
            rw [Nat.succ_mul, Nat.add_comm (i * 18), ← Nat.add_assoc] at hcell
            exact .inr ⟨i, other, hother, hcell⟩

/-- Each loop goes through the cells of its arm that the plane has. -/
theorem stamps_drawCross (w h cx cy : ℕ) :
    Stamps w h 16 (crossCells cx cy) (drawCross w h cx cy) := by
  have hrow := Stamps.forRange (n := 29) fun turn _ => Stamps.ite
    fun hinside : 0 ≤ (cx : ℤ) + (turn - 14) ∧ (cx : ℤ) + (turn - 14) < w ∧ cy < h =>
      @Stamps.write UInt8 w h 16 _ cy ((cx : ℤ) + (turn - 14)).toNat hinside.2.2 (by omega)
  have hcol := Stamps.forRange (n := 29) fun turn _ => Stamps.ite
    fun hinside : 0 ≤ (cy : ℤ) + (turn - 14) ∧ (cy : ℤ) + (turn - 14) < h ∧ cx < w =>
      @Stamps.write UInt8 w h 16 _ ((cy : ℤ) + (turn - 14)).toNat cx (by omega) hinside.2.2
  refine (hrow.andThen hcol).congr fun row hr col hc => ?_
  simp only [crossCells, Set.mem_union, Set.mem_ofPred_eq, Set.mem_singleton_iff, Prod.mk.injEq]
  constructor
  · rintro (⟨turn, hturn, hinside, hcell⟩ | ⟨turn, hturn, hinside, hcell⟩)
    · exact .inl (by omega)
    · exact .inr (by omega)
  · rintro (⟨rfl, harm⟩ | ⟨rfl, harm⟩)
    · exact .inl ⟨col + 14 - cx, by omega, by omega, by omega⟩
    · exact .inr ⟨row + 14 - cy, by omega, by omega, by omega⟩

/-- The pointer darkens its cross. -/
theorem stamps_drawPointer (w h : ℕ) (cursor : Option (UInt32 × UInt32)) :
    Stamps w h 16 (pointerCells cursor) (drawPointer w h cursor) := by
  cases cursor with
  | none => exact Stamps.keep (fun _ _ _ _ hcell => hcell) fun _ _ => rfl
  | some place => exact stamps_drawCross w h place.1.toNat place.2.toNat

/-- The bar and the ramp. -/
theorem base_yields (w h bar : ℕ) :
    Yields (forRange (fun row => forRange (fun col y =>
        write y (row * w + col) (luma w bar col)) w) h (List.replicate (w * h) 0))
      (Filled w h (fun _ _ => True) fun _ col => luma w bar col) := by
  refine (forRange_forRange_yields
    (fun row col => Filled w h (Before row col) fun _ col => luma w bar col) ?_ ?_ ?_).mono
      fun y hy => hy.mono fun r hr c _ _ => .inl hr
  · exact Filled.of_none List.length_replicate not_before_zero
  · intro row hrow col hcol y hy
    exact Filled.write hy hrow hcol fun _ _ => Before.succ
  · intro row y hy
    exact hy.mono fun r _ c hc => Before.of_next hc

/-- The rendering shows the test pattern, whatever its arguments are. -/
theorem renderI420_yields (index : ℕ) (frame : UInt64) (width height : UInt32) (label : String)
    (cursor : Option (UInt32 × UInt32)) :
    Yields (renderI420 index frame width height label cursor)
      ((testPicture index frame width label cursor).Shows width height) := by
  set w := width.toNat with hw
  set h := height.toNat with hh
  refine (base_yields w h (barPlace frame w)).bind fun base hbase => ?_
  refine (stamps_drawText w h 24 24 (frameText label frame) _ base hbase).bind fun y hy => ?_
  refine (stamps_drawPointer w h cursor _ y hy).bind fun y hy => .ok ?_
  exact {
    length := by
      simp only [List.length_append, List.length_replicate, hy.length, i420Size, ← hw, ← hh]
      omega
    y := fun r hr c hc => by
      have hcell : r * w + c < y.length := hy.length ▸ cell_lt hr hc
      rw [List.append_assoc, nth_append_left _ hcell]
      exact hy.cell r hr c hc trivial
    u := fun r hr c hc => by
      have hcell := cell_lt hr hc
      rw [List.append_assoc, ← hw, ← hh, ← hy.length, nth_append_right, nth_append_left]
      · exact nth_replicate hcell _
      · rwa [List.length_replicate]
    v := fun r hr c hc => by
      have hcell := cell_lt hr hc
      have hfront : width.toNat * height.toNat + width.toNat / 2 * (height.toNat / 2) =
          (y ++ List.replicate (w / 2 * (h / 2)) (chroma index).1).length := by
        rw [List.length_append, List.length_replicate, hy.length]
      rw [hfront, nth_append_right]
      exact nth_replicate hcell _ }

/-! ## Digits -/

/-- A pixel of the glyph at a place of the text. -/
def litAt (text : List Char) (i row col : ℕ) : Bool :=
  text[i]?.any fun ch => lit (nth (glyph ch).toList row) col

/-- The pixels of a glyph lie apart from those of the others. -/
theorem mem_textCells_iff (text : List Char) (i : ℕ) {row col sy sx : ℕ} (hrow : row < 7)
    (hcol : col < 5) (hsy : sy < 3) (hsx : sx < 3) :
    (24 + row * 3 + sy, 24 + i * 18 + col * 3 + sx) ∈ textCells 24 24 text ↔
      litAt text i row col := by
  constructor
  · rintro ⟨i', ch, hch, row', hrow', col', hcol', hlit, sy', hsy', sx', hsx', hcell⟩
    obtain ⟨hy, hx⟩ := Prod.mk.inj hcell
    obtain rfl : row = row' := by omega
    obtain rfl : i = i' := by omega
    obtain rfl : col = col' := by omega
    rw [litAt, hch]
    exact hlit
  · intro hlit
    obtain ⟨ch, hch, hbit⟩ := (Option.any_eq_true _ _).mp hlit
    exact ⟨i, ch, hch, row, hrow, col, hcol, hbit, sy, hsy, sx, hsx, rfl⟩

/-- A digit is the digit of a number below ten. -/
theorem exists_digitChar {ch : Char} (h : ch.isDigit) : ∃ digit < 10, ch = Nat.digitChar digit := by
  obtain ⟨hlow, hhigh⟩ : 48 ≤ ch.toNat ∧ ch.toNat ≤ 57 := by
    simpa [Char.isDigit, UInt32.le_iff_toNat_le] using h
  refine ⟨ch.toNat - 48, by omega, ?_⟩
  rw [← Char.ofNat_toNat ch]
  generalize ch.toNat = n at hlow hhigh
  interval_cases n <;> decide

/-- Digits look different, and none is blank. -/
theorem glyph_digits : ∀ digit < 10,
    (∃ row < 7, ∃ col < 5, lit (nth (glyph (Nat.digitChar digit)).toList row) col) ∧
      ∀ other < 10, digit ≠ other → ∃ row < 7, ∃ col < 5,
        lit (nth (glyph (Nat.digitChar digit)).toList row) col ≠
          lit (nth (glyph (Nat.digitChar other)).toList row) col := by
  decide

/-- The text of a frame ends in the digits of its number. -/
theorem frameText_eq (label : String) (frame : UInt64) :
    frameText label frame = (label.toList ++ [' ']) ++ Nat.toDigits 10 frame.toNat := by
  simp [frameText, String.toList_append]

/-- What a text lights behind another one is shifted by its length. -/
theorem litAt_append (front text : List Char) (i row col : ℕ) :
    litAt (front ++ text) (front.length + i) row col = litAt text i row col := by
  rw [litAt, List.getElem?_append_right (Nat.le_add_right _ _), Nat.add_sub_cancel_left, litAt]

/-- Two numbers differ at one of their first twenty digits. -/
theorem exists_digit_ne {frame other : UInt64} (hne : frame ≠ other) :
    ∃ i < 20, (Nat.toDigits 10 frame.toNat)[i]? ≠ (Nat.toDigits 10 other.toNat)[i]? := by
  have hlength : ∀ number : UInt64, (Nat.toDigits 10 number.toNat).length ≤ 20 := fun number =>
    (Nat.length_toDigits_le_iff (by decide) (by decide)).mpr
      (Nat.lt_trans number.toNat_lt (by decide))
  have hdigits : Nat.toDigits 10 frame.toNat ≠ Nat.toDigits 10 other.toNat := by
    intro heq
    have hvalue := congrArg (fun chars => Nat.ofDigitChars 10 chars 0) heq
    simp only [Nat.ofDigitChars_ten_toDigits] at hvalue
    exact hne (UInt64.toNat_inj.mp hvalue)
  by_contra hall
  push Not at hall
  refine hdigits (List.ext_getElem? fun i => ?_)
  by_cases hi : i < 20
  · exact hall i hi
  · rw [List.getElem?_eq_none ((hlength frame).trans (Nat.not_lt.mp hi)),
      List.getElem?_eq_none ((hlength other).trans (Nat.not_lt.mp hi))]

/-- Two numbers look different. -/
theorem exists_litAt_ne {frame other : UInt64} (hne : frame ≠ other) (label : String) :
    ∃ i < label.toList.length + 21, ∃ row < 7, ∃ col < 5,
      litAt (frameText label frame) i row col ≠ litAt (frameText label other) i row col := by
  obtain ⟨i, hi, hdiffer⟩ := exists_digit_ne hne
  have hdigit : ∀ number : UInt64, ∀ ch ∈ (Nat.toDigits 10 number.toNat)[i]?,
      ∃ digit < 10, ch = Nat.digitChar digit :=
    fun number ch hch => exists_digitChar (Nat.isDigit_of_mem_toDigits (by decide) (by decide)
      (List.mem_of_getElem? hch))
  have hplace : (label.toList ++ [' ']).length + i < label.toList.length + 21 := by
    simp only [List.length_append, List.length_singleton]
    omega
  refine ⟨_, hplace, ?_⟩
  simp only [frameText_eq, litAt_append]
  unfold litAt
  cases hframe : (Nat.toDigits 10 frame.toNat)[i]? with
  | none =>
      cases hother : (Nat.toDigits 10 other.toNat)[i]? with
      | none => exact absurd (hframe.trans hother.symm) hdiffer
      | some ch =>
          obtain ⟨digit, hten, rfl⟩ := hdigit other ch hother
          obtain ⟨row, hrow, col, hcol, hlit⟩ := (glyph_digits digit hten).1
          exact ⟨row, hrow, col, hcol, by simp [hlit]⟩
  | some ch =>
      obtain ⟨digit, hten, rfl⟩ := hdigit frame ch hframe
      obtain ⟨hblank, hdistinct⟩ := glyph_digits digit hten
      cases hother : (Nat.toDigits 10 other.toNat)[i]? with
      | none =>
          obtain ⟨row, hrow, col, hcol, hlit⟩ := hblank
          exact ⟨row, hrow, col, hcol, by simp [hlit]⟩
      | some next =>
          obtain ⟨digit', hten', rfl⟩ := hdigit other next hother
          refine hdistinct digit' hten' ?_
          rintro rfl
          exact hdiffer (hframe.trans hother.symm)

/-! ## Distinct pictures -/

/-- One of three neighbours is neither of two places. -/
theorem exists_free (start a b : ℕ) : ∃ s < 3, start + s ≠ a ∧ start + s ≠ b := by
  by_contra hnone
  push Not at hnone
  have hfirst := hnone 0 (by decide)
  have hsecond := hnone 1 (by decide)
  have hthird := hnone 2 (by decide)
  omega

/-- No bar is as bright as the text. -/
theorem luma_ne (w bar : ℕ) {col : ℕ} (hcol : col < w) : luma w bar col ≠ 240 := by
  have hwide : col < max w 1 := hcol.trans_le (le_max_left w 1)
  have hramp : col * 90 / max w 1 < 90 := Nat.div_lt_of_lt_mul (by omega)
  unfold luma
  split_ifs
  · decide
  · generalize col * 90 / max w 1 = step at hramp
    intro heq
    have hvalue : (36 + step) % 256 = 240 := by simpa using congrArg UInt8.toNat heq
    omega

/-- Off the arms of the pointer the text shows where it is lit, and only there. -/
theorem testPicture_y_eq_iff (index : ℕ) (frame : UInt64) {width : UInt32} (label : String)
    (cursor : Option (UInt32 × UInt32)) {row col : ℕ} (hcol : col < width.toNat)
    (hrow : ∀ place ∈ cursor, row ≠ place.2.toNat)
    (hplace : ∀ place ∈ cursor, col ≠ place.1.toNat) :
    (testPicture index frame width label cursor).y row col = 240 ↔
      (row, col) ∈ textCells 24 24 (frameText label frame) := by
  have hfree : (row, col) ∉ pointerCells cursor := by
    cases cursor with
    | none => exact id
    | some place =>
        rintro (⟨hcy, -⟩ | ⟨hcx, -⟩)
        · exact hrow place rfl hcy
        · exact hplace place rfl hcx
  show overlay 16 _ _ row col = 240 ↔ _
  rw [overlay_of_notMem hfree]
  by_cases htext : (row, col) ∈ textCells 24 24 (frameText label frame)
  · rw [overlay_of_mem htext]
    exact iff_of_true rfl htext
  · rw [overlay_of_notMem htext]
    exact iff_of_false (luma_ne _ _ hcol) htext

/-- Two pictures of different frames differ in a pixel of the text. -/
theorem testPicture_differs (index index' : ℕ) {frame other : UInt64} (hne : frame ≠ other)
    {width : UInt32} (label : String)
    (hwidth : 24 + (label.toList.length + 21) * 18 ≤ width.toNat)
    (cursor cursor' : Option (UInt32 × UInt32)) :
    ∃ row < 45, ∃ col < width.toNat,
      (testPicture index frame width label cursor).y row col ≠
        (testPicture index' other width label cursor').y row col := by
  obtain ⟨i, hi, grow, hgrow, gcol, hgcol, hlit⟩ := exists_litAt_ne hne label
  obtain ⟨sy, hsy, hrow, hrow'⟩ := exists_free (24 + grow * 3) ((cursor.map Prod.snd).getD 0).toNat
    ((cursor'.map Prod.snd).getD 0).toNat
  obtain ⟨sx, hsx, hcol, hcol'⟩ := exists_free (24 + i * 18 + gcol * 3)
    ((cursor.map Prod.fst).getD 0).toNat ((cursor'.map Prod.fst).getD 0).toNat
  have hinside : 24 + i * 18 + gcol * 3 + sx < width.toNat := by omega
  refine ⟨24 + grow * 3 + sy, by omega, 24 + i * 18 + gcol * 3 + sx, hinside, fun hsame => hlit ?_⟩
  have hfirst := testPicture_y_eq_iff index frame label cursor hinside
    (fun place hplace => by rw [hplace] at hrow; exact hrow)
    (fun place hplace => by rw [hplace] at hcol; exact hcol)
  have hsecond := testPicture_y_eq_iff index' other label cursor' hinside
    (fun place hplace => by rw [hplace] at hrow'; exact hrow')
    (fun place hplace => by rw [hplace] at hcol'; exact hcol')
  rw [mem_textCells_iff _ i hgrow hgcol hsy hsx] at hfirst hsecond
  rw [hsame] at hfirst
  exact Bool.eq_iff_iff.mpr (hfirst.symm.trans hsecond)

end OmarchyConnect.Host
