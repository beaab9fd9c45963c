/-
# Start codes cut the buffer into segments

The start codes of Annex B are marks in the sense of the segment library: a
buffer is a plain prefix followed by segments, each a start code with the bytes
up to the next one. The scan of the source finds exactly where they begin, and
the type of a NAL unit is a property of its segment alone.
-/

import OmarchyConnect.Library.Segments
import OmarchyConnect.Host.Nal

namespace OmarchyConnect.Host

open OmarchyConnect.Library.Wire OmarchyConnect.Library.Segments

/-! ## Start codes as marks -/

/-- The length of the start code at the front, or 0. -/
def startCodeLength (l : Bytes) : ℕ :=
  if l.take 3 = [0, 0, 1] then 3 else if l.take 4 = [0, 0, 0, 1] then 4 else 0

/-- A short start code. -/
theorem startCodeLength_eq_three_iff (l : Bytes) :
    startCodeLength l = 3 ↔ l.take 3 = [0, 0, 1] := by
  unfold startCodeLength
  split_ifs <;> simp_all

/-- A long start code. -/
theorem startCodeLength_eq_four_iff (l : Bytes) :
    startCodeLength l = 4 ↔ l.take 4 = [0, 0, 0, 1] := by
  unfold startCodeLength
  split_ifs with hthree hfour
  · have hlonger : l.take 4 = [0, 0, 0, 1] → False := by
      intro hfour
      have h := congrArg (List.take 3) hfour
      simp [List.take_take, hthree] at h
    simpa using hlonger
  · simp [hfour]
  · simp [hfour]

/-- A start code has three bytes, or four, or there is none. -/
theorem startCodeLength_cases (l : Bytes) :
    startCodeLength l = 0 ∨ startCodeLength l = 3 ∨ startCodeLength l = 4 := by
  unfold startCodeLength
  split_ifs <;> simp

/-- A marked stream shows its start code. -/
theorem startCodeLength_ne_zero {l : Bytes} (h : startCodeLength l ≠ 0) :
    (∃ rest, l = 0 :: 0 :: 1 :: rest ∧ startCodeLength l = 3) ∨
      (∃ rest, l = 0 :: 0 :: 0 :: 1 :: rest ∧ startCodeLength l = 4) := by
  rcases startCodeLength_cases l with hzero | hthree | hfour
  · exact absurd hzero h
  · have htake := (startCodeLength_eq_three_iff l).mp hthree
    refine Or.inl ⟨l.drop 3, ?_, hthree⟩
    rw [← List.take_append_drop 3 l, htake]
    simp
  · have htake := (startCodeLength_eq_four_iff l).mp hfour
    refine Or.inr ⟨l.drop 4, ?_, hfour⟩
    rw [← List.take_append_drop 4 l, htake]
    simp

/-- A short start code is found. -/
@[simp]
theorem startCodeLength_three (rest : Bytes) : startCodeLength (0 :: 0 :: 1 :: rest) = 3 := by
  simp [startCodeLength]

/-- A long start code is found. -/
@[simp]
theorem startCodeLength_four (rest : Bytes) : startCodeLength (0 :: 0 :: 0 :: 1 :: rest) = 4 := by
  simp [startCodeLength]

/-- A start code lies inside of the bytes. -/
theorem startCodeLength_le (l : Bytes) : startCodeLength l ≤ l.length := by
  by_cases h : startCodeLength l = 0
  · omega
  · rcases startCodeLength_ne_zero h with ⟨rest, rfl, hlen⟩ | ⟨rest, rfl, hlen⟩ <;> simp

/-- The Annex-B start code as a mark: it is recognised within four bytes. -/
def startCode : Mark UInt8 where
  width := 4
  length := startCodeLength
  length_le := startCodeLength_le
  width_le l h := by
    rcases startCodeLength_ne_zero h with ⟨rest, -, hlen⟩ | ⟨rest, -, hlen⟩ <;> omega
  length_take l k h hle := by
    rcases startCodeLength_ne_zero h with ⟨rest, rfl, hlen⟩ | ⟨rest, rfl, hlen⟩
    · obtain ⟨k, rfl⟩ := Nat.exists_eq_add_of_le' (hlen ▸ hle)
      simp
    · obtain ⟨k, rfl⟩ := Nat.exists_eq_add_of_le' (hlen ▸ hle)
      simp
  length_append l more h := by
    rcases startCodeLength_ne_zero h with ⟨rest, rfl, hlen⟩ | ⟨rest, rfl, hlen⟩ <;> simp
  unmarked_append l more h hwidth := by
    have htake : ∀ k ≤ 4, (l ++ more).take k = l.take k := fun k hk =>
      List.take_append_of_le_length (by omega)
    unfold startCodeLength at h ⊢
    rw [htake 3 (by omega), htake 4 (by omega)]
    exact h

/-- The mark of a segment is its start code. -/
@[simp]
theorem startCode_length (l : Bytes) : startCode.length l = startCodeLength l := rfl

/-! ## Positions of segments -/

/-- Where segments begin, laid out one after another from `base`. -/
def positions (base : ℕ) : List Bytes → List ℕ
  | [] => []
  | segment :: segments => base :: positions (base + segment.length) segments

/-- The windows of segments laid out from `base`. -/
def spans (base : ℕ) : List Bytes → List (ℕ × ℕ)
  | [] => []
  | segment :: segments =>
      (base, base + segment.length) :: spans (base + segment.length) segments

/-- The spans of segments one after another. -/
theorem spans_append (base : ℕ) (first second : List Bytes) :
    spans base (first ++ second) =
      spans base first ++ spans (base + first.flatten.length) second := by
  induction first generalizing base with
  | nil => simp [spans]
  | cons segment segments ih => simp [spans, ih, Nat.add_assoc]

/-- Each segment has a position. -/
theorem length_positions (base : ℕ) (segments : List Bytes) :
    (positions base segments).length = segments.length := by
  induction segments generalizing base with
  | nil => rfl
  | cons segment segments ih => simp [positions, ih]

/-- Consecutive start codes bound the closed segments. -/
theorem zip_tail_positions (base : ℕ) (closed : List Bytes) (last : Bytes) :
    (positions base (closed ++ [last])).zip (positions base (closed ++ [last])).tail =
      spans base closed := by
  induction closed generalizing base with
  | nil => simp [positions, spans]
  | cons segment closed ih =>
      have htail := ih (base + segment.length)
      cases closed with
      | nil => simp [positions, spans]
      | cons next closed => simpa [positions, spans] using htail

/-- Reading behind a cut. -/
theorem getD_drop (buf : Bytes) (i k : ℕ) : (buf.drop i).getD k 0 = buf.getD (i + k) 0 := by
  simp [List.getD_eq_getElem?_getD]

/-- The three byte tests of the scan recognise the short start code. -/
theorem three_bytes_iff {l : Bytes} (h : 2 < l.length) :
    (l.getD 0 0 = 0 ∧ l.getD 1 0 = 0 ∧ l.getD 2 0 = 1) ↔ startCodeLength l = 3 := by
  rw [startCodeLength_eq_three_iff]
  match l, h with
  | a :: b :: c :: rest, _ => simp

/-- The four byte tests of the scan recognise the long start code. -/
theorem four_bytes_iff (l : Bytes) :
    (3 < l.length ∧ l.getD 0 0 = 0 ∧ l.getD 1 0 = 0 ∧ l.getD 2 0 = 0 ∧ l.getD 3 0 = 1) ↔
      startCodeLength l = 4 := by
  rw [startCodeLength_eq_four_iff]
  match l with
  | [] | [_] | [_, _] | [_, _, _] => simp
  | a :: b :: c :: d :: rest => simp

/-- A segment starts at a start code, and the next one is looked for behind it. -/
theorem positions_of_startCode {buf : Bytes} {i width : ℕ}
    (hmark : startCode.length (buf.drop i) = width) (hwidth : 0 < width)
    (hfits : i + width ≤ buf.length) :
    positions (i + (plain startCode (buf.drop i)).length)
        (segments startCode (marked startCode (buf.drop i))) =
      i :: positions (i + width + (plain startCode (buf.drop (i + width))).length)
        (segments startCode (marked startCode (buf.drop (i + width)))) := by
  have hne : startCode.length (buf.drop i) ≠ 0 := by omega
  have hlength : (firstSegment startCode (buf.drop i)).length =
      width + (plain startCode (buf.drop (i + width))).length := by
    rw [firstSegment, hmark, List.length_append, List.length_take, List.length_drop,
      List.drop_drop]
    omega
  rw [plain_of_length_ne_zero startCode hne, marked_of_length_ne_zero startCode hne,
    segments_of_length_ne_zero startCode hne, positions, hlength, afterFirst, hmark,
    List.drop_drop]
  simp [Nat.add_assoc]

/-- The scan of the source finds the positions of the segments. -/
theorem startCodesFrom_eq_positions (buf : Bytes) (i : ℕ) :
    startCodesFrom buf i =
      positions (i + (plain startCode (buf.drop i)).length)
        (segments startCode (marked startCode (buf.drop i))) := by
  induction i using startCodesFrom.induct buf with
  | case1 i hlen hthree ih =>
      have hmark : startCode.length (buf.drop i) = 3 := by
        rw [startCode_length, ← three_bytes_iff (by rw [List.length_drop]; omega)]
        simpa [getD_drop] using hthree
      rw [startCodesFrom, if_pos hlen, if_pos hthree, ih,
        positions_of_startCode hmark (by decide) (by omega)]
  | case2 i hlen hthree hfour ih =>
      have hmark : startCode.length (buf.drop i) = 4 := by
        rw [startCode_length, ← four_bytes_iff]
        refine ⟨by rw [List.length_drop]; omega, ?_⟩
        simpa [getD_drop] using hfour.2
      rw [startCodesFrom, if_pos hlen, if_neg hthree, if_pos hfour, ih,
        positions_of_startCode hmark (by decide) (by omega)]
  | case3 i hlen hthree hfour ih =>
      have hmark : startCode.length (buf.drop i) = 0 := by
        rcases startCodeLength_cases (buf.drop i) with hzero | h3 | h4
        · exact hzero
        · rw [← three_bytes_iff (by rw [List.length_drop]; omega)] at h3
          exact absurd (by simpa [getD_drop] using h3) hthree
        · rw [← four_bytes_iff] at h4
          refine absurd ⟨?_, by simpa [getD_drop] using h4.2⟩ hfour
          have := h4.1
          rw [List.length_drop] at this
          omega
      have hcons : buf.drop i = buf[i] :: buf.drop (i + 1) :=
        List.drop_eq_getElem_cons (by omega)
      rw [hcons] at hmark ⊢
      rw [startCodesFrom, if_pos hlen, if_neg hthree, if_neg hfour, ih, plain, marked,
        if_pos hmark, if_pos hmark, List.length_cons]
      congr 1
      omega
  | case4 i hlen =>
      have hnone : marked startCode (buf.drop i) = [] := by
        by_contra hne
        have hmark := length_marked startCode _ hne
        have hwidth := startCode.width_le _ hmark
        have hle := length_marked_le startCode (buf.drop i)
        have hbound := startCode.length_le (marked startCode (buf.drop i))
        rw [List.length_drop] at hle
        have : startCode.width = 4 := rfl
        omega
      rw [startCodesFrom, if_neg hlen, hnone,
        segments_of_length_eq_zero startCode (length_nil startCode)]
      rfl

/-- The start codes of a buffer are the positions of its segments. -/
theorem startCodes_eq_positions (buf : Bytes) :
    startCodes buf =
      positions (plain startCode buf).length (segments startCode (marked startCode buf)) := by
  rw [startCodes, startCodesFrom_eq_positions, List.drop_zero, Nat.zero_add]

/-! ## Types of segments -/

/-- The NAL unit type of a segment. -/
def segmentKind (segment : Bytes) : UInt8 := nalType segment 0

/-- The kind behind a cut. -/
theorem nalType_drop (buf : Bytes) (start : ℕ) :
    nalType buf start = nalType (buf.drop start) 0 := by
  have hlen : ∀ k, start + k < buf.length ↔ 0 + k < (buf.drop start).length := by
    intro k
    rw [List.length_drop]
    omega
  have hbyte : ∀ k, buf.getD (start + k) 0 = (buf.drop start).getD (0 + k) 0 := by
    intro k
    rw [getD_drop, Nat.zero_add]
  have hread : ∀ k,
      (if start + k < buf.length then buf.getD (start + k) 0 &&& 0x1f else 0) =
        if 0 + k < (buf.drop start).length then (buf.drop start).getD (0 + k) 0 &&& 0x1f
        else 0 := by
    intro k
    simp only [hlen, hbyte]
  unfold nalType
  by_cases hthree : start + 2 < buf.length ∧ buf.getD (start + 2) 0 = 1
  · have hthere := hthree
    rw [hlen, hbyte] at hthere
    simp only [if_pos hthree, if_pos hthere]
    exact hread 3
  · have hthere := hthree
    rw [hlen, hbyte] at hthere
    simp only [if_neg hthree, if_neg hthere]
    exact hread 4

/-- The type of a window is the type of the segment in it: the header byte lies
in the segment, or the next start code follows at once and its first byte is 0. -/
theorem nalType_eq_segmentKind {buf segment rest : Bytes} {start : ℕ}
    (hbuf : buf.drop start = segment ++ rest) (hsegment : startCode.length segment ≠ 0)
    (hrest : startCode.length rest ≠ 0) : nalType buf start = segmentKind segment := by
  rw [nalType_drop, hbuf, segmentKind]
  have hzero : ∃ more, rest = 0 :: more := by
    rcases startCodeLength_ne_zero hrest with ⟨more, rfl, -⟩ | ⟨more, rfl, -⟩
    · exact ⟨_, rfl⟩
    · exact ⟨_, rfl⟩
  obtain ⟨more, rfl⟩ := hzero
  rcases startCodeLength_ne_zero hsegment with ⟨body, rfl, -⟩ | ⟨body, rfl, -⟩
  · cases body <;> simp [nalType]
  · cases body <;> simp [nalType]

/-- Segments in front of a start code start with one. -/
theorem length_flatten_append_ne_zero {segments : List Bytes} {rest : Bytes}
    (hsegments : ∀ segment ∈ segments, startCode.length segment ≠ 0)
    (hrest : startCode.length rest ≠ 0) : startCode.length (segments.flatten ++ rest) ≠ 0 := by
  cases segments with
  | nil => exact hrest
  | cons segment segments =>
      have hsegment := hsegments segment (by simp)
      rw [List.flatten_cons, List.append_assoc, startCode.length_append _ _ hsegment]
      exact hsegment

end OmarchyConnect.Host
