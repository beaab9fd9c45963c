/-
# Cutting a stream at its marks

A `Mark` recognises a delimiter at the front of a list: its length, or 0. A
stream is then a plain prefix without a mark followed by segments, each of which
starts with a mark and runs up to the next one. The last segment is open, because
what follows it is not known yet.

Appending to a stream changes nothing before its open segment. That is the fact
that makes an incremental splitter agree with a splitter that sees everything.
-/

import Mathlib.Data.List.Basic
import Mathlib.Tactic

namespace OmarchyConnect.Library.Segments

/-- A delimiter recogniser. `length` reads at most `width` elements, and a mark
is at most one element shorter than that. -/
structure Mark (α : Type) where
  width : ℕ
  length : List α → ℕ
  length_le : ∀ l, length l ≤ l.length
  width_le : ∀ l, length l ≠ 0 → width ≤ length l + 1
  length_take : ∀ l k, length l ≠ 0 → length l ≤ k → length (l.take k) = length l
  length_append : ∀ l more, length l ≠ 0 → length (l ++ more) = length l
  unmarked_append : ∀ l more, length l = 0 → width ≤ l.length → length (l ++ more) = 0

variable {α : Type} (mark : Mark α)

/-- What stands before the first mark. -/
def plain : List α → List α
  | [] => []
  | a :: l => if mark.length (a :: l) = 0 then a :: plain l else []

/-- The stream from its first mark on. -/
def marked : List α → List α
  | [] => []
  | a :: l => if mark.length (a :: l) = 0 then marked l else a :: l

/-- The two parts make up the list. -/
theorem plain_append_marked (l : List α) : plain mark l ++ marked mark l = l := by
  induction l with
  | nil => rfl
  | cons a l ih =>
      by_cases hmark : mark.length (a :: l) = 0
      · simp [plain, marked, hmark, ih]
      · simp [plain, marked, hmark]

/-- The marked part is not longer than the list. -/
theorem length_marked_le (l : List α) : (marked mark l).length ≤ l.length := by
  have hsplit := congrArg List.length (plain_append_marked mark l)
  rw [List.length_append] at hsplit
  omega

/-- The marked part starts with a mark. -/
theorem length_marked (l : List α) (h : marked mark l ≠ []) :
    mark.length (marked mark l) ≠ 0 := by
  induction l with
  | nil => exact absurd rfl h
  | cons a l ih =>
      by_cases hmark : mark.length (a :: l) = 0
      · rw [marked, if_pos hmark] at h ⊢
        exact ih h
      · rw [marked, if_neg hmark]
        exact hmark

/-- A stream that starts with a mark has no plain prefix. -/
theorem marked_of_length_ne_zero {l : List α} (h : mark.length l ≠ 0) : marked mark l = l := by
  cases l with
  | nil => rfl
  | cons a l => rw [marked, if_neg h]

/-- In front of a mark there is nothing plain. -/
theorem plain_of_length_ne_zero {l : List α} (h : mark.length l ≠ 0) : plain mark l = [] := by
  cases l with
  | nil => rfl
  | cons a l => rw [plain, if_neg h]

/-- There is no mark in an empty list. -/
@[simp]
theorem length_nil : mark.length [] = 0 :=
  Nat.le_zero.mp (mark.length_le [])

/-- A list with a mark at its front is not empty. -/
theorem ne_nil_of_length_ne_zero {l : List α} (h : mark.length l ≠ 0) : l ≠ [] := by
  rintro rfl
  exact h (length_nil mark)

/-- A whole mark is almost as long as the window that recognises it. -/
theorem width_le_of_marked_ne_nil {l : List α} (h : marked mark l ≠ []) :
    mark.width ≤ l.length + 1 := by
  have hwidth := mark.width_le _ (length_marked mark l h)
  have hlen := mark.length_le (marked mark l)
  have hle := length_marked_le mark l
  omega

/-- Once a stream shows a mark, its plain prefix is settled. -/
theorem plain_append {l : List α} (h : marked mark l ≠ []) (more : List α) :
    plain mark (l ++ more) = plain mark l ∧
      marked mark (l ++ more) = marked mark l ++ more := by
  induction l with
  | nil => exact absurd rfl h
  | cons a l ih =>
      by_cases hmark : mark.length (a :: l) = 0
      · have hrest : marked mark l ≠ [] := by simpa [marked, hmark] using h
        have hwidth : mark.width ≤ (a :: l).length := width_le_of_marked_ne_nil mark hrest
        have happend := mark.unmarked_append (a :: l) more hmark hwidth
        rw [List.cons_append] at happend
        obtain ⟨hplain, hmarked⟩ := ih hrest
        simp [plain, marked, hmark, happend, hplain, hmarked]
      · have happend := mark.length_append (a :: l) more hmark
        rw [List.cons_append] at happend
        simp [plain, marked, hmark, happend]

/-! ## Segments -/

/-- The first segment of a marked stream: its mark and what is plain after it. -/
def firstSegment (l : List α) : List α :=
  l.take (mark.length l) ++ plain mark (l.drop (mark.length l))

/-- The stream from its second mark on. -/
def afterFirst (l : List α) : List α := marked mark (l.drop (mark.length l))

/-- The first segment and what follows it make up the list. -/
theorem firstSegment_append_afterFirst (l : List α) :
    firstSegment mark l ++ afterFirst mark l = l := by
  rw [firstSegment, afterFirst, List.append_assoc, plain_append_marked, List.take_append_drop]

/-- A segment takes at least its mark. -/
theorem length_afterFirst_lt {l : List α} (h : mark.length l ≠ 0) :
    (afterFirst mark l).length < l.length := by
  have hle := length_marked_le mark (l.drop (mark.length l))
  have hmark := mark.length_le l
  rw [List.length_drop] at hle
  rw [afterFirst]
  omega

/-- The segments of a marked stream, in order; the last one is open. -/
def segments (l : List α) : List (List α) :=
  if h : mark.length l = 0 then []
  else
    have : (afterFirst mark l).length < l.length := length_afterFirst_lt mark h
    firstSegment mark l :: segments (afterFirst mark l)
termination_by l.length

/-- Without a mark at the front there is no segment. -/
theorem segments_of_length_eq_zero {l : List α} (h : mark.length l = 0) :
    segments mark l = [] := by
  rw [segments, dif_pos h]

/-- A mark at the front starts the first segment. -/
theorem segments_of_length_ne_zero {l : List α} (h : mark.length l ≠ 0) :
    segments mark l = firstSegment mark l :: segments mark (afterFirst mark l) := by
  rw [segments, dif_neg h]

/-- Induction along the segments of a stream. -/
theorem segments_induction {motive : List α → Prop}
    (unmarked : ∀ l, mark.length l = 0 → motive l)
    (segment : ∀ l, mark.length l ≠ 0 → motive (afterFirst mark l) → motive l)
    (l : List α) : motive l := by
  by_cases h : mark.length l = 0
  · exact unmarked l h
  · have hlt := length_afterFirst_lt mark h
    exact segment l h (segments_induction unmarked segment (afterFirst mark l))
termination_by l.length

/-- What follows a segment is empty or starts with a mark. -/
theorem afterFirst_eq_nil_of_length_eq_zero {l : List α}
    (h : mark.length (afterFirst mark l) = 0) : afterFirst mark l = [] := by
  by_contra hne
  exact length_marked mark _ hne h

/-- The segments make up the whole of a marked stream. -/
theorem flatten_segments {l : List α} (h : mark.length l ≠ 0) :
    (segments mark l).flatten = l := by
  induction l using segments_induction mark with
  | unmarked l hzero => exact absurd hzero h
  | segment l hmark ih =>
      rw [segments_of_length_ne_zero mark hmark, List.flatten_cons]
      by_cases hrest : mark.length (afterFirst mark l) = 0
      · rw [segments_of_length_eq_zero mark hrest, List.flatten_nil,
          ← afterFirst_eq_nil_of_length_eq_zero mark hrest]
        exact firstSegment_append_afterFirst mark l
      · rw [ih hrest]
        exact firstSegment_append_afterFirst mark l

/-- A mark at the front makes a segment. -/
theorem segments_ne_nil {l : List α} (h : mark.length l ≠ 0) : segments mark l ≠ [] := by
  rw [segments_of_length_ne_zero mark h]
  exact List.cons_ne_nil _ _

/-- The first segment has the mark of the list. -/
theorem length_firstSegment {l : List α} (h : mark.length l ≠ 0) :
    mark.length (firstSegment mark l) = mark.length l := by
  have htaken : firstSegment mark l = l.take (firstSegment mark l).length :=
    List.prefix_iff_eq_take.mp ⟨_, firstSegment_append_afterFirst mark l⟩
  have hle : mark.length l ≤ (firstSegment mark l).length := by
    rw [firstSegment, List.length_append, List.length_take]
    have hmark := mark.length_le l
    omega
  rw [htaken]
  exact mark.length_take l _ h hle

/-- Every segment starts with a mark. -/
theorem length_ne_zero_of_mem_segments {l segment : List α}
    (h : segment ∈ segments mark l) : mark.length segment ≠ 0 := by
  induction l using segments_induction mark with
  | unmarked l hzero => simp [segments_of_length_eq_zero mark hzero] at h
  | segment l hmark ih =>
      rw [segments_of_length_ne_zero mark hmark] at h
      rcases List.mem_cons.mp h with rfl | hmem
      · rw [length_firstSegment mark hmark]
        exact hmark
      · exact ih hmem

/-- Appending to a stream keeps its closed segments and goes on with the open
one. -/
theorem segments_append {l : List α} (more : List α) {closed : List (List α)}
    {last : List α} (h : segments mark l = closed ++ [last]) :
    segments mark (l ++ more) = closed ++ segments mark (last ++ more) := by
  induction l using segments_induction mark generalizing closed with
  | unmarked l hzero => simp [segments_of_length_eq_zero mark hzero] at h
  | segment l hmark ih =>
      rw [segments_of_length_ne_zero mark hmark] at h
      by_cases hrest : mark.length (afterFirst mark l) = 0
      · -- The first segment is the open one: it is the whole stream.
        rw [segments_of_length_eq_zero mark hrest] at h
        have hclosed : closed = [] := by
          cases closed with
          | nil => rfl
          | cons head tail => simp at h
        subst hclosed
        obtain rfl : firstSegment mark l = last := by simpa using h
        have hwhole := firstSegment_append_afterFirst mark l
        rw [afterFirst_eq_nil_of_length_eq_zero mark hrest, List.append_nil] at hwhole
        rw [hwhole, List.nil_append]
      · obtain ⟨closed, rfl⟩ : ∃ rest, closed = firstSegment mark l :: rest := by
          cases closed with
          | nil =>
              have hnil : segments mark (afterFirst mark l) = [] := by
                simpa using (List.cons.inj h).2
              exact absurd hnil (segments_ne_nil mark hrest)
          | cons head tail => exact ⟨tail, by rw [(List.cons.inj h).1]⟩
        have htail : segments mark (afterFirst mark l) = closed ++ [last] := (List.cons.inj h).2
        have hne : marked mark (l.drop (mark.length l)) ≠ [] :=
          ne_nil_of_length_ne_zero mark hrest
        have hlength := mark.length_append l more hmark
        have hdrop : (l ++ more).drop (mark.length l) = l.drop (mark.length l) ++ more :=
          List.drop_append_of_le_length (mark.length_le l)
        have htake : (l ++ more).take (mark.length l) = l.take (mark.length l) :=
          List.take_append_of_le_length (mark.length_le l)
        obtain ⟨hplain, hmarked⟩ := plain_append mark hne more
        rw [segments_of_length_ne_zero mark (by rw [hlength]; exact hmark)]
        have hfirst : firstSegment mark (l ++ more) = firstSegment mark l := by
          rw [firstSegment, hlength, htake, hdrop, hplain, firstSegment]
        have hafter : afterFirst mark (l ++ more) = afterFirst mark l ++ more := by
          rw [afterFirst, hlength, hdrop, hmarked, afterFirst]
        rw [hfirst, hafter, ih htail, List.cons_append]

/-- The last segments of a stream are the segments of what they make up. -/
theorem segments_flatten_of_append {l : List α} {front back : List (List α)}
    (h : segments mark l = front ++ back) : segments mark back.flatten = back := by
  induction front generalizing l with
  | nil =>
      rw [List.nil_append] at h
      subst h
      by_cases hmark : mark.length l = 0
      · rw [segments_of_length_eq_zero mark hmark]
        exact segments_of_length_eq_zero mark (length_nil mark)
      · rw [flatten_segments mark hmark]
  | cons segment front ih =>
      by_cases hmark : mark.length l = 0
      · simp [segments_of_length_eq_zero mark hmark] at h
      · rw [segments_of_length_ne_zero mark hmark, List.cons_append] at h
        exact ih (List.cons.inj h).2

/-! ## Recognising given segments -/

/-- `segment` stays one segment whatever marked stream follows it. -/
def IsSegment (segment : List α) : Prop :=
  mark.length segment ≠ 0 ∧
    ∀ rest, (rest = [] ∨ mark.length rest ≠ 0) →
      plain mark ((segment ++ rest).drop (mark.length segment)) =
        segment.drop (mark.length segment)

/-- A segment is cut off in front of the end or of another mark. -/
theorem IsSegment.firstSegment_append {segment rest : List α} (h : IsSegment mark segment)
    (hrest : rest = [] ∨ mark.length rest ≠ 0) :
    firstSegment mark (segment ++ rest) = segment ∧
      afterFirst mark (segment ++ rest) = rest := by
  have hlength := mark.length_append segment rest h.1
  have hfirst : firstSegment mark (segment ++ rest) = segment := by
    rw [firstSegment, hlength, h.2 rest hrest,
      List.take_append_of_le_length (mark.length_le segment), List.take_append_drop]
  refine ⟨hfirst, ?_⟩
  have hwhole := firstSegment_append_afterFirst mark (segment ++ rest)
  rw [hfirst] at hwhole
  exact List.append_cancel_left hwhole

/-- Segments one after another are empty or start with a mark. -/
theorem length_flatten_ne_zero {parts : List (List α)} (h : ∀ part ∈ parts, IsSegment mark part) :
    parts.flatten = [] ∨ mark.length parts.flatten ≠ 0 := by
  cases parts with
  | nil => exact Or.inl rfl
  | cons part parts =>
      have hpart := (h part (by simp)).1
      refine Or.inr ?_
      rw [List.flatten_cons, mark.length_append _ _ hpart]
      exact hpart

/-- A concatenation of segments is cut into exactly these segments. -/
theorem segments_flatten {parts : List (List α)} (h : ∀ part ∈ parts, IsSegment mark part) :
    segments mark parts.flatten = parts := by
  induction parts with
  | nil => exact segments_of_length_eq_zero mark (length_nil mark)
  | cons part parts ih =>
      have hpart := h part (by simp)
      have hparts : ∀ later ∈ parts, IsSegment mark later :=
        fun later hlater => h later (by simp [hlater])
      have hrest := length_flatten_ne_zero mark hparts
      obtain ⟨hfirst, hafter⟩ := hpart.firstSegment_append mark hrest
      have hlength : mark.length (part ++ parts.flatten) ≠ 0 := by
        rw [mark.length_append _ _ hpart.1]
        exact hpart.1
      rw [List.flatten_cons, segments_of_length_ne_zero mark hlength, hfirst, hafter, ih hparts]

end OmarchyConnect.Library.Segments
