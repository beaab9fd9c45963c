/-
# Chunks of the pipe do not matter

The reader thread of the hardware encoder feeds `pushBytes` with whatever a read
of the pipe returns. Splitting everything held is incremental: the closed groups
of the front stay closed, and splitting the rest again together with the next
bytes continues where the front ended. So any cut of the stream, also inside a
start code, gives the access units of the whole stream.
-/

import OmarchyConnect.Library.Incremental
import OmarchyConnect.Host.NalGroups

namespace OmarchyConnect.Host

open OmarchyConnect.Library.Wire OmarchyConnect.Library.Segments
open OmarchyConnect.Library.Incremental

/-- With two start codes or more, the last segment is the open one. -/
theorem exists_segments_eq {held : Bytes}
    (h : ¬ (segments startCode (marked startCode held)).length < 2) :
    ∃ closed last, closed ≠ [] ∧
      segments startCode (marked startCode held) = closed ++ [last] := by
  generalize segments startCode (marked startCode held) = found at h
  cases found using List.reverseRecOn with
  | nil => simp at h
  | append_singleton closed last =>
      refine ⟨closed, last, ?_, rfl⟩
      rintro rfl
      simp at h

/-- What is split when all segments but the last are closed. -/
theorem splitUnits_of_segments {held : Bytes} {closed : List Bytes} {last : Bytes}
    (hne : closed ≠ [])
    (hfound : segments startCode (marked startCode held) = closed ++ [last]) :
    splitUnits held =
      ((Grouping.run segmentKind closed).groups.map unitOfGroup,
        (Grouping.run segmentKind closed).current.flatten ++ last) := by
  have hmany : ¬ (closed ++ [last]).length < 2 := by
    have := List.length_pos_of_ne_nil hne
    rw [List.length_append, List.length_singleton]
    omega
  simp only [splitUnits, hfound, if_neg hmany, List.dropLast_concat, List.getLastD_concat]

/-- Without two segments nothing is split. -/
theorem splitUnits_of_few {held : Bytes}
    (h : (segments startCode (marked startCode held)).length < 2) :
    splitUnits held = ([], held) := by
  simp only [splitUnits, if_pos h]

/-- Nothing is split out of nothing. -/
theorem splitUnits_nil : splitUnits [] = ([], []) := by
  apply splitUnits_of_few
  rw [marked, segments_of_length_eq_zero startCode (length_nil startCode)]
  exact Nat.zero_lt_two

/-- More bytes leave the closed segments alone. -/
theorem segments_marked_append {held : Bytes} {closed : List Bytes} {last : Bytes}
    (hfound : segments startCode (marked startCode held) = closed ++ [last]) (more : Bytes) :
    segments startCode (marked startCode (held ++ more)) =
      closed ++ segments startCode (last ++ more) := by
  have hne : marked startCode held ≠ [] := by
    intro hnil
    rw [hnil, segments_of_length_eq_zero startCode (length_nil startCode)] at hfound
    simp at hfound
  rw [(plain_append startCode hne more).2]
  exact segments_append startCode more hfound

/-- The kept bytes are the segments of the open group and the open segment. -/
theorem segments_kept {held : Bytes} {closed : List Bytes} {last : Bytes}
    (hfound : segments startCode (marked startCode held) = closed ++ [last]) :
    segments startCode
        (marked startCode ((Grouping.run segmentKind closed).current.flatten ++ last)) =
      (Grouping.run segmentKind closed).current ++ [last] := by
  have hmarks : ∀ segment ∈ closed ++ [last], startCode.length segment ≠ 0 := by
    rw [← hfound]
    exact fun segment hmem => length_ne_zero_of_mem_segments startCode hmem
  have hall := Grouping.flatten_run segmentKind closed
  set state := Grouping.run segmentKind closed
  have htail : segments startCode (marked startCode held) =
      state.groups.flatten ++ (state.current ++ [last]) := by
    rw [hfound, ← hall, List.append_assoc]
  have hsame := segments_flatten_of_append startCode htail
  have hlast := hmarks last (by simp)
  have hcurrentMarks : ∀ segment ∈ state.current, startCode.length segment ≠ 0 :=
    fun segment hmem => hmarks segment (by rw [← hall]; simp [hmem])
  rw [List.flatten_append, List.flatten_singleton] at hsame
  rw [marked_of_length_ne_zero startCode
    (length_flatten_append_ne_zero hcurrentMarks hlast), hsame]

/-- Splitting everything held is incremental. -/
theorem isIncremental_splitUnits : IsIncremental splitUnits := by
  intro front back
  by_cases hfew : (segments startCode (marked startCode front)).length < 2
  · rw [splitUnits_of_few hfew]
    rfl
  · obtain ⟨closed, last, hne, hfound⟩ := exists_segments_eq hfew
    have hmarks : ∀ segment ∈ closed ++ [last], startCode.length segment ≠ 0 := by
      rw [← hfound]
      exact fun segment hmem => length_ne_zero_of_mem_segments startCode hmem
    obtain ⟨later, unclosed, hopen⟩ : ∃ later unclosed,
        segments startCode (last ++ back) = later ++ [unclosed] := by
      have hlast : startCode.length (last ++ back) ≠ 0 := by
        rw [startCode.length_append _ _ (hmarks last (by simp))]
        exact hmarks last (by simp)
      exact ⟨_, _, (List.dropLast_append_getLast (segments_ne_nil startCode hlast)).symm⟩
    have hall := Grouping.flatten_run segmentKind closed
    have hcurrent := Grouping.current_run_ne_nil segmentKind hne
    set state := Grouping.run segmentKind closed with hstate
    have hkept : segments startCode (marked startCode (state.current.flatten ++ last)) =
        state.current ++ [last] := segments_kept hfound
    have hwhole := segments_marked_append hfound back
    have hresume := segments_marked_append hkept back
    rw [hopen, ← List.append_assoc] at hwhole hresume
    rw [splitUnits_of_segments hne hfound, ← hstate,
      splitUnits_of_segments (by simp [hne]) hwhole,
      splitUnits_of_segments (by simp [hcurrent]) hresume,
      Grouping.run_append segmentKind closed later, ← hstate]
    simp [Grouping.prepend]

/-- What is emitted and what is kept make up the stream from its first start
code on. -/
theorem flatten_splitUnits (held : Bytes) :
    ((splitUnits held).1.map AccessUnit.data).flatten ++ (splitUnits held).2 =
      if (startCodes held).length < 2 then held else held.drop ((startCodes held).headD 0) := by
  rw [startCodes_eq_positions, length_positions]
  by_cases hfew : (segments startCode (marked startCode held)).length < 2
  · rw [splitUnits_of_few hfew, if_pos hfew]
    rfl
  · obtain ⟨closed, last, hne, hfound⟩ := exists_segments_eq hfew
    have hdata : AccessUnit.data ∘ unitOfGroup = List.flatten := rfl
    have hhead : (positions (plain startCode held).length (closed ++ [last])).headD 0 =
        (plain startCode held).length := by
      cases closed with
      | nil => exact absurd rfl hne
      | cons segment closed => rfl
    rw [splitUnits_of_segments hne hfound, if_neg hfew, hfound, hhead, drop_plain_eq hfound,
      List.map_map, hdata, ← List.append_assoc, ← List.flatten_flatten,
      ← List.flatten_append, Grouping.flatten_run]

/-- The chunks of a stream do not matter. -/
theorem feed_eq_splitUnits (chunks : List Bytes) :
    feed pushBytes [] chunks = splitUnits chunks.flatten := by
  have hstep : pushBytes = fun buffer chunk => splitUnits (buffer ++ chunk) := by
    funext buffer chunk
    exact pushBytes_eq_splitUnits buffer chunk
  rw [hstep]
  exact feed_eq_split isIncremental_splitUnits splitUnits_nil chunks

/-- Feeding a stream in any chunks, from an empty buffer, emits the access units
of the whole stream and keeps the same bytes; nothing after the first start code
is lost. -/
theorem feed_pushBytes (chunks : List Bytes) :
    feed pushBytes [] chunks = pushBytes [] chunks.flatten ∧
      ((feed pushBytes [] chunks).1.map AccessUnit.data).flatten ++
          (feed pushBytes [] chunks).2 =
        if (startCodes chunks.flatten).length < 2 then chunks.flatten
        else chunks.flatten.drop ((startCodes chunks.flatten).headD 0) := by
  rw [feed_eq_splitUnits, pushBytes_eq_splitUnits]
  exact ⟨rfl, flatten_splitUnits chunks.flatten⟩

end OmarchyConnect.Host
