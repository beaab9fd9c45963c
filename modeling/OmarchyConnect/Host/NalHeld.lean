/-
# What the splitter holds back

A NAL unit is closed by the start code after it, so the splitter learns of a new picture
only when the NAL unit that opens it is closed. Of the closed NAL units that it holds at
most one is a slice; the last NAL unit, still open, may be the slice of the next picture.
-/

import OmarchyConnect.Host.NalChunks

namespace OmarchyConnect.Host

open OmarchyConnect.Library.Wire OmarchyConnect.Library.Segments
open OmarchyConnect.Library.Incremental

/-- How many of the NAL units that begin at the given places are slices. A NAL unit whose
header byte has not arrived counts as none. -/
def vclCount (buf : Bytes) (starts : List ℕ) : ℕ :=
  starts.countP fun start => isVcl (nalType buf start)

/-- The types of segments laid out in a buffer are read off it. -/
theorem map_nalType_positions {buf tail : Bytes} {base : ℕ} (closed : List Bytes)
    (hbuf : buf.drop base = closed.flatten ++ tail)
    (hclosed : ∀ segment ∈ closed, startCode.length segment ≠ 0)
    (htail : startCode.length tail ≠ 0) :
    (positions base closed).map (nalType buf) = closed.map segmentKind := by
  induction closed generalizing base with
  | nil => rfl
  | cons segment closed ih =>
      have hlater : ∀ later ∈ closed, startCode.length later ≠ 0 :=
        fun later hmem => hclosed later (List.mem_cons_of_mem segment hmem)
      have hhere : buf.drop base = segment ++ (closed.flatten ++ tail) := by
        rw [hbuf, List.flatten_cons, List.append_assoc]
      have hnext : buf.drop (base + segment.length) = closed.flatten ++ tail := by
        rw [← List.drop_drop, hhere, List.drop_left]
      rw [positions, List.map_cons, List.map_cons, ih hnext hlater,
        nalType_eq_segmentKind hhere (hclosed segment List.mem_cons_self)
          (length_flatten_append_ne_zero hlater htail)]

theorem positions_concat (base : ℕ) (closed : List Bytes) (last : Bytes) :
    (positions base (closed ++ [last])).dropLast = positions base closed := by
  induction closed generalizing base with
  | nil => rfl
  | cons segment closed ih =>
      have hne : positions (base + segment.length) (closed ++ [last]) ≠ [] := by
        intro hnil
        have hlength := congrArg List.length hnil
        simp [length_positions] at hlength
      rw [List.cons_append, positions, positions, List.dropLast_cons_of_ne_nil hne, ih]

/-- The closed NAL units of a buffer are its closed segments. -/
theorem vclCount_closed {buf : Bytes} {closed : List Bytes} {last : Bytes}
    (hfound : segments startCode (marked startCode buf) = closed ++ [last]) :
    vclCount buf (startCodes buf).dropLast =
      closed.countP fun segment => isVcl (segmentKind segment) := by
  have hmarks : ∀ segment ∈ closed ++ [last], startCode.length segment ≠ 0 := by
    rw [← hfound]
    exact fun segment hmem => length_ne_zero_of_mem_segments startCode hmem
  have htypes := map_nalType_positions closed (drop_plain_eq hfound)
    (fun segment hmem => hmarks segment (List.mem_append_left _ hmem)) (hmarks last (by simp))
  rw [vclCount, startCodes_eq_positions, hfound, positions_concat]
  have hread : ∀ starts : List ℕ, (starts.countP fun start => isVcl (nalType buf start)) =
      (starts.map (nalType buf)).countP isVcl := by
    intro starts
    rw [List.countP_map]
    rfl
  rw [hread, htypes, List.countP_map]
  rfl

/-- What is kept has at most one slice among its closed NAL units. -/
theorem vclCount_splitUnits (held : Bytes) :
    vclCount (splitUnits held).2 (startCodes (splitUnits held).2).dropLast ≤ 1 := by
  by_cases hfew : (segments startCode (marked startCode held)).length < 2
  · rw [splitUnits_of_few hfew]
    have hnone : (startCodes held).dropLast = [] := by
      rw [← List.length_eq_zero_iff, List.length_dropLast, startCodes_eq_positions,
        length_positions]
      omega
    rw [hnone]
    exact Nat.zero_le 1
  · obtain ⟨closed, last, hne, hfound⟩ := exists_segments_eq hfew
    rw [splitUnits_of_segments hne hfound, vclCount_closed (segments_kept hfound),
      Grouping.vcl_current_run]
    cases (Grouping.run segmentKind closed).currentHasVcl <;> decide

/-- Whatever the chunks are, the buffer that is kept has at most two slices, and two only
when the second one is the last NAL unit, which no start code has closed. -/
theorem held_vclCount (chunks : List Bytes) :
    vclCount (feed pushBytes [] chunks).2 (startCodes (feed pushBytes [] chunks).2) ≤ 2 ∧
      vclCount (feed pushBytes [] chunks).2
        (startCodes (feed pushBytes [] chunks).2).dropLast ≤ 1 := by
  rw [feed_eq_splitUnits]
  have hclosed := vclCount_splitUnits chunks.flatten
  refine ⟨?_, hclosed⟩
  generalize (splitUnits chunks.flatten).2 = kept at hclosed ⊢
  cases hstarts : startCodes kept using List.reverseRecOn with
  | nil => exact Nat.zero_le 2
  | append_singleton starts last =>
      rw [hstarts, List.dropLast_concat] at hclosed
      rw [vclCount] at hclosed ⊢
      have hone : ([last].countP fun start => isVcl (nalType kept start)) ≤ 1 :=
        List.countP_le_length
      rw [List.countP_append]
      omega

/-- Two slices in short start codes: the second one is whole but not closed. -/
theorem twoSlices_held :
    ¬ ∀ chunks : List Bytes, vclCount (feed pushBytes [] chunks).2
      (startCodes (feed pushBytes [] chunks).2) ≤ 1 := by
  intro hall
  have htwo := hall [[0, 0, 1, 0x65, 9, 0, 0, 1, 0x41, 9]]
  revert htwo
  decide +kernel

end OmarchyConnect.Host
