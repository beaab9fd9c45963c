/-
# Which streams are split into their access units

The client decodes one access unit for each video message, so the splitter should
emit the access units of the encoder whole. It opens a group at an access unit
delimiter, at a sequence parameter set and at a second slice, and nowhere else.
A parameter set after a delimiter therefore splits its unit, and a picture that
is led by a picture parameter set or by SEI loses them to the unit before it. A
sequence parameter set also marks its unit as a keyframe, whatever slice follows.

`splits_iff` says exactly for which streams of access units none of this shows.
-/

import OmarchyConnect.Host.NalChunks

namespace OmarchyConnect.Host

open OmarchyConnect.Library.Wire OmarchyConnect.Library.Segments
open OmarchyConnect.Library.Incremental

/-! ## NAL units -/

/-- A NAL unit as an encoder writes it: a start code of three or four bytes, a
header byte, and a payload that contains no start code and does not end in 0. -/
structure Nal where
  longCode : Bool
  header : UInt8
  payload : Bytes
  payload_plain : ¬ [0, 0, 1] <:+: payload
  payload_end : payload.getLast? ≠ some 0

namespace Nal

/-- The NAL unit type. -/
def kind (nal : Nal) : UInt8 := nal.header &&& 0x1f

/-- The start code of a NAL. -/
def code (nal : Nal) : Bytes := if nal.longCode then [0, 0, 0, 1] else [0, 0, 1]

/-- A NAL with its start code. -/
def bytes (nal : Nal) : Bytes := nal.code ++ nal.header :: nal.payload

/-- The start code is found where it is. -/
theorem length_bytes (nal : Nal) : startCodeLength nal.bytes = nal.code.length := by
  unfold bytes code
  cases nal.longCode <;> simp

/-- The kind is read behind the start code. -/
theorem segmentKind_bytes (nal : Nal) : segmentKind nal.bytes = nal.kind := by
  unfold segmentKind bytes code kind
  cases nal.longCode <;> simp [nalType]

end Nal

/-- A body without start codes that does not end in 0 stays plain whatever
marked stream follows it. -/
theorem plain_append_eq {body rest : Bytes} (hplain : ¬ [0, 0, 1] <:+: body)
    (hend : body.getLast? ≠ some 0) (hrest : rest = [] ∨ startCode.length rest ≠ 0) :
    plain startCode (body ++ rest) = body := by
  induction body with
  | nil =>
      rcases hrest with rfl | hmark
      · rfl
      · exact plain_of_length_ne_zero startCode hmark
  | cons a body ih =>
      have hzero : startCode.length (a :: body ++ rest) = 0 := by
        by_contra hmark
        rcases startCodeLength_ne_zero hmark with ⟨more, hcode, -⟩ | ⟨more, hcode, -⟩
        · match body, hcode with
          | [], hcode =>
              obtain rfl : a = 0 := (List.cons.inj hcode).1
              exact hend rfl
          | [b], hcode =>
              simp only [List.cons_append, List.cons.injEq] at hcode
              exact hend (by simp [hcode.2.1])
          | b :: c :: body, hcode =>
              simp only [List.cons_append, List.cons.injEq] at hcode
              obtain ⟨rfl, rfl, rfl, -⟩ := hcode
              exact hplain ⟨[], body, rfl⟩
        · match body, hcode with
          | [], hcode =>
              obtain rfl : a = 0 := (List.cons.inj hcode).1
              exact hend rfl
          | [b], hcode =>
              simp only [List.cons_append, List.cons.injEq] at hcode
              exact hend (by simp [hcode.2.1])
          | [b, c], hcode =>
              simp only [List.cons_append, List.cons.injEq] at hcode
              exact hend (by simp [hcode.2.2.1])
          | b :: c :: d :: body, hcode =>
              simp only [List.cons_append, List.cons.injEq] at hcode
              obtain ⟨rfl, rfl, rfl, rfl, -⟩ := hcode
              exact hplain ⟨[0], body, rfl⟩
      have hbody : body.getLast? ≠ some 0 := by
        cases body with
        | nil => simp
        | cons b body => simpa using hend
      have htail : ¬ [0, 0, 1] <:+: body := fun hinner =>
        hplain (hinner.trans (List.suffix_cons a body).isInfix)
      rw [List.cons_append] at hzero ⊢
      rw [plain, if_pos hzero, ih htail hbody]

/-- A NAL unit is one segment of every stream it stands in. -/
theorem Nal.isSegment (nal : Nal) (hkind : nal.kind ≠ 0) : IsSegment startCode nal.bytes := by
  have hheader : nal.header ≠ 0 := by
    intro hzero
    exact hkind (by rw [Nal.kind, hzero]; decide)
  have hplain : ¬ [0, 0, 1] <:+: nal.header :: nal.payload := by
    rintro ⟨front, back, hsplit⟩
    cases front with
    | nil => exact hheader (List.cons.inj hsplit).1.symm
    | cons a front => exact nal.payload_plain ⟨front, back, (List.cons.inj hsplit).2⟩
  have hend : (nal.header :: nal.payload).getLast? ≠ some 0 := by
    have hpayload := nal.payload_end
    cases hshape : nal.payload with
    | nil => simpa using hheader
    | cons a payload => simpa [hshape] using hpayload
  refine ⟨?_, fun rest hrest => ?_⟩
  · rw [startCode_length, nal.length_bytes, Nal.code]
    cases nal.longCode <;> simp
  · rw [startCode_length, nal.length_bytes, Nal.bytes, List.append_assoc, List.drop_left,
      List.drop_left]
    exact plain_append_eq hplain hend hrest

/-! ## Access units of the encoder -/

/-- An access unit: a delimiter or none, any parameter sets and SEI, one slice. -/
structure CodedUnit where
  aud : Option Nal
  params : List Nal
  slice : Nal
  aud_kind : ∀ nal ∈ aud, nal.kind = 9
  params_kind : ∀ nal ∈ params, nal.kind = 7 ∨ nal.kind = 8 ∨ nal.kind = 6
  slice_kind : slice.kind = 1 ∨ slice.kind = 5

namespace CodedUnit

/-- What comes before the slice. -/
def lead (unit : CodedUnit) : List Nal := unit.aud.toList ++ unit.params

/-- The NALs of a unit. -/
def nals (unit : CodedUnit) : List Nal := unit.lead ++ [unit.slice]

/-- A unit as it stands in the stream. -/
def bytes (unit : CodedUnit) : Bytes := (unit.nals.map Nal.bytes).flatten

/-- Whether the slice is an IDR slice. -/
def isIdr (unit : CodedUnit) : Bool := unit.slice.kind == 5

/-- The access unit that should reach the client. -/
def accessUnit (unit : CodedUnit) : AccessUnit where
  keyframe := unit.isIdr
  data := unit.bytes

/-- Whether a sequence parameter set is among the parameter sets. -/
def hasSps (unit : CodedUnit) : Bool := unit.params.any fun nal => nal.kind == 7

/-- No sequence parameter set after the first NAL unit. -/
def SpsOnlyFirst (unit : CodedUnit) : Prop := ∀ nal ∈ unit.nals.tail, nal.kind ≠ 7

/-- The first NAL unit is neither a picture parameter set nor SEI. -/
def OpensGroup (unit : CodedUnit) : Prop :=
  ∀ nal ∈ unit.nals.head?, nal.kind ≠ 8 ∧ nal.kind ≠ 6

/-- The first NAL unit is a delimiter or a sequence parameter set. -/
def startsAtOnce (unit : CodedUnit) : Bool :=
  unit.lead.head?.any fun nal => nal.kind == 9 || nal.kind == 7

instance (unit : CodedUnit) : Decidable unit.SpsOnlyFirst :=
  inferInstanceAs (Decidable (∀ nal ∈ unit.nals.tail, nal.kind ≠ 7))

instance (unit : CodedUnit) : Decidable unit.OpensGroup :=
  inferInstanceAs (Decidable (∀ nal ∈ unit.nals.head?, nal.kind ≠ 8 ∧ nal.kind ≠ 6))

/-- What leads a unit is a delimiter, a parameter set or an enhancement. -/
theorem lead_kind (unit : CodedUnit) {nal : Nal} (h : nal ∈ unit.lead) :
    nal.kind = 9 ∨ nal.kind = 7 ∨ nal.kind = 8 ∨ nal.kind = 6 := by
  rcases List.mem_append.mp h with haud | hparams
  · exact Or.inl (unit.aud_kind nal (Option.mem_toList.mp haud))
  · exact Or.inr (unit.params_kind nal hparams)

/-- What leads a unit is no picture. -/
theorem lead_not_vcl (unit : CodedUnit) {nal : Nal} (h : nal ∈ unit.lead) :
    isVcl nal.kind = false := by
  rcases unit.lead_kind h with h | h | h | h <;> rw [h] <;> decide

/-- The slice of a unit is a picture. -/
theorem slice_vcl (unit : CodedUnit) : isVcl unit.slice.kind = true := by
  rcases unit.slice_kind with h | h <;> rw [h] <;> decide

/-- A delimiter stands only in front. -/
theorem tail_lead_ne_aud (unit : CodedUnit) {nal : Nal} (h : nal ∈ unit.lead.tail) :
    nal.kind ≠ 9 := by
  have hparams : nal ∈ unit.params := by
    cases haud : unit.aud with
    | none => exact List.mem_of_mem_tail (by simpa [lead, haud] using h)
    | some first => simpa [lead, haud] using h
  rcases unit.params_kind nal hparams with h | h | h <;> rw [h] <;> decide

/-- No NAL of a unit is of the kind zero. -/
theorem kind_ne_zero (unit : CodedUnit) {nal : Nal} (h : nal ∈ unit.nals) : nal.kind ≠ 0 := by
  rcases List.mem_append.mp h with hlead | hslice
  · rcases unit.lead_kind hlead with h | h | h | h <;> rw [h] <;> decide
  · obtain rfl := List.mem_singleton.mp hslice
    rcases unit.slice_kind with h | h <;> rw [h] <;> decide

end CodedUnit

/-- The byte stream of a list of access units. -/
def streamOf (units : List CodedUnit) : Bytes := (units.map CodedUnit.bytes).flatten

/-- The units that are complete when the stream ends. The last unit is open, and
the one before it stays open too unless the last one starts at once. -/
def completeUnits (units : List CodedUnit) : List CodedUnit :=
  if units.getLast?.any CodedUnit.startsAtOnce then units.dropLast else units.dropLast.dropLast

/-- The streams on which the splitter emits real access units. -/
structure SplitsCleanly (units : List CodedUnit) : Prop where
  /-- A sequence parameter set stands first in its unit. -/
  spsOnlyFirst : ∀ unit ∈ units, unit.SpsOnlyFirst
  /-- Between the first and the last unit none starts with a picture parameter set or SEI. -/
  opensGroup : ∀ unit ∈ units.tail.dropLast, unit.OpensGroup
  /-- A complete unit with a sequence parameter set carries an IDR slice. -/
  spsWithIdr : ∀ unit ∈ completeUnits units, unit.hasSps = true → unit.isIdr = true

/-! ## Grouping the NAL units of the encoder -/

/-- The NAL units of the stream. -/
def nalsOf (units : List CodedUnit) : List Nal := units.flatMap CodedUnit.nals

/-- The NAL units that are closed when the stream ends. -/
def closedNals (units : List CodedUnit) : List Nal := (nalsOf units).dropLast

/-- A unit has NALs. -/
theorem CodedUnit.nals_ne_nil (unit : CodedUnit) : unit.nals ≠ [] := by
  simp [CodedUnit.nals]

/-- Of the last unit what leads it is closed. -/
theorem closedNals_singleton (unit : CodedUnit) : closedNals [unit] = unit.lead := by
  simp [closedNals, nalsOf, CodedUnit.nals]

/-- Every unit but the last is closed as a whole. -/
theorem closedNals_cons_cons (unit next : CodedUnit) (later : List CodedUnit) :
    closedNals (unit :: next :: later) = unit.nals ++ closedNals (next :: later) := by
  have hne : nalsOf (next :: later) ≠ [] := by
    simp [nalsOf, next.nals_ne_nil]
  rw [closedNals, nalsOf, List.flatMap_cons]
  exact List.dropLast_append_of_ne_nil hne

/-- Around any of its units the closed stream shows all that leads the slice. -/
theorem closedNals_append_cons (front : List CodedUnit) (unit : CodedUnit)
    (back : List CodedUnit) :
    ∃ more, closedNals (front ++ unit :: back) = nalsOf front ++ (unit.lead ++ more) := by
  refine ⟨([unit.slice] ++ nalsOf back).dropLast, ?_⟩
  have hsplit : nalsOf (front ++ unit :: back) =
      (nalsOf front ++ unit.lead) ++ ([unit.slice] ++ nalsOf back) := by
    simp [nalsOf, CodedUnit.nals]
  rw [closedNals, hsplit, List.dropLast_append_of_ne_nil (by simp), List.append_assoc]

namespace CodedUnit

/-- Without a later sequence parameter set nothing after the first NAL unit of a
lead opens a group. -/
theorem quiet_tail_lead {unit : CodedUnit} (hsps : unit.SpsOnlyFirst) :
    ∀ nal ∈ unit.lead.tail, nal.kind ≠ 9 ∧ nal.kind ≠ 7 ∧ isVcl nal.kind = false := by
  intro nal hmem
  have htail : nal ∈ unit.nals.tail := by
    cases hlead : unit.lead with
    | nil => simp [hlead] at hmem
    | cons first lead =>
        have hlater : nal ∈ lead := by simpa [hlead] using hmem
        simp [nals, hlead, hlater]
  exact ⟨unit.tail_lead_ne_aud hmem, hsps nal htail,
    unit.lead_not_vcl (List.mem_of_mem_tail hmem)⟩

/-- A lead on its own stays one open group. -/
theorem run_lead {unit : CodedUnit} (hsps : unit.SpsOnlyFirst) :
    Grouping.run Nal.kind unit.lead =
      { groups := [], current := unit.lead, currentHasVcl := false } := by
  have hquiet := quiet_tail_lead hsps
  have hvcl : ∀ nal ∈ unit.lead, isVcl nal.kind = false := fun nal => unit.lead_not_vcl
  cases hlead : unit.lead with
  | nil => rfl
  | cons first lead =>
      rw [hlead] at hquiet hvcl
      have hfirst : Grouping.push Nal.kind {} first =
          { groups := [], current := [first], currentHasVcl := false } := by
        simp [Grouping.push, hvcl first (by simp)]
      rw [Grouping.run, List.foldl_cons, hfirst,
        Grouping.foldl_push_of_quiet Nal.kind _ lead hquiet]
      rfl

/-- A unit on its own stays one open group, with picture data in it. -/
theorem run_nals {unit : CodedUnit} (hsps : unit.SpsOnlyFirst) :
    Grouping.run Nal.kind unit.nals =
      { groups := [], current := unit.nals, currentHasVcl := true } := by
  have hslice : isBoundary unit.slice.kind false = false := by
    rcases unit.slice_kind with h | h <;> rw [h] <;> decide
  rw [nals, Grouping.run_append_singleton, run_lead hsps,
    Grouping.push_of_not_boundary _ _ (Or.inl hslice)]
  simp [unit.slice_vcl]

/-- Something that opens a group after a whole unit closes that unit. -/
theorem run_append_next {unit : CodedUnit} (hsps : unit.SpsOnlyFirst) {nal : Nal}
    (hnal : isBoundary nal.kind true = true) (later : List Nal) :
    Grouping.run Nal.kind (unit.nals ++ nal :: later) =
      (Grouping.run Nal.kind (nal :: later)).prepend [unit.nals] := by
  have halone := run_nals hsps
  have hboundary : isBoundary nal.kind (Grouping.run Nal.kind unit.nals).currentHasVcl = true := by
    rw [halone]
    exact hnal
  have hclosed := Grouping.run_append_of_boundary Nal.kind later unit.nals_ne_nil
    hboundary
  rw [hclosed, halone]
  rfl

/-- A lead that does not start at once joins the group of the unit before it. -/
theorem run_append_lead {unit next : CodedUnit} (hsps : unit.SpsOnlyFirst)
    (hnext : next.SpsOnlyFirst) (hlead : next.startsAtOnce = false) :
    Grouping.run Nal.kind (unit.nals ++ next.lead) =
      { groups := [], current := unit.nals ++ next.lead, currentHasVcl := true } := by
  have hquiet : ∀ nal ∈ next.lead, nal.kind ≠ 9 ∧ nal.kind ≠ 7 ∧ isVcl nal.kind = false := by
    have htail := quiet_tail_lead hnext
    have hvcl : ∀ nal ∈ next.lead, isVcl nal.kind = false := fun nal => next.lead_not_vcl
    cases hshape : next.lead with
    | nil => simp
    | cons first lead =>
        rw [hshape] at htail hvcl
        have hfirst : first.kind ≠ 9 ∧ first.kind ≠ 7 := by
          simpa [startsAtOnce, hshape] using hlead
        intro nal hmem
        rcases List.mem_cons.mp hmem with rfl | hlater
        · exact ⟨hfirst.1, hfirst.2, hvcl nal (by simp)⟩
        · exact htail nal hlater
  have halone := run_nals hsps
  rw [Grouping.run] at halone ⊢
  rw [List.foldl_append, halone, Grouping.foldl_push_of_quiet Nal.kind _ _ hquiet]

/-- A unit that starts at once starts with a delimiter or a parameter set. -/
theorem exists_lead_of_startsAtOnce {unit : CodedUnit} (h : unit.startsAtOnce = true) :
    ∃ nal lead, unit.lead = nal :: lead ∧ (nal.kind = 9 ∨ nal.kind = 7) := by
  cases hlead : unit.lead with
  | nil => simp [startsAtOnce, hlead] at h
  | cons nal lead => exact ⟨nal, lead, rfl, by simpa [startsAtOnce, hlead] using h⟩

/-- A unit that opens a group starts at a boundary. -/
theorem exists_nals_of_opensGroup {unit : CodedUnit} (h : unit.OpensGroup) :
    ∃ nal nals, unit.nals = nal :: nals ∧ isBoundary nal.kind true = true := by
  cases hlead : unit.lead with
  | nil =>
      refine ⟨unit.slice, [], by simp [nals, hlead], ?_⟩
      simp [isBoundary, unit.slice_vcl]
  | cons nal lead =>
      have hnals : unit.nals = nal :: (lead ++ [unit.slice]) := by simp [nals, hlead]
      refine ⟨nal, _, hnals, ?_⟩
      obtain ⟨hpps, hsei⟩ := h nal (by simp [hnals])
      rcases unit.lead_kind (by simp [hlead] : nal ∈ unit.lead) with hkind | hkind | hkind | hkind
      · rw [hkind]
        decide
      · rw [hkind]
        decide
      · exact absurd hkind hpps
      · exact absurd hkind hsei

/-- A unit that joins the one before it has a lead, and it does not start at
once. -/
theorem exists_lead_of_not_opensGroup {unit : CodedUnit} (h : ¬ unit.OpensGroup) :
    ∃ before previous, unit.lead = before ++ [previous] ∧ isVcl previous.kind = false ∧
      unit.startsAtOnce = false := by
  cases hlead : unit.lead with
  | nil =>
      refine absurd ?_ h
      intro nal hnal
      obtain rfl : unit.slice = nal := by simpa [nals, hlead] using hnal
      rcases unit.slice_kind with h | h <;> rw [h] <;> decide
  | cons first lead =>
      have hmem : ∀ nal ∈ first :: lead, isVcl nal.kind = false := by
        rw [← hlead]
        exact fun nal => unit.lead_not_vcl
      refine ⟨_, _, (List.dropLast_append_getLast (List.cons_ne_nil first lead)).symm,
        hmem _ (List.getLast_mem _), ?_⟩
      have hkind : first.kind = 8 ∨ first.kind = 6 := by
        by_contra hneither
        refine h fun nal hnal => ?_
        obtain rfl : first = nal := by simpa [nals, hlead] using hnal
        exact not_or.mp hneither
      rcases hkind with hkind | hkind <;> simp [startsAtOnce, hlead, hkind]

/-- A later sequence parameter set has a NAL unit without picture data before it. -/
theorem exists_split_of_sps (unit : CodedUnit) {nal : Nal} (hmem : nal ∈ unit.nals.tail)
    (hkind : nal.kind = 7) :
    ∃ before previous after, unit.lead = before ++ [previous] ++ nal :: after ∧
      isVcl previous.kind = false := by
  cases hlead : unit.lead with
  | nil => simp [nals, hlead] at hmem
  | cons first lead =>
      have hlater : nal ∈ lead := by
        rcases (by simpa [nals, hlead] using hmem : nal ∈ lead ∨ nal = unit.slice) with
          hlater | rfl
        · exact hlater
        · rcases unit.slice_kind with h | h <;> rw [hkind] at h <;> exact absurd h (by decide)
      obtain ⟨front, after, rfl⟩ := List.append_of_mem hlater
      have hne : first :: front ≠ [] := List.cons_ne_nil _ _
      refine ⟨(first :: front).dropLast, (first :: front).getLast hne, after, ?_, ?_⟩
      · rw [List.dropLast_append_getLast]
        rfl
      · refine unit.lead_not_vcl ?_
        rw [hlead, ← List.cons_append]
        exact List.mem_append_left _ (List.getLast_mem hne)

end CodedUnit

/-! ## What the splitter emits -/

/-- A unit is complete when two more have started. -/
theorem completeUnits_cons (unit next third : CodedUnit) (later : List CodedUnit) :
    completeUnits (unit :: next :: third :: later) =
      unit :: completeUnits (next :: third :: later) := by
  simp only [completeUnits, List.getLast?_cons_cons, List.dropLast_cons_cons]
  split_ifs <;> rfl

/-- Clean streams are grouped into their units. -/
theorem groups_closedNals : ∀ units : List CodedUnit,
    (∀ unit ∈ units, unit.SpsOnlyFirst) → (∀ unit ∈ units.tail.dropLast, unit.OpensGroup) →
      (Grouping.run Nal.kind (closedNals units)).groups =
        (completeUnits units).map CodedUnit.nals
  | [], _, _ => rfl
  | [unit], hsps, _ => by
      rw [closedNals_singleton, CodedUnit.run_lead (hsps unit (by simp))]
      simp [completeUnits]
  | [unit, last], hsps, _ => by
      have hunit := hsps unit (by simp)
      have hlast := hsps last (by simp)
      rw [closedNals_cons_cons, closedNals_singleton]
      cases hstart : last.startsAtOnce with
      | true =>
          obtain ⟨nal, lead, hlead, hkind⟩ := CodedUnit.exists_lead_of_startsAtOnce hstart
          have hopens : isBoundary nal.kind true = true := by
            rcases hkind with h | h <;> rw [h] <;> decide
          have halone := CodedUnit.run_lead hlast
          rw [hlead] at halone ⊢
          rw [CodedUnit.run_append_next hunit hopens, halone]
          simp [completeUnits, hstart, Grouping.prepend]
      | false =>
          rw [CodedUnit.run_append_lead hunit hlast hstart]
          simp [completeUnits, hstart]
  | unit :: next :: third :: later, hsps, hopens => by
      have hunit := hsps unit (by simp)
      have hlater := groups_closedNals (next :: third :: later)
        (fun other hmem => hsps other (List.mem_cons_of_mem unit hmem))
        (fun other hmem => hopens other (by simpa using Or.inr hmem))
      obtain ⟨nal, nals, hshape, hkind⟩ :=
        CodedUnit.exists_nals_of_opensGroup (hopens next (by simp))
      rw [closedNals_cons_cons] at hlater ⊢
      rw [closedNals_cons_cons]
      rw [hshape, List.cons_append] at hlater ⊢
      rw [CodedUnit.run_append_next hunit hkind]
      rw [completeUnits_cons, List.map_cons, ← hlater]
      rfl

/-- A window that closes something other than a whole unit is seen in the groups:
one of them does not end in a slice. -/
def EndInSlices (groups : List (List Nal)) : Prop :=
  ∀ group ∈ groups, ∀ nal ∈ group.getLast?, isVcl nal.kind = true

/-- A boundary behind something else than a picture does not end in slices. -/
theorem not_endInSlices_of_boundary {before : List Nal} {previous nal : Nal}
    (after : List Nal) (hprevious : isVcl previous.kind = false)
    (hboundary : isBoundary nal.kind
      (Grouping.run Nal.kind (before ++ [previous])).currentHasVcl = true) :
    ¬ EndInSlices (Grouping.run Nal.kind (before ++ [previous] ++ nal :: after)).groups := by
  intro hends
  obtain ⟨group, hgroup, hlast⟩ := Grouping.exists_group_of_boundary Nal.kind
    after hboundary
  have hvcl := hends group hgroup previous (by rw [hlast]; rfl)
  rw [hprevious] at hvcl
  exact Bool.false_ne_true hvcl

/-- A sequence parameter set inside a lead closes the NAL units before it. -/
theorem spsOnlyFirst_of_endInSlices {units : List CodedUnit}
    (hends : EndInSlices (Grouping.run Nal.kind (closedNals units)).groups) :
    ∀ unit ∈ units, unit.SpsOnlyFirst := by
  intro unit hunit nal hnal hkind
  obtain ⟨front, back, rfl⟩ := List.append_of_mem hunit
  obtain ⟨more, hclosed⟩ := closedNals_append_cons front unit back
  obtain ⟨before, previous, after, hlead, hprevious⟩ :=
    unit.exists_split_of_sps hnal hkind
  have hboundary : isBoundary nal.kind
      (Grouping.run Nal.kind (nalsOf front ++ before ++ [previous])).currentHasVcl = true := by
    simp [isBoundary, hkind]
  refine not_endInSlices_of_boundary (after ++ more) hprevious hboundary ?_
  have hwhole : closedNals (front ++ unit :: back) =
      nalsOf front ++ before ++ [previous] ++ nal :: (after ++ more) := by
    simp [hclosed, hlead]
  rwa [← hwhole]

/-- A middle unit that joins the unit before it is cut before its slice. -/
theorem opensGroup_of_endInSlices : ∀ units : List CodedUnit,
    (∀ unit ∈ units, unit.SpsOnlyFirst) →
      EndInSlices (Grouping.run Nal.kind (closedNals units)).groups →
        ∀ unit ∈ units.tail.dropLast, unit.OpensGroup
  | [], _, _ => by simp
  | [_], _, _ => by simp
  | [_, _], _, _ => by simp
  | unit :: next :: third :: later, hsps, hends => by
      have hunit := hsps unit (by simp)
      have hnextSps := hsps next (by simp)
      have hnext : next.OpensGroup := by
        by_contra hjoins
        obtain ⟨before, previous, hlead, hprevious, hstart⟩ :=
          CodedUnit.exists_lead_of_not_opensGroup hjoins
        have hjoined := CodedUnit.run_append_lead hunit hnextSps hstart
        have hboundary : isBoundary next.slice.kind
            (Grouping.run Nal.kind (unit.nals ++ before ++ [previous])).currentHasVcl = true := by
          rw [List.append_assoc, ← hlead, hjoined]
          simp [isBoundary, next.slice_vcl]
        refine not_endInSlices_of_boundary (closedNals (third :: later)) hprevious
          hboundary ?_
        have hwhole : closedNals (unit :: next :: third :: later) =
            unit.nals ++ before ++ [previous] ++ next.slice :: closedNals (third :: later) := by
          simp [closedNals_cons_cons, CodedUnit.nals, hlead]
        rwa [← hwhole]
      obtain ⟨nal, nals, hshape, hkind⟩ := CodedUnit.exists_nals_of_opensGroup hnext
      have hlater : EndInSlices
          (Grouping.run Nal.kind (closedNals (next :: third :: later))).groups := by
        rw [closedNals_cons_cons] at hends
        rw [closedNals_cons_cons] at hends ⊢
        rw [hshape, List.cons_append] at hends ⊢
        rw [CodedUnit.run_append_next hunit hkind] at hends
        exact fun group hgroup => hends group (by simp [Grouping.prepend, hgroup])
      have hopens := opensGroup_of_endInSlices (next :: third :: later)
        (fun other hmem => hsps other (List.mem_cons_of_mem unit hmem)) hlater
      intro other hmem
      rcases List.mem_cons.mp (by simpa using hmem : other ∈ next :: (third :: later).dropLast) with
        rfl | hmem
      · exact hnext
      · exact hopens other (by simpa using hmem)

/-- The access unit emitted for a complete unit of a clean stream. -/
def emittedUnit (unit : CodedUnit) : AccessUnit where
  keyframe := unit.hasSps || unit.isIdr
  data := unit.bytes

/-- The group of a unit is emitted as the unit. -/
theorem unitOfGroup_nals (unit : CodedUnit) :
    unitOfGroup (unit.nals.map Nal.bytes) = emittedUnit unit := by
  have haud : (unit.aud.toList.any fun nal => nal.kind == 5 || nal.kind == 7) = false := by
    refine List.any_eq_false.mpr fun nal hmem => ?_
    rw [unit.aud_kind nal (Option.mem_toList.mp hmem)]
    decide
  have hparams : (unit.params.any fun nal => nal.kind == 5 || nal.kind == 7) = unit.hasSps := by
    rw [CodedUnit.hasSps, Bool.eq_iff_iff, List.any_eq_true, List.any_eq_true]
    refine exists_congr fun nal => and_congr_right fun hmem => ?_
    rcases unit.params_kind nal hmem with h | h | h <;> rw [h] <;> decide
  have hslice : (unit.slice.kind == 5 || unit.slice.kind == 7) = unit.isIdr := by
    rw [CodedUnit.isIdr]
    rcases unit.slice_kind with h | h <;> rw [h] <;> decide
  have hkey : (unit.nals.any fun nal => nal.kind == 5 || nal.kind == 7) =
      (unit.hasSps || unit.isIdr) := by
    rw [CodedUnit.nals, CodedUnit.lead, List.any_append, List.any_append, haud, hparams]
    simp [hslice]
  have hsame : ((fun segment => segmentKind segment == 5 || segmentKind segment == 7) ∘
      Nal.bytes) = fun nal => nal.kind == 5 || nal.kind == 7 := by
    funext nal
    simp [Nal.segmentKind_bytes]
  rw [unitOfGroup, emittedUnit, List.any_map, hsame, hkey]
  rfl

/-- Each NAL is one segment of the stream. -/
theorem isSegment_of_mem_nalsOf (units : List CodedUnit) :
    ∀ part ∈ (nalsOf units).map Nal.bytes, IsSegment startCode part := by
  intro part hpart
  obtain ⟨nal, hnal, rfl⟩ := List.mem_map.mp hpart
  obtain ⟨unit, -, hmem⟩ := List.mem_flatMap.mp hnal
  exact nal.isSegment (unit.kind_ne_zero hmem)

/-- The stream is one NAL after another. -/
theorem streamOf_eq_flatten (units : List CodedUnit) :
    streamOf units = ((nalsOf units).map Nal.bytes).flatten := by
  induction units with
  | nil => rfl
  | cons unit units ih =>
      have hcons : nalsOf (unit :: units) = unit.nals ++ nalsOf units := rfl
      rw [hcons, List.map_append, List.flatten_append, ← ih]
      rfl

/-- The splitter finds the NAL units of the encoder. -/
theorem segments_streamOf (units : List CodedUnit) :
    segments startCode (marked startCode (streamOf units)) = (nalsOf units).map Nal.bytes := by
  have hparts := isSegment_of_mem_nalsOf units
  rw [streamOf_eq_flatten]
  rcases length_flatten_ne_zero startCode hparts with hnil | hmark
  · rw [hnil, marked, ← hnil, segments_flatten startCode hparts]
  · rw [marked_of_length_ne_zero startCode hmark, segments_flatten startCode hparts]

/-- What is emitted are the groups of the closed NAL units. -/
theorem splitUnits_streamOf (units : List CodedUnit) :
    (splitUnits (streamOf units)).1 =
      (Grouping.run Nal.kind (closedNals units)).groups.map
        fun group => unitOfGroup (group.map Nal.bytes) := by
  have hfound := segments_streamOf units
  have hkind : (fun nal : Nal => segmentKind nal.bytes) = Nal.kind := by
    funext nal
    exact nal.segmentKind_bytes
  by_cases hfew : (segments startCode (marked startCode (streamOf units))).length < 2
  · have hclosed : closedNals units = [] := by
      rw [hfound, List.length_map] at hfew
      refine List.eq_nil_of_length_eq_zero ?_
      rw [closedNals, List.length_dropLast]
      omega
    rw [splitUnits_of_few hfew, hclosed]
    rfl
  · have hgroups := Grouping.run_map segmentKind Nal.bytes (closedNals units)
    rw [hkind, closedNals, List.map_dropLast, ← hfound] at hgroups
    simp only [splitUnits, if_neg hfew, hgroups, Grouping.map, List.map_map]
    rfl

/-- The completely clean case: what is emitted are the complete units. -/
theorem splitUnits_eq_completeUnits {units : List CodedUnit}
    (hsps : ∀ unit ∈ units, unit.SpsOnlyFirst)
    (hopens : ∀ unit ∈ units.tail.dropLast, unit.OpensGroup) :
    (splitUnits (streamOf units)).1 = (completeUnits units).map emittedUnit := by
  rw [splitUnits_streamOf, groups_closedNals units hsps hopens, List.map_map]
  exact List.map_congr_left fun unit _ => unitOfGroup_nals unit

/-- Bytes that are one of the units of the encoder end in its slice. -/
theorem endInSlices_of_prefix {units : List CodedUnit}
    (h : (splitUnits (streamOf units)).1 <+: units.map CodedUnit.accessUnit) :
    EndInSlices (Grouping.run Nal.kind (closedNals units)).groups := by
  intro group hgroup nal hnal
  rw [splitUnits_streamOf] at h
  have hemitted := h.subset (List.mem_map_of_mem hgroup)
  obtain ⟨unit, hunit, hsame⟩ := List.mem_map.mp hemitted
  have hdata : (unit.nals.map Nal.bytes).flatten = (group.map Nal.bytes).flatten :=
    congrArg AccessUnit.data hsame
  have hnals : ∀ part ∈ unit.nals.map Nal.bytes, IsSegment startCode part := by
    intro part hpart
    obtain ⟨other, hother, rfl⟩ := List.mem_map.mp hpart
    exact isSegment_of_mem_nalsOf units _
      (List.mem_map_of_mem (List.mem_flatMap.mpr ⟨unit, hunit, hother⟩))
  have hparts : ∀ part ∈ group.map Nal.bytes, IsSegment startCode part := by
    intro part hpart
    obtain ⟨other, hother, rfl⟩ := List.mem_map.mp hpart
    refine isSegment_of_mem_nalsOf units _ (List.mem_map_of_mem ?_)
    have hall := Grouping.flatten_run Nal.kind (closedNals units)
    have hclosed : other ∈ closedNals units := by
      rw [← hall]
      exact List.mem_append_left _ (List.mem_flatten.mpr ⟨group, hgroup, hother⟩)
    exact List.mem_of_mem_dropLast hclosed
  have hcut : unit.nals.map Nal.bytes = group.map Nal.bytes := by
    rw [← segments_flatten startCode hnals, hdata, segments_flatten startCode hparts]
  have hlast := congrArg (fun parts => parts.getLast?.map segmentKind) hcut
  simp only [CodedUnit.nals, List.map_append, List.map_singleton, List.getLast?_concat,
    Option.map_some, List.getLast?_map, Option.mem_def.mp hnal, Nal.segmentKind_bytes,
    Option.some.injEq] at hlast
  rw [← hlast]
  exact unit.slice_vcl

/-- The complete units are the first ones. -/
theorem completeUnits_isPrefix (units : List CodedUnit) : completeUnits units <+: units := by
  unfold completeUnits
  split_ifs
  · exact List.dropLast_prefix units
  · exact (List.dropLast_prefix _).trans (List.dropLast_prefix units)

/-- The splitter emits real access units, whole, in order and with a truthful
keyframe flag, on exactly the clean streams. -/
theorem splits_iff (units : List CodedUnit) :
    (∀ chunks : List Bytes, chunks.flatten = streamOf units →
      (feed pushBytes [] chunks).1 <+: units.map CodedUnit.accessUnit) ↔
        SplitsCleanly units := by
  have hfeed : (∀ chunks : List Bytes, chunks.flatten = streamOf units →
      (feed pushBytes [] chunks).1 <+: units.map CodedUnit.accessUnit) ↔
        (splitUnits (streamOf units)).1 <+: units.map CodedUnit.accessUnit := by
    constructor
    · intro hall
      have hone := hall [streamOf units] (by simp)
      rwa [feed_eq_splitUnits, List.flatten_singleton] at hone
    · intro hone chunks hchunks
      rwa [feed_eq_splitUnits, hchunks]
  obtain ⟨rest, hrest⟩ := completeUnits_isPrefix units
  rw [hfeed]
  constructor
  · intro hemitted
    have hends := endInSlices_of_prefix hemitted
    have hsps := spsOnlyFirst_of_endInSlices hends
    have hopens := opensGroup_of_endInSlices units hsps hends
    refine ⟨hsps, hopens, fun unit hunit hhas => ?_⟩
    -- Both lists start with the complete units, so they agree on each of them.
    rw [splitUnits_eq_completeUnits hsps hopens] at hemitted
    have hcomplete : (completeUnits units).map emittedUnit =
        (completeUnits units).map CodedUnit.accessUnit := by
      refine List.IsPrefix.eq_of_length ?_ (by simp)
      refine List.prefix_of_prefix_length_le hemitted ?_ (by simp)
      exact ⟨rest.map CodedUnit.accessUnit, by rw [← List.map_append, hrest]⟩
    have hflag := congrArg AccessUnit.keyframe (List.map_inj_left.mp hcomplete unit hunit)
    simpa [emittedUnit, CodedUnit.accessUnit, hhas] using hflag.symm
  · intro hclean
    rw [splitUnits_eq_completeUnits hclean.spsOnlyFirst hclean.opensGroup]
    have hflags : (completeUnits units).map emittedUnit =
        (completeUnits units).map CodedUnit.accessUnit := by
      refine List.map_congr_left fun unit hunit => ?_
      have hidr := hclean.spsWithIdr unit hunit
      have hkey : (unit.hasSps || unit.isIdr) = unit.isIdr := by
        cases hhas : unit.hasSps with
        | false => rfl
        | true => simp [hidr hhas]
      rw [emittedUnit, CodedUnit.accessUnit, hkey]
    rw [hflags]
    exact ⟨rest.map CodedUnit.accessUnit, by rw [← List.map_append, hrest]⟩

/-- The usual keyframe of a hardware encoder: delimiter, both parameter sets and
an IDR slice. -/
def delimitedKeyframe : CodedUnit where
  aud := some ⟨true, 0x09, [0x10], by decide, by decide⟩
  params := [⟨true, 0x67, [0x64], by decide, by decide⟩, ⟨true, 0x68, [0xee], by decide, by decide⟩]
  slice := ⟨false, 0x65, [0x88], by decide, by decide⟩
  aud_kind := by decide
  params_kind := by decide
  slice_kind := by decide

/-- Its delimiter is emitted alone and its other NAL units without it. -/
theorem delimitedKeyframe_not_split :
    ¬ ∀ chunks : List Bytes, chunks.flatten = streamOf [delimitedKeyframe, delimitedKeyframe] →
      (feed pushBytes [] chunks).1 <+:
        [delimitedKeyframe, delimitedKeyframe].map CodedUnit.accessUnit := by
  intro hall
  have hone := hall [streamOf [delimitedKeyframe, delimitedKeyframe]] (by simp)
  revert hone
  decide +kernel

end OmarchyConnect.Host
