/-
# The splitter on segments

`pushBytes` works with indices into a buffer that it drains. Seen as data, the
grouping loop runs over the closed segments of the buffer, and what it keeps are
the segments of the open group with the open segment. `splitUnits` says this
without indices, and `pushBytes_eq_splitUnits` proves that it is what the code
computes.
-/

import OmarchyConnect.Host.NalSegments

namespace OmarchyConnect.Host

open OmarchyConnect.Library.Wire OmarchyConnect.Library.Segments

/-! ## The grouping loop -/

namespace Grouping

variable {ω : Type} (kind : ω → UInt8)

/-- A boundary closes the group in front of it. -/
theorem push_of_boundary (state : Grouping ω) {window : ω}
    (hboundary : isBoundary (kind window) state.currentHasVcl = true)
    (hcurrent : state.current ≠ []) :
    state.push kind window =
      { groups := state.groups ++ [state.current]
        current := [window]
        currentHasVcl := isVcl (kind window) } := by
  simp [push, hboundary, hcurrent]

/-- Without a boundary the group goes on. -/
theorem push_of_not_boundary (state : Grouping ω) {window : ω}
    (h : isBoundary (kind window) state.currentHasVcl = false ∨ state.current = []) :
    state.push kind window =
      { groups := state.groups
        current := state.current ++ [window]
        currentHasVcl := state.currentHasVcl || isVcl (kind window) } := by
  rcases h with hboundary | hcurrent
  · simp [push, hboundary]
  · simp [push, hcurrent]

/-- Every window opens a new group or joins the current one. -/
theorem push_cases (state : Grouping ω) (window : ω) :
    (isBoundary (kind window) state.currentHasVcl = true ∧ state.current ≠ [] ∧
      state.push kind window =
        { groups := state.groups ++ [state.current]
          current := [window]
          currentHasVcl := isVcl (kind window) }) ∨
    ((isBoundary (kind window) state.currentHasVcl = false ∨ state.current = []) ∧
      state.push kind window =
        { groups := state.groups
          current := state.current ++ [window]
          currentHasVcl := state.currentHasVcl || isVcl (kind window) }) := by
  by_cases hcurrent : state.current = []
  · exact Or.inr ⟨Or.inr hcurrent, push_of_not_boundary kind state (Or.inr hcurrent)⟩
  · cases hboundary : isBoundary (kind window) state.currentHasVcl with
    | true => exact Or.inl ⟨rfl, hcurrent, push_of_boundary kind state hboundary hcurrent⟩
    | false => exact Or.inr ⟨Or.inl rfl, push_of_not_boundary kind state (Or.inl hboundary)⟩

/-- The loop over a list of windows, from the start. -/
def run (windows : List ω) : Grouping ω := windows.foldl (push kind) {}

/-- Without windows there are no groups. -/
@[simp]
theorem run_nil : run kind ([] : List ω) = {} := rfl

/-- One more window is pushed. -/
theorem run_append_singleton (windows : List ω) (window : ω) :
    run kind (windows ++ [window]) = (run kind windows).push kind window := by
  simp [run]

/-- No window is lost or moved. -/
theorem flatten_run (windows : List ω) :
    (run kind windows).groups.flatten ++ (run kind windows).current = windows := by
  induction windows using List.reverseRecOn with
  | nil => rfl
  | append_singleton windows window ih =>
      rw [run_append_singleton]
      rcases push_cases kind (run kind windows) window with ⟨-, -, hpush⟩ | ⟨-, hpush⟩
      · rw [hpush]
        simp only [List.flatten_append, List.flatten_singleton, ih]
      · rw [hpush, ← List.append_assoc, ih]

/-- Behind a window there is an open group. -/
theorem current_run_ne_nil {windows : List ω} (h : windows ≠ []) :
    (run kind windows).current ≠ [] := by
  induction windows using List.reverseRecOn with
  | nil => exact absurd rfl h
  | append_singleton windows window ih =>
      rw [run_append_singleton]
      rcases push_cases kind (run kind windows) window with ⟨-, -, hpush⟩ | ⟨-, hpush⟩ <;>
        simp [hpush]

/-- A closed group is not empty. -/
theorem ne_nil_of_mem_groups {windows group : List ω} (h : group ∈ (run kind windows).groups) :
    group ≠ [] := by
  induction windows using List.reverseRecOn with
  | nil => simp at h
  | append_singleton windows window ih =>
      rw [run_append_singleton] at h
      rcases push_cases kind (run kind windows) window with ⟨-, hcurrent, hpush⟩ | ⟨-, hpush⟩
      · rw [hpush, List.mem_append, List.mem_singleton] at h
        rcases h with hmem | rfl
        · exact ih hmem
        · exact hcurrent
      · rw [hpush] at h
        exact ih h

/-- The open group has at most one picture, and none until the flag says so. -/
theorem vcl_current_run (windows : List ω) :
    ((run kind windows).current.countP fun window => isVcl (kind window)) =
      (run kind windows).currentHasVcl.toNat := by
  induction windows using List.reverseRecOn with
  | nil => rfl
  | append_singleton windows window ih =>
      rw [run_append_singleton]
      rcases push_cases kind (run kind windows) window with ⟨-, -, hpush⟩ | ⟨hjoin, hpush⟩
      · rw [hpush]
        cases hvcl : isVcl (kind window) <;> simp [hvcl]
      · rw [hpush]
        simp only [List.countP_append, ih, List.countP_singleton]
        -- A picture joins only a group without one.
        cases hvcl : isVcl (kind window) with
        | false => simp
        | true =>
            have hnone : (run kind windows).currentHasVcl = false := by
              cases hjoin with
              | inl hquiet =>
                  simp only [isBoundary, hvcl, Bool.or_eq_false_iff, Bool.true_and] at hquiet
                  exact hquiet.2
              | inr hnil =>
                  rw [hnil] at ih
                  simpa using ih.symm
            simp [hnone]

/-- Running over the open group alone rebuilds it, with nothing closed. -/
theorem run_current (windows : List ω) :
    run kind (run kind windows).current =
      { groups := []
        current := (run kind windows).current
        currentHasVcl := (run kind windows).currentHasVcl } := by
  induction windows using List.reverseRecOn with
  | nil => rfl
  | append_singleton windows window ih =>
      rw [run_append_singleton]
      rcases push_cases kind (run kind windows) window with ⟨-, -, hpush⟩ | ⟨hjoin, hpush⟩
      · rw [hpush]
        show run kind [window] = _
        simp [run, push]
      · rw [hpush, run_append_singleton, ih]
        exact push_of_not_boundary kind _ hjoin

/-- The same state with groups that were closed before it. -/
def prepend (closed : List (List ω)) (state : Grouping ω) : Grouping ω :=
  { state with groups := closed ++ state.groups }

/-- Groups that are closed already do not influence the loop. -/
theorem push_prepend (closed : List (List ω)) (state : Grouping ω) (window : ω) :
    (state.prepend closed).push kind window = (state.push kind window).prepend closed := by
  rcases push_cases kind state window with ⟨hboundary, hcurrent, hpush⟩ | ⟨hjoin, hpush⟩
  · rw [hpush, push_of_boundary kind (state.prepend closed) hboundary hcurrent]
    simp [prepend]
  · rw [hpush, push_of_not_boundary kind (state.prepend closed) hjoin]
    rfl

/-- Groups that are closed already stay in front. -/
theorem foldl_push_prepend (closed : List (List ω)) (state : Grouping ω) (windows : List ω) :
    windows.foldl (push kind) (state.prepend closed) =
      (windows.foldl (push kind) state).prepend closed := by
  induction windows generalizing state with
  | nil => rfl
  | cons window windows ih => rw [List.foldl_cons, List.foldl_cons, push_prepend, ih]

/-- The loop can start over from the open group. -/
theorem run_append (first second : List ω) :
    run kind (first ++ second) =
      (run kind ((run kind first).current ++ second)).prepend (run kind first).groups := by
  have hresume : run kind first =
      (run kind (run kind first).current).prepend (run kind first).groups := by
    rw [run_current]
    simp [prepend]
  calc
    run kind (first ++ second) = second.foldl (push kind) (run kind first) := by
      simp [run]
    _ = (second.foldl (push kind) (run kind (run kind first).current)).prepend
          (run kind first).groups := by
      rw [← foldl_push_prepend, ← hresume]
    _ = (run kind ((run kind first).current ++ second)).prepend (run kind first).groups := by
      simp [run]

/-- Windows that open nothing all join the open group. -/
theorem foldl_push_of_quiet (state : Grouping ω) (windows : List ω)
    (hquiet : ∀ window ∈ windows,
      kind window ≠ 9 ∧ kind window ≠ 7 ∧ isVcl (kind window) = false) :
    windows.foldl (push kind) state =
      { state with current := state.current ++ windows } := by
  induction windows generalizing state with
  | nil => simp
  | cons window windows ih =>
      obtain ⟨haud, hsps, hvcl⟩ := hquiet window (by simp)
      have hjoin : isBoundary (kind window) state.currentHasVcl = false := by
        simp [isBoundary, haud, hsps, hvcl]
      rw [List.foldl_cons, push_of_not_boundary kind state (Or.inl hjoin),
        ih _ fun later hlater => hquiet later (by simp [hlater])]
      simp [hvcl]

/-- A window that opens a group closes the current one; the loop goes on as from
the start. -/
theorem run_append_of_boundary {before : List ω} {window : ω} (after : List ω) (hne : before ≠ [])
    (hboundary : isBoundary (kind window) (run kind before).currentHasVcl = true) :
    run kind (before ++ window :: after) =
      (run kind (window :: after)).prepend
        ((run kind before).groups ++ [(run kind before).current]) := by
  have hopened := push_of_boundary kind _ hboundary (current_run_ne_nil kind hne)
  have hfresh : push kind {} window =
      { groups := [], current := [window], currentHasVcl := isVcl (kind window) } := by
    simp [push]
  calc
    run kind (before ++ window :: after) =
        after.foldl (push kind) ((run kind before).push kind window) := by
      simp [run]
    _ = after.foldl (push kind) ((push kind {} window).prepend
          ((run kind before).groups ++ [(run kind before).current])) := by
      rw [hopened, hfresh]
      simp [prepend]
    _ = (run kind (window :: after)).prepend
          ((run kind before).groups ++ [(run kind before).current]) := by
      rw [foldl_push_prepend]
      rfl

/-- The last window is in the open group. -/
theorem getLast?_current_run (before : List ω) (previous : ω) :
    (run kind (before ++ [previous])).current.getLast? = some previous := by
  rw [run_append_singleton]
  rcases push_cases kind (run kind before) previous with ⟨-, -, hpush⟩ | ⟨-, hpush⟩ <;>
    simp [hpush]

/-- The group that is closed ends in the window before. -/
theorem exists_group_of_boundary {before : List ω} {previous window : ω} (after : List ω)
    (hboundary : isBoundary (kind window)
      (run kind (before ++ [previous])).currentHasVcl = true) :
    ∃ group ∈ (run kind (before ++ [previous] ++ window :: after)).groups,
      group.getLast? = some previous := by
  refine ⟨(run kind (before ++ [previous])).current, ?_, getLast?_current_run kind _ _⟩
  rw [run_append_of_boundary kind after (by simp) hboundary]
  simp [prepend]

/-- The same grouping with its windows renamed. -/
def map {ω' : Type} (f : ω → ω') (state : Grouping ω) : Grouping ω' where
  groups := state.groups.map (List.map f)
  current := state.current.map f
  currentHasVcl := state.currentHasVcl

/-- Grouping looks at the kinds only. -/
theorem run_map {ω' : Type} (f : ω' → ω) (windows : List ω') :
    run kind (windows.map f) = (run (fun window => kind (f window)) windows).map f := by
  induction windows using List.reverseRecOn with
  | nil => rfl
  | append_singleton windows window ih =>
      rw [List.map_append, List.map_singleton, run_append_singleton, run_append_singleton, ih]
      rcases push_cases (fun window => kind (f window))
          (run (fun window => kind (f window)) windows)
        window with ⟨hboundary, hcurrent, hpush⟩ | ⟨hjoin, hpush⟩
      · rw [hpush, push_of_boundary kind (map f _) hboundary (by simpa [map] using hcurrent)]
        simp [map]
      · rw [hpush, push_of_not_boundary kind (map f _) (by simpa [map] using hjoin)]
        simp [map]

end Grouping

/-! ## Groups in the buffer -/

/-- The windows of groups of segments laid out from `base`. -/
def groupSpans (base : ℕ) : List (List Bytes) → List (List (ℕ × ℕ))
  | [] => []
  | group :: groups => spans base group :: groupSpans (base + group.flatten.length) groups

/-- The spans of groups one after another. -/
theorem groupSpans_append (base : ℕ) (first second : List (List Bytes)) :
    groupSpans base (first ++ second) =
      groupSpans base first ++ groupSpans (base + first.flatten.flatten.length) second := by
  induction first generalizing base with
  | nil => simp [groupSpans]
  | cons group groups ih => simp [groupSpans, ih, Nat.add_assoc]

/-- The grouping state of the source for a grouping state of segments. -/
def locate (base : ℕ) (state : Grouping Bytes) : Grouping (ℕ × ℕ) where
  groups := groupSpans base state.groups
  current := spans (base + state.groups.flatten.flatten.length) state.current
  currentHasVcl := state.currentHasVcl

/-- There are spans just when there are segments. -/
theorem spans_eq_nil_iff (base : ℕ) (segments : List Bytes) :
    spans base segments = [] ↔ segments = [] := by
  cases segments <;> simp [spans]

/-- A turn of the loop on the window after a located state locates the turn on
the segment in that window. -/
theorem push_locate {kind : ℕ × ℕ → UInt8} {state : Grouping Bytes} {segment : Bytes}
    {base start : ℕ}
    (hstart : start = base + state.groups.flatten.flatten.length + state.current.flatten.length)
    (hkind : kind (start, start + segment.length) = segmentKind segment) :
    (locate base state).push kind (start, start + segment.length) =
      locate base (state.push segmentKind segment) := by
  rcases Grouping.push_cases segmentKind state segment with
    ⟨hboundary, hcurrent, hpush⟩ | ⟨hjoin, hpush⟩
  · have hopen : isBoundary (kind (start, start + segment.length))
        (locate base state).currentHasVcl = true := by
      rw [hkind]
      exact hboundary
    have hne : (locate base state).current ≠ [] :=
      fun hnil => hcurrent ((spans_eq_nil_iff _ _).mp hnil)
    have hnext : base + (state.groups ++ [state.current]).flatten.flatten.length = start := by
      rw [hstart]
      simp [Nat.add_assoc]
    rw [hpush, Grouping.push_of_boundary _ _ hopen hne, hkind, locate, locate, hnext,
      groupSpans_append]
    rfl
  · have hsame : isBoundary (kind (start, start + segment.length))
        (locate base state).currentHasVcl = false ∨ (locate base state).current = [] := by
      rw [hkind]
      exact hjoin.imp id fun hnil => (spans_eq_nil_iff _ _).mpr hnil
    rw [hpush, Grouping.push_of_not_boundary _ _ hsame, hkind, locate, locate, spans_append,
      ← hstart]
    rfl

/-- The loop over windows and the loop over segments go in step. -/
theorem run_spans {buf tail : Bytes} {base : ℕ} (closed : List Bytes)
    (hbuf : buf.drop base = closed.flatten ++ tail)
    (hclosed : ∀ segment ∈ closed, startCode.length segment ≠ 0)
    (htail : startCode.length tail ≠ 0) :
    Grouping.run (fun window : ℕ × ℕ => nalType buf window.1) (spans base closed) =
      locate base (Grouping.run segmentKind closed) := by
  induction closed using List.reverseRecOn generalizing tail with
  | nil => rfl
  | append_singleton closed segment ih =>
      have hsegment := hclosed segment (by simp)
      have hfront : ∀ earlier ∈ closed, startCode.length earlier ≠ 0 :=
        fun earlier hmem => hclosed earlier (by simp [hmem])
      have hlater : startCode.length (segment ++ tail) ≠ 0 := by
        rw [startCode.length_append _ _ hsegment]
        exact hsegment
      have hwhole : buf.drop base = closed.flatten ++ (segment ++ tail) := by
        simpa using hbuf
      have hhere : buf.drop (base + closed.flatten.length) = segment ++ tail := by
        rw [← List.drop_drop, hwhole, List.drop_left]
      have hstart : base + closed.flatten.length =
          base + (Grouping.run segmentKind closed).groups.flatten.flatten.length +
            (Grouping.run segmentKind closed).current.flatten.length := by
        conv_lhs => rw [← Grouping.flatten_run segmentKind closed]
        rw [List.flatten_append, List.length_append, Nat.add_assoc]
      rw [spans_append, spans, spans, Grouping.run_append_singleton,
        Grouping.run_append_singleton, ih hwhole hfront hlater]
      exact push_locate hstart (nalType_eq_segmentKind hhere hsegment htail)

/-! ## The splitter without indices -/

/-- The access unit of a group of segments. -/
def unitOfGroup (group : List Bytes) : AccessUnit where
  keyframe := group.any fun segment => segmentKind segment == 5 || segmentKind segment == 7
  data := group.flatten

/-- Cut what the buffer holds at its start codes, emit the closed groups, keep
the open group and the open segment. -/
def splitUnits (held : Bytes) : List AccessUnit × Bytes :=
  let found := segments startCode (marked startCode held)
  if found.length < 2 then ([], held)
  else
    let state := Grouping.run segmentKind found.dropLast
    (state.groups.map unitOfGroup, state.current.flatten ++ found.getLastD [])

/-- The first span starts at the base. -/
theorem head?_spans (base : ℕ) {group : List Bytes} (h : group ≠ []) :
    ∃ stop, (spans base group).head? = some (base, stop) := by
  cases group with
  | nil => exact absurd rfl h
  | cons segment group => exact ⟨_, rfl⟩

/-- The last span ends with the group. -/
theorem getLast?_spans (base : ℕ) {group : List Bytes} (h : group ≠ []) :
    ∃ start, (spans base group).getLast? = some (start, base + group.flatten.length) := by
  induction group using List.reverseRecOn with
  | nil => exact absurd rfl h
  | append_singleton group segment ih =>
      refine ⟨base + group.flatten.length, ?_⟩
      rw [spans_append]
      simp [spans, Nat.add_assoc]

/-- Types are read off a group of the buffer as off its segments. -/
theorem any_spans (p : UInt8 → Bool) {buf tail : Bytes} {base : ℕ} (group : List Bytes)
    (hbuf : buf.drop base = group.flatten ++ tail)
    (hgroup : ∀ segment ∈ group, startCode.length segment ≠ 0)
    (htail : startCode.length tail ≠ 0) :
    ((spans base group).any fun window => p (nalType buf window.1)) =
      group.any fun segment => p (segmentKind segment) := by
  induction group generalizing base with
  | nil => rfl
  | cons segment group ih =>
      have hlater : ∀ later ∈ group, startCode.length later ≠ 0 :=
        fun later hmem => hgroup later (by simp [hmem])
      have hwhole : buf.drop base = segment ++ (group.flatten ++ tail) := by
        simpa using hbuf
      have hkind : nalType buf base = segmentKind segment :=
        nalType_eq_segmentKind hwhole (hgroup segment (by simp))
          (length_flatten_append_ne_zero hlater htail)
      have hnext : buf.drop (base + segment.length) = group.flatten ++ tail := by
        rw [← List.drop_drop, hwhole, List.drop_left]
      rw [spans, List.any_cons, List.any_cons, hkind, ih hnext hlater]

/-- A group is emitted as its bytes. -/
theorem unitOf_spans {buf tail : Bytes} {base : ℕ} {group : List Bytes} (hne : group ≠ [])
    (hbuf : buf.drop base = group.flatten ++ tail)
    (hgroup : ∀ segment ∈ group, startCode.length segment ≠ 0)
    (htail : startCode.length tail ≠ 0) :
    unitOf buf (spans base group) = some (unitOfGroup group) := by
  obtain ⟨stop, hhead⟩ := head?_spans base hne
  obtain ⟨start, hlast⟩ := getLast?_spans base hne
  have hdata : (buf.drop base).take (base + group.flatten.length - base) = group.flatten := by
    rw [hbuf, Nat.add_sub_cancel_left, List.take_left]
  have hnonempty : group.flatten ≠ [] := by
    obtain ⟨segment, rest, rfl⟩ := List.exists_cons_of_ne_nil hne
    have hsegment := ne_nil_of_length_ne_zero startCode (hgroup segment (by simp))
    simp [hsegment]
  have hkey := any_spans (fun kind => kind == 5 || kind == 7) group hbuf hgroup htail
  simp only [unitOf, hhead, hlast, hdata, hkey]
  simp [hnonempty, unitOfGroup]

/-- Groups are emitted one after another. -/
theorem filterMap_unitOf_groupSpans {buf tail : Bytes} {base : ℕ} (groups : List (List Bytes))
    (hne : ∀ group ∈ groups, group ≠ [])
    (hbuf : buf.drop base = groups.flatten.flatten ++ tail)
    (hgroups : ∀ segment ∈ groups.flatten, startCode.length segment ≠ 0)
    (htail : startCode.length tail ≠ 0) :
    (groupSpans base groups).filterMap (unitOf buf) = groups.map unitOfGroup := by
  induction groups generalizing base with
  | nil => rfl
  | cons group groups ih =>
      have hlater : ∀ segment ∈ groups.flatten, startCode.length segment ≠ 0 :=
        fun segment hmem => hgroups segment (by simp [List.mem_flatten.mp hmem])
      have hgroup : ∀ segment ∈ group, startCode.length segment ≠ 0 :=
        fun segment hmem => hgroups segment (by simp [hmem])
      have hwhole : buf.drop base = group.flatten ++ (groups.flatten.flatten ++ tail) := by
        simpa using hbuf
      have hnext : buf.drop (base + group.flatten.length) = groups.flatten.flatten ++ tail := by
        rw [← List.drop_drop, hwhole, List.drop_left]
      have hunit := unitOf_spans (hne group (by simp)) hwhole hgroup
        (length_flatten_append_ne_zero hlater htail)
      rw [groupSpans, List.filterMap_cons, hunit,
        ih (fun later hmem => hne later (by simp [hmem])) hnext hlater, List.map_cons]

/-- What is held splits into its plain prefix and its segments. -/
theorem drop_plain_eq {held : Bytes} {closed : List Bytes} {last : Bytes}
    (hfound : segments startCode (marked startCode held) = closed ++ [last]) :
    held.drop (plain startCode held).length = closed.flatten ++ last := by
  have hmark : startCode.length (marked startCode held) ≠ 0 := by
    intro hzero
    rw [segments_of_length_eq_zero startCode hzero] at hfound
    simp at hfound
  have hall := flatten_segments startCode hmark
  have hdrop : held.drop (plain startCode held).length = marked startCode held := by
    have hleft : (plain startCode held ++ marked startCode held).drop
        (plain startCode held).length = marked startCode held := List.drop_left
    rwa [plain_append_marked] at hleft
  rw [hdrop, ← hall, hfound]
  simp

/-- What is kept is the open group and the open segment; nothing is drained only when
the open group starts at the front. -/
theorem keep_open {held current last : Bytes} {keepFrom : ℕ}
    (hkeep : held.drop keepFrom = current ++ last) (hlast : startCode.length last ≠ 0) :
    (if 0 < keepFrom ∧ keepFrom ≤ held.length then held.drop keepFrom else held) =
      current ++ last := by
  rw [← hkeep]
  split_ifs with hbounds
  · rfl
  · have hzero : keepFrom = 0 := by
      by_contra hpos
      have hlong : held.length < keepFrom := by omega
      rw [List.drop_eq_nil_of_le hlong.le] at hkeep
      have hempty := (List.append_eq_nil_iff.mp hkeep.symm).2
      exact hlast (hempty ▸ length_nil startCode)
    rw [hzero, List.drop_zero]

/-- The code of the splitter computes `splitUnits` of everything it holds. -/
theorem pushBytes_eq_splitUnits (buf incoming : Bytes) :
    pushBytes buf incoming = splitUnits (buf ++ incoming) := by
  have hheld : (if incoming.isEmpty then buf else buf ++ incoming) = buf ++ incoming := by
    cases incoming <;> simp
  unfold pushBytes splitUnits
  simp only [hheld, startCodes_eq_positions, length_positions]
  generalize buf ++ incoming = held
  by_cases hfew : (segments startCode (marked startCode held)).length < 2
  · rw [if_pos hfew, if_pos hfew]
  · rw [if_neg hfew, if_neg hfew]
    obtain ⟨closed, last, hfound⟩ : ∃ closed last,
        segments startCode (marked startCode held) = closed ++ [last] := by
      refine ⟨_, _, (List.dropLast_append_getLast ?_).symm⟩
      intro hnil
      simp [hnil] at hfew
    have hmem : ∀ segment ∈ closed ++ [last], startCode.length segment ≠ 0 := by
      rw [← hfound]
      exact fun segment hmem => length_ne_zero_of_mem_segments startCode hmem
    have hclosed : ∀ segment ∈ closed, startCode.length segment ≠ 0 :=
      fun segment hsegment => hmem segment (by simp [hsegment])
    have hlast : startCode.length last ≠ 0 := hmem last (by simp)
    have hne : closed ≠ [] := by
      rintro rfl
      simp [hfound] at hfew
    have hbuf := drop_plain_eq hfound
    set base := (plain startCode held).length
    have hloop := run_spans closed hbuf hclosed hlast
    rw [hfound, zip_tail_positions, List.dropLast_concat, List.getLastD_concat]
    show _ = ((Grouping.run segmentKind closed).groups.map unitOfGroup, _)
    have hrun : (spans base closed).foldl (Grouping.push fun window => nalType held window.1) {} =
        locate base (Grouping.run segmentKind closed) := hloop
    rw [hrun]
    have hall := Grouping.flatten_run segmentKind closed
    have hcurrent := Grouping.current_run_ne_nil segmentKind hne
    have hgroups : ∀ group ∈ (Grouping.run segmentKind closed).groups, group ≠ [] :=
      fun group hgroup => Grouping.ne_nil_of_mem_groups segmentKind hgroup
    generalize Grouping.run segmentKind closed = state at hall hcurrent hgroups
    have hparts : closed.flatten = state.groups.flatten.flatten ++ state.current.flatten := by
      rw [← hall, List.flatten_append]
    have hgroupMarks : ∀ segment ∈ state.groups.flatten, startCode.length segment ≠ 0 :=
      fun segment hsegment => hclosed segment (by rw [← hall]; simp [hsegment])
    have hcurrentMarks : ∀ segment ∈ state.current, startCode.length segment ≠ 0 :=
      fun segment hsegment => hclosed segment (by rw [← hall]; simp [hsegment])
    rw [hparts, List.append_assoc] at hbuf
    have hunits := filterMap_unitOf_groupSpans state.groups hgroups hbuf hgroupMarks
      (length_flatten_append_ne_zero hcurrentMarks hlast)
    obtain ⟨stop, hhead⟩ :=
      head?_spans (base + state.groups.flatten.flatten.length) hcurrent
    have hkeep : held.drop (base + state.groups.flatten.flatten.length) =
        state.current.flatten ++ last := by
      rw [← List.drop_drop, hbuf, List.drop_left]
    simp only [locate, hhead, hunits]
    exact Prod.ext rfl (keep_open hkeep hlast)

end OmarchyConnect.Host
