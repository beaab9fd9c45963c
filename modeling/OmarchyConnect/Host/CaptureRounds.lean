/-
# What a capture round waits for

`round_send` goes on until every output is marked as sent, and marks only the outputs of
the list that was made at the start. What it does to an output is told by `settle`, one
output at a time. A round waits for an answer in every run just when every output is
listed. Then it waits exactly as long as the round of `connect` would.
-/

import OmarchyConnect.Host.Screencopy
import OmarchyConnect.Library.Runs

namespace OmarchyConnect.Host.Screencopy

open OmarchyConnect.Library.Runs OmarchyConnect.Protocol

variable {picture : Picture} {version : ℕ} {ids : List (ℕ × UInt32 × UInt32)}
  {capture : Screencopy}

/-! ## One output -/

/-- The answer of an output, and whether it counts as sent. -/
def seen (capture : Screencopy) (index : ℕ) : Option Pending × Option Bool :=
  (capture.outputs[index]?.map ScreencopyOutput.pending, capture.sent[index]?)

/-- What publishing does to a listed output. -/
def settle : Option Pending × Option Bool → Option Pending × Option Bool
  | (some .ready, some false) => (some .failed, some true)
  | (some .failed, some false) => (some .failed, some true)
  | seen => seen

/-- Settling twice is settling once. -/
theorem settle_settle (answer : Option Pending × Option Bool) :
    settle (settle answer) = settle answer := by
  obtain ⟨pending, sent⟩ := answer
  rcases pending with - | (- | - | - | -) <;> rcases sent with - | (- | -) <;> rfl

/-- Publishing an output leaves the others alone. -/
theorem seen_publishEntry_of_ne (entry : ℕ × UInt32 × UInt32) {index : ℕ}
    (hne : entry.1 ≠ index) :
    seen (capture.publishEntry picture entry) index = seen capture index := by
  obtain ⟨listed, width, height⟩ := entry
  simp only at hne
  simp only [publishEntry, seen]
  split
  next => rfl
  next =>
    split
    next => rfl
    next output houtput =>
      cases output.pending with
      | idle => rfl
      | waiting => rfl
      | failed => simp only [List.getElem?_set_ne hne]
      | ready =>
          simp only [List.getElem?_set_ne hne, List.getElem?_modify_ne _ _ hne]

/-- Publishing an output settles it. -/
theorem seen_publishEntry_self (entry : ℕ × UInt32 × UInt32) :
    seen (capture.publishEntry picture entry) entry.1 = settle (seen capture entry.1) := by
  obtain ⟨listed, width, height⟩ := entry
  unfold publishEntry seen
  cases hsent : capture.sent[listed]? with
  | none =>
      simp [hsent, settle]
  | some done =>
      cases done with
      | true => simp [hsent, settle]
      | false =>
          obtain ⟨hlt, hfalse⟩ := List.getElem?_eq_some_iff.mp hsent
          cases houtput : capture.outputs[listed]? with
          | none => simp [hsent, houtput, settle]
          | some output =>
              cases hpending : output.pending <;>
                simp [houtput, hpending, settle, hlt, hfalse]

/-- Publishing settles all outputs that are listed. -/
theorem seen_publishReady (capture : Screencopy) (index : ℕ) :
    seen (capture.publishReady picture ids) index =
      if index ∈ ids.map Prod.fst then settle (seen capture index) else seen capture index := by
  unfold publishReady
  induction ids generalizing capture with
  | nil => simp
  | cons entry ids ih =>
      rw [List.foldl_cons, ih, List.map_cons]
      by_cases heq : entry.1 = index
      · subst heq
        rw [seen_publishEntry_self, settle_settle, ite_self, if_pos List.mem_cons_self]
      · rw [seen_publishEntry_of_ne entry heq]
        simp only [List.mem_cons, Ne.symm heq, false_or]

/-! ## Answers -/

/-- Attaching a buffer leaves an output as it is, or lets it fail. -/
theorem pending_attach (output : ScreencopyOutput) (created : Bool) :
    (output.attach created).pending = output.pending ∨
      (output.attach created).pending = .failed := by
  unfold ScreencopyOutput.attach
  split
  · exact Or.inr rfl
  · split_ifs
    · exact Or.inl rfl
    · exact Or.inl rfl
    · exact Or.inr rfl

/-- An event leaves the answer of an output as it is, or is one. -/
theorem pending_event (version : ℕ) (output : ScreencopyOutput) (event : FrameEvent) :
    (output.event version event).pending = output.pending ∨
      (output.event version event).pending = .ready ∨
        (output.event version event).pending = .failed := by
  cases event with
  | buffer format width height stride created =>
      simp only [ScreencopyOutput.event]
      split_ifs
      · exact (pending_attach _ created).imp_right Or.inr
      · exact (pending_attach _ created).imp_right Or.inr
      · exact Or.inl rfl
      · exact Or.inl rfl
  | bufferDone created => exact (pending_attach output created).imp_right Or.inr
  | flags yInvert => exact Or.inl rfl
  | ready content => exact Or.inr (Or.inl rfl)
  | failed => exact Or.inr (Or.inr rfl)
  | other => exact Or.inl rfl

/-- Every output has been asked in this round. -/
def Asked (outputs : List ScreencopyOutput) : Prop := ∀ output ∈ outputs, output.pending ≠ .idle

/-- All outputs are asked at the start of a round. -/
theorem asked_beginRound (outputs : List ScreencopyOutput) : Asked (beginRound outputs) :=
  List.forall_mem_map.mpr fun _ _ => nofun

/-- A change of one item keeps what holds of all. -/
theorem forall_mem_modify {α : Type} {P : α → Prop} {xs : List α} (h : ∀ x ∈ xs, P x)
    {f : α → α} (hf : ∀ x, P x → P (f x)) (index : ℕ) : ∀ x ∈ xs.modify index f, P x := by
  intro x hmem
  obtain ⟨place, hplace⟩ := List.mem_iff_getElem?.mp hmem
  rw [List.getElem?_modify] at hplace
  obtain ⟨y, hy, rfl⟩ := Option.map_eq_some_iff.mp hplace
  split_ifs
  · exact hf y (h y (List.mem_of_getElem? hy))
  · exact h y (List.mem_of_getElem? hy)

/-- Outputs that were asked stay so. -/
theorem asked_dispatchPending {outputs : List ScreencopyOutput} (h : Asked outputs)
    (batch : List (ℕ × FrameEvent)) : Asked (dispatchPending version outputs batch) := by
  unfold dispatchPending
  induction batch generalizing outputs with
  | nil => exact h
  | cons first batch ih =>
      refine ih (forall_mem_modify h (fun output hasked => ?_) first.1)
      rcases pending_event version output first.2 with hsame | hready | hfailed
      · rwa [hsame]
      · rw [hready]
        nofun
      · rw [hfailed]
        nofun

/-- Dispatching events loses no output. -/
theorem length_dispatchPending (version : ℕ) (outputs : List ScreencopyOutput)
    (batch : List (ℕ × FrameEvent)) :
    (dispatchPending version outputs batch).length = outputs.length := by
  unfold dispatchPending
  induction batch generalizing outputs with
  | nil => rfl
  | cons first batch ih => rw [List.foldl_cons, ih, List.length_modify]

/-! ## A round -/

/-- Publishing turns answers into failures only. -/
theorem forall_pending_publishReady (P : Pending → Prop) (hfailed : P .failed)
    (h : ∀ output ∈ capture.outputs, P output.pending) :
    ∀ output ∈ (capture.publishReady picture ids).outputs, P output.pending := by
  unfold publishReady
  induction ids generalizing capture with
  | nil => exact h
  | cons entry ids ih =>
      apply ih
      simp only [publishEntry]
      split
      next => exact h
      next =>
        split
        next => exact h
        next output _ =>
          cases output.pending with
          | idle => exact h
          | waiting => exact h
          | failed => exact h
          | ready => exact forall_mem_modify h (fun _ _ => hfailed) entry.1

/-- Publishing an output loses none. -/
theorem length_publishEntry (picture : Picture) (capture : Screencopy)
    (entry : ℕ × UInt32 × UInt32) :
    (capture.publishEntry picture entry).outputs.length = capture.outputs.length ∧
      (capture.publishEntry picture entry).sent.length = capture.sent.length := by
  simp only [publishEntry]
  split
  next => exact ⟨rfl, rfl⟩
  next =>
    split
    next => exact ⟨rfl, rfl⟩
    next output _ =>
      cases output.pending with
      | idle => exact ⟨rfl, rfl⟩
      | waiting => exact ⟨rfl, rfl⟩
      | failed => exact ⟨rfl, List.length_set ..⟩
      | ready => exact ⟨List.length_modify .., List.length_set ..⟩

/-- Publishing all loses none. -/
theorem length_publishReady (capture : Screencopy) :
    (capture.publishReady picture ids).outputs.length = capture.outputs.length ∧
      (capture.publishReady picture ids).sent.length = capture.sent.length := by
  unfold publishReady
  induction ids generalizing capture with
  | nil => exact ⟨rfl, rfl⟩
  | cons entry ids ih =>
      obtain ⟨houtputs, hsent⟩ := length_publishEntry picture capture entry
      rw [List.foldl_cons, (ih _).1, (ih _).2]
      exact ⟨houtputs, hsent⟩

/-- The state within a round of so many outputs. -/
structure InRound (count : ℕ) (capture : Screencopy) : Prop where
  asked : Asked capture.outputs
  outputs : capture.outputs.length = count
  sent : capture.sent.length = count

/-- Every output is listed. -/
def Listed (ids : List (ℕ × UInt32 × UInt32)) (count : ℕ) : Prop :=
  ∀ index < count, index ∈ ids.map Prod.fst

namespace InRound

variable {count : ℕ}

/-- A round begins with all outputs. -/
theorem begin (capture : Screencopy) (hcount : capture.outputs.length = count) :
    InRound count { capture with
      outputs := beginRound capture.outputs
      sent := List.replicate capture.outputs.length false } :=
  ⟨asked_beginRound _, by rw [beginRound, List.length_map, hcount],
    by rw [List.length_replicate, hcount]⟩

/-- Dispatching stays in the round. -/
theorem dispatched (h : InRound count capture) (version : ℕ) (batch : List (ℕ × FrameEvent)) :
    InRound count { capture with outputs := dispatchPending version capture.outputs batch } :=
  ⟨asked_dispatchPending h.asked batch, by rw [length_dispatchPending, h.outputs], h.sent⟩

/-- Publishing stays in the round. -/
theorem publishReady (h : InRound count capture) (picture : Picture)
    (ids : List (ℕ × UInt32 × UInt32)) : InRound count (capture.publishReady picture ids) := by
  refine ⟨forall_pending_publishReady (· ≠ .idle) nofun h.asked, ?_, ?_⟩
  · rw [(length_publishReady capture).1, h.outputs]
  · rw [(length_publishReady capture).2, h.sent]

/-- A listed output that still counts as unsent after publishing has not answered. -/
theorem awaits (h : InRound count capture) (hlisted : Listed ids count)
    (hunsent : (capture.publishReady picture ids).sent.all id = false) :
    Awaits (capture.publishReady picture ids).outputs := by
  have hround := h.publishReady picture ids
  obtain ⟨done, hmem, hdone⟩ := List.all_eq_false.mp hunsent
  obtain ⟨index, hsent⟩ := List.mem_iff_getElem?.mp hmem
  have hfalse : done = false := by simpa using hdone
  rw [hfalse] at hsent
  have hcount : index < count := hround.sent ▸ (List.getElem?_eq_some_iff.mp hsent).1
  have hlt : index < (capture.publishReady picture ids).outputs.length :=
    hcount.trans_eq hround.outputs.symm
  set output := (capture.publishReady picture ids).outputs[index] with houtput
  have hseen : seen (capture.publishReady picture ids) index =
      (some output.pending, some false) := by
    rw [seen, hsent, List.getElem?_eq_getElem hlt, Option.map_some]
  have hsettled : settle (some output.pending, some false) =
      (some output.pending, some false) := by
    rw [← hseen, seen_publishReady, if_pos (hlisted index hcount), settle_settle]
  have houtputMem : output ∈ (capture.publishReady picture ids).outputs :=
    List.getElem_mem hlt
  refine ⟨output, houtputMem, ?_⟩
  have hasked := hround.asked output houtputMem
  cases hpending : output.pending with
  | idle => exact absurd hpending hasked
  | waiting => rfl
  | ready => simp [hpending, settle] at hsettled
  | failed => simp [hpending, settle] at hsettled

end InRound

/-! ## Every round waits for an answer -/

/-- Between the events of the capture thread. -/
structure Inv (count : ℕ) (capture : Screencopy) : Prop where
  outputs : capture.outputs.length = count
  round : capture.phase = .dispatching → InRound count capture ∧ Awaits capture.outputs

section Run

variable {count : ℕ}

/-- The end of a round keeps the invariant. -/
theorem inv_finish (h : InRound count capture) : Inv count (capture.finish picture ids) := by
  refine ⟨?_, nofun⟩
  rw [finish, endRound, List.length_map, (h.publishReady picture ids).outputs]

/-- With every output listed the next wait is one for an answer. -/
theorem inv_turn (h : InRound count capture) (hlisted : Listed ids count) :
    Inv count (capture.turn picture ids) := by
  have hround := h.publishReady picture ids
  simp only [turn]
  split_ifs with hfirst hsecond
  · exact inv_finish h
  · exact inv_finish hround
  · exact ⟨hround.outputs, fun _ => ⟨⟨hround.asked, hround.outputs, hround.sent⟩,
      h.awaits hlisted (Bool.eq_false_iff.mpr hsecond)⟩⟩

/-- A step keeps the invariant. -/
theorem Inv.step (h : Inv count capture) (hlisted : Listed ids count) (event : ScreencopyEvent) :
    Inv count (step picture version ids capture event) := by
  have hlength := fun batch =>
    (length_dispatchPending version capture.outputs batch).trans h.outputs
  cases hphase : capture.phase with
  | ended => simpa only [Screencopy.step, hphase] using h
  | resting =>
      cases event with
      | next =>
          simpa only [Screencopy.step, hphase] using inv_turn (.begin capture h.outputs) hlisted
      | stop => simpa only [Screencopy.step, hphase] using ⟨h.outputs, nofun⟩
      | dispatched waited => simpa only [Screencopy.step, hphase] using h
  | dispatching =>
      have hround := (h.round hphase).1
      cases event with
      | next => simpa only [Screencopy.step, hphase] using h
      | stop => simpa only [Screencopy.step, hphase] using h
      | dispatched waited =>
          cases waited with
          | events batch =>
              simpa only [Screencopy.step, hphase] using
                inv_turn (hround.dispatched version batch) hlisted
          | deadline => simpa only [Screencopy.step, hphase] using inv_finish hround
          | broken batch => simpa only [Screencopy.step, hphase] using ⟨hlength batch, nofun⟩

/-- The capture thread when `run` is called. -/
def start (outputs : List ScreencopyOutput) : Screencopy := { outputs }

/-- With every output listed each wait of each round is one for an answer. -/
theorem waitsForAnswer_of_listed {outputs : List ScreencopyOutput}
    (hlisted : Listed ids outputs.length) (events : List ScreencopyEvent) :
    WaitsForAnswer (run (step picture version ids) (start outputs) events) := by
  have hstart : Inv outputs.length (start outputs) := ⟨rfl, nofun⟩
  have hinv := invariant_of_step (step picture version ids) (Inv outputs.length)
    (fun _ event h => h.step hlisted event) hstart events
  exact fun hphase => (hinv.round hphase).2

end Run

/-! ## An output that is not listed -/

/-- An output that was not sent is not among those that were all sent. -/
theorem all_eq_false_of_unsent {sent : List Bool} {index : ℕ} (h : sent[index]? = some false) :
    ¬ sent.all id = true := by
  rw [Bool.not_eq_true]
  exact List.all_eq_false.mpr ⟨false, List.mem_of_getElem? h, Bool.false_ne_true⟩

/-- An output that is not listed never counts as sent, and the round goes on waiting. -/
theorem turn_of_unlisted (picture : Picture) {index : ℕ} (hindex : index ∉ ids.map Prod.fst)
    (hunsent : capture.sent[index]? = some false) :
    capture.turn picture ids = { capture.publishReady picture ids with phase := .dispatching } ∧
      (capture.publishReady picture ids).sent[index]? = some false := by
  have hseen : seen (capture.publishReady picture ids) index = seen capture index := by
    rw [seen_publishReady, if_neg hindex]
  have hlater : (capture.publishReady picture ids).sent[index]? = some false :=
    (congrArg Prod.snd hseen).trans hunsent
  refine ⟨?_, hlater⟩
  simp only [turn]
  rw [if_neg (all_eq_false_of_unsent hunsent), if_neg (all_eq_false_of_unsent hlater)]

/-- All of the outputs have failed. -/
def AllFailed (outputs : List ScreencopyOutput) : Prop :=
  ∀ output ∈ outputs, output.pending = .failed

/-- Outputs that have failed are not waited for. -/
theorem AllFailed.not_awaits {outputs : List ScreencopyOutput} (h : AllFailed outputs) :
    ¬ Awaits outputs := by
  rintro ⟨output, hmem, hwaiting⟩
  rw [h output hmem] at hwaiting
  exact Pending.noConfusion hwaiting

/-- The answer of each of these outputs is that it has failed. -/
def failures (indices : List ℕ) : List (ℕ × FrameEvent) :=
  indices.map fun index => (index, .failed)

/-- Behind its failure an output has failed. -/
theorem pending_failures {outputs : List ScreencopyOutput} {indices : List ℕ} {index : ℕ}
    (h : index ∈ indices ∨ ∀ output, outputs[index]? = some output → output.pending = .failed)
    {output : ScreencopyOutput}
    (houtput : (dispatchPending version outputs (failures indices))[index]? = some output) :
    output.pending = .failed := by
  induction indices generalizing outputs with
  | nil => exact h.resolve_left List.not_mem_nil output houtput
  | cons first indices ih =>
      refine ih (or_iff_not_imp_left.mpr fun hlater other hother => ?_) houtput
      rw [List.getElem?_modify] at hother
      obtain ⟨before, hbefore, rfl⟩ := Option.map_eq_some_iff.mp hother
      split_ifs with heq
      · rfl
      · rcases h with hmem | hfailed
        · exact absurd (List.mem_cons.mp hmem) (not_or_intro (Ne.symm heq) hlater)
        · exact hfailed before hbefore

/-- Behind the failures of all outputs they have all failed. -/
theorem allFailed_failures (version : ℕ) (outputs : List ScreencopyOutput) :
    AllFailed (dispatchPending version outputs (failures (List.range outputs.length))) := by
  intro output hmem
  obtain ⟨index, hindex⟩ := List.mem_iff_getElem?.mp hmem
  have hlt : index < outputs.length := by
    rw [← length_dispatchPending version outputs (failures (List.range outputs.length))]
    exact (List.getElem?_eq_some_iff.mp hindex).1
  exact pending_failures (Or.inl (List.mem_range.mpr hlt)) hindex

/-- When all outputs fail in the first wait, the round of an output that is not listed
waits once more. -/
theorem not_waitsForAnswer_of_unlisted {outputs : List ScreencopyOutput} {index : ℕ}
    (hlt : index < outputs.length) (hindex : index ∉ ids.map Prod.fst) :
    ¬ WaitsForAnswer (run (step picture version ids) (start outputs)
      [.next, .dispatched (.events (failures (List.range outputs.length)))]) := by
  have hbegun : (List.replicate outputs.length false)[index]? = some false := by
    rw [List.getElem?_replicate, if_pos hlt]
  set begun : Screencopy :=
    { outputs := beginRound outputs, sent := List.replicate outputs.length false } with hbegin
  have hnotSent : begun.sent[index]? = some false := hbegun
  obtain ⟨hfirst, hstillNot⟩ := turn_of_unlisted picture hindex hnotSent
  set published := begun.publishReady picture ids with hpublished
  set answered : Screencopy :=
    { published with
      outputs := dispatchPending version published.outputs (failures (List.range outputs.length))
      phase := .dispatching } with hanswered
  have hrun : run (step picture version ids) (start outputs)
      [.next, .dispatched (.events (failures (List.range outputs.length)))] =
        answered.turn picture ids := by
    have hnext : step picture version ids (start outputs) .next =
        { published with phase := .dispatching } := hfirst
    rw [run_cons, run_cons, run_nil, hnext]
    rfl
  have hlength : published.outputs.length = outputs.length := by
    rw [hpublished, (length_publishReady begun).1, hbegin, beginRound, List.length_map]
  have hfailed : AllFailed answered.outputs := by
    rw [hanswered, ← hlength]
    exact allFailed_failures version published.outputs
  have hagain := (turn_of_unlisted picture hindex (show answered.sent[index]? = some false from
    hstillNot)).1
  have hstillFailed : AllFailed (answered.publishReady picture ids).outputs :=
    forall_pending_publishReady (· = .failed) rfl hfailed
  rw [hrun, hagain]
  exact fun hwaits => hstillFailed.not_awaits (hwaits rfl)

/-- The rounds of `run` wait for answers only, in every run, just when every output is
listed. -/
theorem waitsForAnswer_iff_listed (picture : Picture) (version : ℕ)
    (ids : List (ℕ × UInt32 × UInt32)) (outputs : List ScreencopyOutput) :
    (∀ events, WaitsForAnswer (run (step picture version ids) (start outputs) events)) ↔
      Listed ids outputs.length := by
  constructor
  · intro hwaits
    by_contra hnot
    obtain ⟨index, hlt, hindex⟩ : ∃ index < outputs.length, index ∉ ids.map Prod.fst := by
      simpa only [Listed, not_forall, exists_prop] using hnot
    exact not_waitsForAnswer_of_unlisted hlt hindex (hwaits _)
  · exact waitsForAnswer_of_listed

/-! ## Which outputs are listed -/

/-- The output has said that it copies into a buffer of two pixels or more each way. -/
def Usable (output : ScreencopyOutput) : Prop :=
  ∃ spec, output.spec = some spec ∧ ¬ (even spec.width < 2 ∨ even spec.height < 2)

/-- An output has a region just when it can be captured. -/
theorem isSome_region_iff (output : ScreencopyOutput) (index : ℕ) :
    (∃ pair, output.described.region index = some pair) ↔ Usable output := by
  unfold Usable Output.region ScreencopyOutput.described
  cases hspec : output.spec with
  | none => simp
  | some spec =>
      simp only [Option.map_some, Option.some_inj, exists_eq_left']
      split_ifs with hsmall
      · exact iff_of_false nofun (not_not_intro hsmall)
      · exact iff_of_true ⟨_, rfl⟩ hsmall

/-- The regions are those of the outputs that have one, with their places. -/
theorem mem_regionsFrom_iff {outputs : List Output} {start : ℕ} {pair : Region × String} :
    pair ∈ regionsFrom start outputs ↔
      ∃ (index : ℕ) (output : Output), outputs[index]? = some output ∧
        output.region (start + index) = some pair := by
  induction outputs generalizing start with
  | nil => simp [regionsFrom]
  | cons first outputs ih =>
      rw [regionsFrom, List.mem_append, Option.mem_toList, ih]
      constructor
      · rintro (hfirst | ⟨index, output, houtput, hpair⟩)
        · exact ⟨0, first, rfl, hfirst⟩
        · refine ⟨index + 1, output, houtput, ?_⟩
          rwa [Nat.add_comm index, ← Nat.add_assoc]
      · rintro ⟨index, output, houtput, hpair⟩
        cases index with
        | zero =>
            obtain rfl := Option.some.inj houtput
            exact Or.inl hpair
        | succ index =>
            refine Or.inr ⟨index, output, houtput, ?_⟩
            rwa [Nat.add_assoc, Nat.add_comm 1]

/-- The ids of `run` are those of the regions. -/
theorem map_fst_idsOf {pixelOrigins : List Region → List (Int32 × Int32)}
    (horigins : ∀ regions, (pixelOrigins regions).length = regions.length)
    (scalePercent : Region → UInt16) (outputs : List Output) :
    (idsOf (layout pixelOrigins scalePercent outputs).1).map Prod.fst =
      (regionsFrom 0 outputs).map fun pair => pair.1.id.toNat := by
  set regions := (regionsFrom 0 outputs).map Prod.fst with hregions
  set names := (regionsFrom 0 outputs).map Prod.snd with hnames
  have hplaced : (regions.zip (pixelOrigins regions)).length ≤ names.length := by
    rw [List.length_zip, horigins, hregions, hnames]
    simp
  have hzip : (((regions.zip (pixelOrigins regions)).zip names).map Prod.fst).map Prod.fst =
      regions := by
    rw [List.map_fst_zip hplaced, List.map_fst_zip (horigins regions).ge]
  calc (idsOf (layout pixelOrigins scalePercent outputs).1).map Prod.fst
      = ((((regions.zip (pixelOrigins regions)).zip names).map Prod.fst).map Prod.fst).map
          fun region => region.id.toNat := by
        simp only [idsOf, layout, List.map_map, ← hregions, ← hnames]
        rfl
    _ = _ := by rw [hzip, hregions, List.map_map]; rfl

/-- With the list that `run` makes, the listed outputs are the usable ones. -/
theorem listed_layout_iff {pixelOrigins : List Region → List (Int32 × Int32)}
    (horigins : ∀ regions, (pixelOrigins regions).length = regions.length)
    (scalePercent : Region → UInt16) {outputs : List ScreencopyOutput}
    (hcount : outputs.length ≤ 2 ^ 32) :
    Listed (idsOf (layout pixelOrigins scalePercent
        (outputs.map ScreencopyOutput.described)).1) outputs.length ↔
      ∀ output ∈ outputs, Usable output := by
  have hlisted : ∀ index < outputs.length, ∀ output, outputs[index]? = some output →
      (index ∈ (idsOf (layout pixelOrigins scalePercent
        (outputs.map ScreencopyOutput.described)).1).map Prod.fst ↔ Usable output) := by
    intro index hindex output houtput
    rw [map_fst_idsOf horigins, List.mem_map, ← isSome_region_iff output index]
    constructor
    · rintro ⟨pair, hpair, hid⟩
      obtain ⟨number, other, hother, hregion⟩ := mem_regionsFrom_iff.mp hpair
      rw [Nat.zero_add] at hregion
      have hlt : number < outputs.length := by
        simpa using (List.getElem?_eq_some_iff.mp hother).1
      rw [(region_of_output hregion).1, UInt32.toNat_ofNat_of_lt' (hlt.trans_le hcount)] at hid
      rw [hid, List.getElem?_map, houtput, Option.map_some, Option.some_inj] at hother
      exact ⟨pair, by rw [hother, ← hid, hregion]⟩
    · rintro ⟨pair, hregion⟩
      refine ⟨pair, mem_regionsFrom_iff.mpr ⟨index, output.described, ?_, ?_⟩, ?_⟩
      · rw [List.getElem?_map, houtput, Option.map_some]
      · rw [Nat.zero_add, hregion]
      · rw [(region_of_output hregion).1, UInt32.toNat_ofNat_of_lt' (hindex.trans_le hcount)]
  constructor
  · intro h output hmem
    obtain ⟨index, hindex⟩ := List.mem_iff_getElem?.mp hmem
    have hlt := (List.getElem?_eq_some_iff.mp hindex).1
    exact (hlisted index hlt output hindex).mp (h index hlt)
  · intro h index hlt
    exact (hlisted index hlt _ (List.getElem?_eq_getElem hlt)).mpr (h _ (List.getElem_mem hlt))

/-! ## A monitor that sleeps -/

/-- A monitor with a buffer, and one that had not answered when the grabber connected. -/
def sleepingMonitor : List ScreencopyOutput :=
  let about : Output := ⟨none, (0, 0), none, 1, none, none, none⟩
  [{ about, spec := some ⟨.xrgb8888, 2, 2, 8⟩ }, { about }]

/-- The list of `run` for the two monitors: only the first has a region. -/
def sleepingIds : List (ℕ × UInt32 × UInt32) :=
  idsOf (layout (fun regions => regions.map fun _ => (0, 0)) (fun _ => 100)
    (sleepingMonitor.map ScreencopyOutput.described)).1

/-- Both monitors have answered, and the round waits on. -/
theorem sleepingMonitor_waits :
    ¬ WaitsForAnswer (run (step (fun _ _ _ _ => none) 3 sleepingIds) (start sleepingMonitor)
      [.next, .dispatched (.events [(0, .failed), (1, .failed)])]) :=
  not_waitsForAnswer_of_unlisted (show 1 < sleepingMonitor.length by decide)
    (show 1 ∉ sleepingIds.map Prod.fst by decide)

end OmarchyConnect.Host.Screencopy
