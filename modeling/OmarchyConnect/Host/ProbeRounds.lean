/-
# Two rounds that wait for the same

The round of `connect` waits while an output has not answered, that of `run` while an
output does not count as sent. The two go side by side as long as the same outputs have
not answered, and with every output listed they are over at the same time.
-/

import OmarchyConnect.Host.CaptureRounds

namespace OmarchyConnect.Host.Screencopy

open OmarchyConnect.Library.Runs

variable {picture : Picture} {version : ℕ} {ids : List (ℕ × UInt32 × UInt32)}
  {capture : Screencopy}

/-! ## The same outputs have not answered -/

/-- The outputs have the same buffers, and the same ones have not answered. -/
structure Alike (output other : ScreencopyOutput) : Prop where
  spec : output.spec = other.spec
  shm : output.shm = other.shm
  waiting : output.pending = .waiting ↔ other.pending = .waiting

/-- Attaching a buffer keeps two outputs alike. -/
theorem Alike.attach {output other : ScreencopyOutput} (h : Alike output other)
    (created : Bool) : Alike (output.attach created) (other.attach created) := by
  obtain ⟨about, asked, spec, shm, yInvert, pending⟩ := output
  obtain ⟨about', asked', spec', shm', yInvert', pending'⟩ := other
  obtain ⟨rfl, rfl, hwaiting⟩ := h
  cases spec with
  | none => exact ⟨rfl, rfl, Iff.rfl⟩
  | some spec =>
      simp only [ScreencopyOutput.attach]
      split_ifs
      · exact ⟨rfl, rfl, hwaiting⟩
      · exact ⟨rfl, rfl, hwaiting⟩
      · exact ⟨rfl, rfl, Iff.rfl⟩

/-- An event keeps two outputs alike. -/
theorem Alike.event {output other : ScreencopyOutput} (h : Alike output other) (version : ℕ)
    (event : FrameEvent) : Alike (output.event version event) (other.event version event) := by
  cases event with
  | bufferDone created => exact h.attach created
  | flags yInvert => exact ⟨h.spec, h.shm, h.waiting⟩
  | failed => exact ⟨h.spec, h.shm, Iff.rfl⟩
  | other => exact h
  | ready content =>
      refine ⟨h.spec, ?_, Iff.rfl⟩
      simp only [ScreencopyOutput.event, h.shm]
  | buffer format width height stride created =>
      have hspec : Alike { output with spec := some ⟨format, width, height, stride⟩ }
          { other with spec := some ⟨format, width, height, stride⟩ } :=
        ⟨rfl, h.shm, h.waiting⟩
      simp only [ScreencopyOutput.event]
      split_ifs
      · exact hspec.attach created
      · exact h.attach created
      · exact hspec
      · exact h

/-- A change of one item on both sides keeps them related. -/
theorem forall₂_modify {α : Type} {R : α → α → Prop} {xs ys : List α} (h : List.Forall₂ R xs ys)
    {f g : α → α} {index : ℕ}
    (hfg : ∀ x y, xs[index]? = some x → R x y → R (f x) (g y)) :
    List.Forall₂ R (xs.modify index f) (ys.modify index g) := by
  induction h generalizing index with
  | nil => cases index <;> exact .nil
  | cons hhead htail ih =>
      cases index with
      | zero => exact .cons (hfg _ _ rfl hhead) htail
      | succ index => exact .cons hhead (ih hfg)

/-- Events keep the outputs alike. -/
theorem alike_dispatchPending {outputs others : List ScreencopyOutput}
    (h : List.Forall₂ Alike outputs others) (version : ℕ) (batch : List (ℕ × FrameEvent)) :
    List.Forall₂ Alike (dispatchPending version outputs batch)
      (dispatchPending version others batch) := by
  unfold dispatchPending
  induction batch generalizing outputs others with
  | nil => exact h
  | cons first batch ih =>
      exact ih (forall₂_modify h fun _ _ _ halike => halike.event version first.2)

/-- Outputs are like themselves. -/
theorem alike_self (outputs : List ScreencopyOutput) : List.Forall₂ Alike outputs outputs :=
  List.forall₂_same.mpr fun _ _ => ⟨rfl, rfl, Iff.rfl⟩

/-- Alike outputs are waited for alike. -/
theorem awaits_congr {outputs others : List ScreencopyOutput}
    (h : List.Forall₂ Alike outputs others) : Awaits outputs ↔ Awaits others := by
  induction h with
  | nil => exact Iff.rfl
  | cons hhead htail ih =>
      simp only [Awaits, List.exists_mem_cons_iff] at ih ⊢
      rw [hhead.waiting, ih]

/-- Publishing leaves the buffers and the unanswered outputs as they are. -/
theorem alike_publishReady {others : List ScreencopyOutput}
    (h : List.Forall₂ Alike capture.outputs others) :
    List.Forall₂ Alike (capture.publishReady picture ids).outputs others := by
  unfold publishReady
  induction ids generalizing capture with
  | nil => exact h
  | cons entry ids ih =>
      apply ih
      simp only [publishEntry]
      split
      next => exact h
      next =>
        split
        next => exact h
        next output houtput =>
          cases hpending : output.pending with
          | idle => exact h
          | waiting => exact h
          | failed => exact h
          | ready =>
              rw [← List.modify_id entry.1 others]
              refine forall₂_modify h fun before other hbefore halike => ?_
              obtain rfl := Option.some.inj (houtput.symm.trans hbefore)
              have hfailed : Pending.failed ≠ Pending.waiting := by decide
              refine ⟨halike.spec, halike.shm, iff_of_false hfailed fun hwaiting => ?_⟩
              rw [halike.waiting.mpr hwaiting] at hpending
              exact Pending.noConfusion hpending

/-- What counts as sent has answered. -/
def Told (answer : Option Pending × Option Bool) : Prop :=
  answer.2 = some true → answer.1 ≠ some .waiting

/-- A settled answer is told. -/
theorem Told.settle {answer : Option Pending × Option Bool} (h : Told answer) :
    Told (settle answer) := by
  obtain ⟨pending, sent⟩ := answer
  rcases pending with - | (- | - | - | -) <;> rcases sent with - | (- | -) <;>
    first | exact h | exact fun _ => nofun

/-- All outputs are told or wait. -/
def Marked (capture : Screencopy) : Prop := ∀ index, Told (seen capture index)

/-- Publishing leaves all outputs told. -/
theorem Marked.publishReady (h : Marked capture) : Marked (capture.publishReady picture ids) := by
  intro index
  rw [seen_publishReady]
  split_ifs
  · exact (h index).settle
  · exact h index

/-- Events only answer. -/
theorem waiting_of_dispatchPending {outputs : List ScreencopyOutput}
    {batch : List (ℕ × FrameEvent)} {index : ℕ}
    (h : (dispatchPending version outputs batch)[index]?.map ScreencopyOutput.pending =
      some .waiting) : outputs[index]?.map ScreencopyOutput.pending = some .waiting := by
  unfold dispatchPending at h
  induction batch generalizing outputs with
  | nil => exact h
  | cons first batch ih =>
      have hnext := ih h
      rw [List.getElem?_modify] at hnext
      obtain ⟨_, hafter, hwaiting⟩ := Option.map_eq_some_iff.mp hnext
      obtain ⟨output, houtput, rfl⟩ := Option.map_eq_some_iff.mp hafter
      refine Option.map_eq_some_iff.mpr ⟨output, houtput, ?_⟩
      split_ifs at hwaiting
      · rcases pending_event version output first.2 with hsame | hready | hfailed
        · exact hsame.symm.trans hwaiting
        · exact Pending.noConfusion (hready.symm.trans hwaiting)
        · exact Pending.noConfusion (hfailed.symm.trans hwaiting)
      · exact hwaiting

/-- Events leave all outputs told. -/
theorem Marked.dispatched (h : Marked capture) (version : ℕ) (batch : List (ℕ × FrameEvent)) :
    Marked { capture with outputs := dispatchPending version capture.outputs batch } :=
  fun index hsent hwaiting => h index hsent (waiting_of_dispatchPending hwaiting)

/-- At the start of a round nothing was sent. -/
theorem marked_of_none_sent {outputs : List ScreencopyOutput} {inbox : FrameInbox}
    {phase : RoundPhase} (count : ℕ) :
    Marked ⟨outputs, inbox, List.replicate count false, phase⟩ := by
  intro index hsent
  rw [seen, List.getElem?_replicate] at hsent
  split_ifs at hsent
  exact Bool.noConfusion (Option.some.inj hsent)

section Agreement

variable {count : ℕ}

/-- While an output has not answered the round is not over. -/
theorem unsent_of_awaits (h : InRound count capture) (hmarked : Marked capture)
    (hawaits : Awaits capture.outputs) : ¬ capture.sent.all id = true := by
  obtain ⟨output, hmem, hwaiting⟩ := hawaits
  obtain ⟨index, hindex⟩ := List.mem_iff_getElem?.mp hmem
  have hlt : index < capture.sent.length := by
    rw [h.sent, ← h.outputs]
    exact (List.getElem?_eq_some_iff.mp hindex).1
  have hanswer : (seen capture index).1 = some .waiting := by
    rw [seen, hindex, Option.map_some, hwaiting]
  have hunsent : capture.sent[index]? = some false := by
    rw [List.getElem?_eq_getElem hlt, Option.some_inj, ← Bool.not_eq_true]
    intro hsent
    refine hmarked index ?_ hanswer
    rw [seen, List.getElem?_eq_getElem hlt, hsent]
  exact all_eq_false_of_unsent hunsent

/-- A turn that goes on dispatching has only published. -/
theorem turn_of_dispatching (h : (capture.turn picture ids).phase = .dispatching) :
    capture.turn picture ids = { capture.publishReady picture ids with phase := .dispatching } ∧
      (capture.publishReady picture ids).sent.all id = false := by
  simp only [turn] at h ⊢
  split_ifs at h ⊢ with hfirst hsecond
  · exact RoundPhase.noConfusion h
  · exact RoundPhase.noConfusion h
  · exact ⟨rfl, Bool.eq_false_iff.mpr hsecond⟩

/-- The round goes on just while an output has not answered. -/
theorem dispatching_turn_iff (picture : Picture) (h : InRound count capture)
    (hmarked : Marked capture)
    (hlisted : Listed ids count) :
    (capture.turn picture ids).phase = .dispatching ↔ Awaits capture.outputs := by
  have hround := h.publishReady picture ids
  have hsame : Awaits (capture.publishReady picture ids).outputs ↔ Awaits capture.outputs :=
    awaits_congr (alike_publishReady (alike_self capture.outputs))
  constructor
  · intro hdispatching
    exact hsame.mp (h.awaits hlisted (turn_of_dispatching hdispatching).2)
  · intro hawaits
    have hfirst := unsent_of_awaits h hmarked hawaits
    have hsecond := unsent_of_awaits hround hmarked.publishReady (hsame.mpr hawaits)
    simp only [turn]
    rw [if_neg hfirst, if_neg hsecond]

/-- The capture thread is in a round like that of `connect`, or both rounds are over. -/
structure Follows (count : ℕ) (capture : Screencopy) (probe : Probe) : Prop where
  phases : capture.phase = .dispatching ↔ probe.phase = .dispatching
  round : capture.phase = .dispatching → InRound count capture ∧ Marked capture ∧
    List.Forall₂ Alike capture.outputs probe.outputs

/-- A turn of the probe follows that of the capture. -/
theorem follows_turn (picture : Picture) (h : InRound count capture) (hmarked : Marked capture)
    (hlisted : Listed ids count) {others : List ScreencopyOutput}
    (halike : List.Forall₂ Alike capture.outputs others) :
    Follows count (capture.turn picture ids) (Probe.turn others) := by
  have hphase := dispatching_turn_iff picture h hmarked hlisted
  have hprobe : (Probe.turn others).phase = .dispatching ↔ Awaits others := by
    unfold Probe.turn
    split_ifs with hawaits
    · exact iff_of_true rfl hawaits
    · exact iff_of_false nofun hawaits
  refine ⟨hphase.trans ((awaits_congr halike).trans hprobe.symm), fun hdispatching => ?_⟩
  have hround := h.publishReady picture ids
  have hothers : (Probe.turn others).outputs = others := by
    unfold Probe.turn
    rw [if_pos ((awaits_congr halike).mp (hphase.mp hdispatching))]
  rw [(turn_of_dispatching hdispatching).1, hothers]
  exact ⟨⟨hround.asked, hround.outputs, hround.sent⟩, hmarked.publishReady,
    alike_publishReady halike⟩

/-- Nobody waits for events between the rounds. -/
theorem step_dispatched_of_ne (h : capture.phase ≠ .dispatching) (waited : Waited) :
    step picture version ids capture (.dispatched waited) = capture := by
  cases hphase : capture.phase with
  | dispatching => exact absurd hphase h
  | resting => simp only [step, hphase]
  | ended => simp only [step, hphase]

/-- A probe that is not dispatching stays as it is. -/
theorem Probe.step_of_ne {probe : Probe} (h : probe.phase ≠ .dispatching) (waited : Waited) :
    probe.step version waited = probe := by
  cases hphase : probe.phase with
  | dispatching => exact absurd hphase h
  | resting => simp only [Probe.step, hphase]
  | ended => simp only [Probe.step, hphase]

/-- Both rounds are over. -/
theorem Follows.of_ne {probe : Probe} (hcapture : capture.phase ≠ .dispatching)
    (hprobe : probe.phase ≠ .dispatching) : Follows count capture probe :=
  ⟨iff_of_false hcapture hprobe, fun hphase => absurd hphase hcapture⟩

/-- A step of the probe follows that of the capture. -/
theorem Follows.step {probe : Probe} (h : Follows count capture probe)
    (hlisted : Listed ids count) (waited : Waited) :
    Follows count (step picture version ids capture (.dispatched waited))
      (probe.step version waited) := by
  by_cases hphase : capture.phase = .dispatching
  · have hprobe := h.phases.mp hphase
    obtain ⟨hround, hmarked, halike⟩ := h.round hphase
    cases waited with
    | events batch =>
        have hturn := follows_turn picture (hround.dispatched version batch)
          (hmarked.dispatched version batch) hlisted (alike_dispatchPending halike version batch)
        simpa only [Screencopy.step, Probe.step, hphase, hprobe] using hturn
    | deadline =>
        simp only [Screencopy.step, Probe.step, hphase, hprobe]
        exact .of_ne (fun hover => RoundPhase.noConfusion hover)
          (fun hover => RoundPhase.noConfusion hover)
    | broken batch =>
        simp only [Screencopy.step, Probe.step, hphase, hprobe]
        exact .of_ne (fun hover => RoundPhase.noConfusion hover)
          (fun hover => RoundPhase.noConfusion hover)
  · rwa [step_dispatched_of_ne hphase, Probe.step_of_ne (mt h.phases.mpr hphase)]

/-- With every output listed a round of `run` waits exactly as long as one of `connect`. -/
theorem phases_agree {outputs : List ScreencopyOutput} (hlisted : Listed ids outputs.length)
    (answers : List Waited) :
    (run (step picture version ids) (start outputs)
        (.next :: answers.map .dispatched)).phase = .dispatching ↔
      (run (Probe.step version) (Probe.start outputs) answers).phase = .dispatching := by
  have hrun : ∀ (capture : Screencopy) (probe : Probe), Follows outputs.length capture probe →
      Follows outputs.length
        (run (step picture version ids) capture (answers.map .dispatched))
        (run (Probe.step version) probe answers) := by
    induction answers with
    | nil => exact fun _ _ h => h
    | cons waited answers ih => exact fun _ _ h => ih _ _ (h.step hlisted waited)
  have hfirst := follows_turn picture (InRound.begin (start outputs) rfl)
    (marked_of_none_sent outputs.length) hlisted (alike_self (beginRound outputs))
  exact (hrun _ _ hfirst).phases

end Agreement

end OmarchyConnect.Host.Screencopy
