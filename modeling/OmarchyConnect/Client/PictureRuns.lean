/-
# Every monitor for itself

The decoders of the bank do not meet, so a monitor shows what its own packets decode to,
however those of the others come in between. The slot keeps the newest frame of each, and
the report counts the frames and knows which monitors have moved.
-/

import OmarchyConnect.Client.Pictures

namespace OmarchyConnect.Client

open OmarchyConnect.Library.Wire OmarchyConnect.Library.Runs OmarchyConnect.Library.Slots
open OmarchyConnect.Library.Saturating

variable {h264 : OpenH264}

/-! ## One packet -/

/-- What a packet leaves behind: the decoder of its monitor has gone on, and the frame, if
there is one, is noted, counted and put into the slot. -/
structure Watching.Saw (watching : Watching h264) (displayId : UInt32)
    (frame : Option VideoFrame) (after : Watching h264) : Prop where
  other : ∀ id, id ≠ displayId → after.bank id = watching.bank id
  seen : ∀ shown ∈ frame, shown.displayId = displayId
  slot : after.slot = frame.toList.foldl (put VideoFrame.displayId) watching.slot
  count : after.framesDecoded =
    frame.toList.foldl (fun count _ => saturatingSucc count) watching.framesDecoded
  sample : ∀ id, after.lastSample id =
    if id = displayId then
      (frame.map fun shown => sampleRgba shown.rgba).or (watching.lastSample id)
    else watching.lastSample id
  motion : ∀ id, id ∈ after.motion ↔
    id ∈ watching.motion ∨ (id = displayId ∧ ∃ shown ∈ frame, ∃ before ∈ watching.lastSample id,
      before ≠ sampleRgba shown.rgba)
  nodup : watching.motion.Nodup → after.motion.Nodup

/-- A packet leaves the decoders of the other monitors alone. -/
theorem bank_push_of_ne (bank : DecoderBank h264) {displayId other : UInt32}
    (hother : other ≠ displayId) (data : Bytes) :
    (bank.push displayId data).2 other = bank other := by
  unfold DecoderBank.push
  split
  · rfl
  · exact Function.update_of_ne hother _ _

/-- A monitor is added to those with motion. -/
theorem mem_insertMotion {motion : List UInt32} {displayId who : UInt32} :
    who ∈ Watching.insertMotion motion displayId ↔ who ∈ motion ∨ who = displayId := by
  unfold Watching.insertMotion
  split_ifs with hmem
  · exact ⟨Or.inl, fun h => h.elim id fun hsame => hsame ▸ hmem⟩
  · rw [List.mem_cons, or_comm]

/-- A monitor is listed once. -/
theorem nodup_insertMotion {motion : List UInt32} (h : motion.Nodup) (displayId : UInt32) :
    (Watching.insertMotion motion displayId).Nodup := by
  unfold Watching.insertMotion
  split_ifs with hmem
  · exact h
  · exact List.nodup_cons.mpr ⟨hmem, h⟩

/-- What a packet does to what is watched. -/
theorem Watching.saw_video (watching : Watching h264) (displayId : UInt32) (data : Bytes) :
    watching.Saw displayId (watching.video displayId data).1 (watching.video displayId data).2 := by
  have hother : ∀ who, who ≠ displayId →
      (watching.bank.push displayId data).2 who = watching.bank who :=
    fun who hwho => bank_push_of_ne watching.bank hwho data
  unfold video
  split
  next frame bank hpush =>
    rw [hpush] at hother
    refine ⟨hother, ?_, rfl, rfl, fun who => ?_, fun who => ?_, fun hnodup => ?_⟩
    · rintro shown ⟨⟩
      rfl
    · by_cases hwho : who = displayId
      · subst hwho
        simp [publish, noteMotion]
      · simp [publish, noteMotion, hwho]
    · simp only [publish, noteMotion]
      cases hlast : watching.lastSample displayId with
      | none =>
          refine ⟨Or.inl, fun h => h.elim id ?_⟩
          rintro ⟨rfl, shown, -, before, hbefore, -⟩
          rw [hlast] at hbefore
          cases hbefore
      | some prev =>
          dsimp only
          split_ifs with hmoved
          · rw [mem_insertMotion]
            refine or_congr_right ⟨?_, And.left⟩
            rintro rfl
            exact ⟨rfl, _, rfl, prev, hlast, hmoved⟩
          · refine ⟨Or.inl, fun h => h.elim id ?_⟩
            rintro ⟨rfl, shown, ⟨⟩, before, hbefore, hne⟩
            rw [hlast] at hbefore
            cases hbefore
            exact absurd hne hmoved
    · simp only [publish, noteMotion]
      cases watching.lastSample displayId with
      | none => exact hnodup
      | some prev =>
          dsimp only
          split_ifs
          · exact nodup_insertMotion hnodup displayId
          · exact hnodup
  next bank hpush =>
    rw [hpush] at hother
    exact ⟨hother, by simp, rfl, rfl, fun who => by simp, fun who => by simp, id⟩
  next err bank hpush =>
    rw [hpush] at hother
    exact ⟨hother, by simp, rfl, rfl, fun who => by simp, fun who => by simp, id⟩

/-! ## Two frames that differ -/

/-- Somewhere two frames that follow one another have different samples. -/
def Moved (frames : List VideoFrame) : Prop :=
  ∃ front first second back, frames = front ++ first :: second :: back ∧
    sampleRgba first.rgba ≠ sampleRgba second.rgba

/-- Nothing moves without frames. -/
theorem not_moved_nil : ¬ Moved [] := by
  rintro ⟨front, first, second, back, hframes, -⟩
  simp at hframes

/-- Another frame moves the picture if it differs from the last one. -/
theorem moved_concat {frames : List VideoFrame} {frame : VideoFrame} :
    Moved (frames ++ [frame]) ↔
      Moved frames ∨ ∃ last ∈ frames.getLast?, sampleRgba last.rgba ≠ sampleRgba frame.rgba := by
  constructor
  · rintro ⟨front, first, second, back, hframes, hne⟩
    cases back using List.reverseRecOn with
    | nil =>
        have hsplit : frames ++ [frame] = (front ++ [first]) ++ [second] := by
          rw [hframes, List.append_assoc]
          rfl
        obtain ⟨rfl, hlast⟩ := List.append_inj' hsplit rfl
        obtain rfl := (List.cons.inj hlast).1
        exact Or.inr ⟨first, List.getLast?_concat, hne⟩
    | append_singleton back last =>
        have hsplit : frames ++ [frame] = (front ++ first :: second :: back) ++ [last] := by
          rw [hframes, List.append_assoc]
          rfl
        obtain ⟨rfl, -⟩ := List.append_inj' hsplit rfl
        exact Or.inl ⟨front, first, second, back, rfl, hne⟩
  · rintro (⟨front, first, second, back, rfl, hne⟩ | ⟨last, hlast, hne⟩)
    · exact ⟨front, first, second, back ++ [frame], by simp, hne⟩
    · obtain ⟨front, rfl⟩ := List.getLast?_eq_some_iff.mp hlast
      exact ⟨front, last, frame, [], by simp, hne⟩

/-! ## Whole runs -/

/-- What the session knows of the frames that were decoded so far. -/
structure WatchRun.Kept (state : WatchRun h264) : Prop where
  distinct : Distinct VideoFrame.displayId state.watching.slot
  newest : ∀ who, Newest VideoFrame.displayId who state.decoded state.taken state.watching.slot
  count : state.watching.framesDecoded.toNat = min state.decoded.length (2 ^ 32 - 1)
  sample : ∀ who, state.watching.lastSample who =
    (ofKey VideoFrame.displayId who state.decoded).getLast?.map fun frame => sampleRgba frame.rgba
  motion : ∀ who, who ∈ state.watching.motion ↔
    Moved (ofKey VideoFrame.displayId who state.decoded)
  nodup : state.watching.motion.Nodup

/-- A packet keeps what is watched right. -/
theorem WatchRun.Kept.packet {state : WatchRun h264} (h : state.Kept) (displayId : UInt32)
    (data : Bytes) : (state.step (.packet displayId data)).Kept := by
  have hsaw := state.watching.saw_video displayId data
  unfold step
  dsimp only
  generalize (state.watching.video displayId data).1 = frame at hsaw
  generalize (state.watching.video displayId data).2 = watching at hsaw
  cases frame with
  | none =>
      have hslot : watching.slot = state.watching.slot := hsaw.slot
      rw [Option.toList_none, List.append_nil]
      refine ⟨?_, fun who => ?_, ?_, fun who => ?_, fun who => ?_, hsaw.nodup h.nodup⟩
      · exact hslot ▸ h.distinct
      · exact hslot ▸ h.newest who
      · exact (congrArg UInt32.toNat hsaw.count).trans h.count
      · rw [hsaw.sample who, h.sample who]
        simp
      · rw [hsaw.motion who, h.motion who]
        simp
  | some shown =>
      have hslot : watching.slot = put VideoFrame.displayId state.watching.slot shown := hsaw.slot
      obtain rfl : shown.displayId = displayId := hsaw.seen shown rfl
      rw [Option.toList_some]
      refine ⟨?_, fun who => ?_, ?_, fun who => ?_, fun who => ?_, hsaw.nodup h.nodup⟩
      · exact hslot ▸ h.distinct.put VideoFrame.displayId shown
      · exact hslot ▸ (h.newest who).put h.distinct shown
      · have hcount : watching.framesDecoded = saturatingSucc state.watching.framesDecoded :=
          hsaw.count
        rw [hcount, toNat_saturatingSucc, h.count, List.length_append, List.length_singleton]
        omega
      · rw [hsaw.sample who]
        by_cases hwho : who = shown.displayId
        · rw [if_pos hwho, hwho, ofKey_append, ofKey_singleton_self, List.getLast?_concat]
          rfl
        · rw [if_neg hwho, h.sample who, ofKey_append,
            ofKey_singleton_of_ne VideoFrame.displayId (Ne.symm hwho), List.append_nil]
      · rw [hsaw.motion who, h.motion who]
        by_cases hwho : who = shown.displayId
        · subst hwho
          rw [ofKey_append, ofKey_singleton_self, moved_concat, h.sample]
          simp
        · rw [ofKey_append, ofKey_singleton_of_ne VideoFrame.displayId (Ne.symm hwho),
            List.append_nil]
          simp [hwho]

/-- Taking the frames keeps what is watched right. -/
theorem WatchRun.Kept.taken {state : WatchRun h264} (h : state.Kept) :
    (state.step .taken).Kept :=
  ⟨List.nodup_nil, fun who => (h.newest who).take, h.count, h.sample, h.motion, h.nodup⟩

/-- At first nothing was decoded. -/
theorem WatchRun.kept_start : ({} : WatchRun h264).Kept where
  distinct := List.nodup_nil
  newest := fun who => Newest.start _ who
  count := rfl
  sample := fun _ => rfl
  motion := fun _ => iff_of_false List.not_mem_nil not_moved_nil
  nodup := List.nodup_nil

/-- What is watched is right in every run. -/
theorem WatchRun.kept_run (events : List PictureEvent) :
    (run WatchRun.step ({} : WatchRun h264) events).Kept :=
  invariant_of_step WatchRun.step WatchRun.Kept
    (fun _ event h => by
      cases event with
      | packet displayId data => exact h.packet displayId data
      | taken => exact h.taken)
    WatchRun.kept_start events

/-! ## One monitor alone -/

/-- The packets of other monitors do not touch a decoder. -/
theorem decoded_run (who : UInt32) (state : WatchRun h264) (events : List PictureEvent) :
    ofKey VideoFrame.displayId who (run WatchRun.step state events).decoded =
      ofKey VideoFrame.displayId who state.decoded ++
        decodeAlone who (state.watching.bank who) (packetsOf who events) := by
  induction events generalizing state with
  | nil => exact (List.append_nil _).symm
  | cons event events ih =>
      rw [run_cons, ih]
      cases event with
      | taken => rfl
      | packet displayId data =>
          have hsaw := state.watching.saw_video displayId data
          by_cases hwho : displayId = who
          · subst hwho
            have hpackets : packetsOf displayId (.packet displayId data :: events) =
                data :: packetsOf displayId events := by simp [packetsOf]
            have hdecoded : (state.step (.packet displayId data)).decoded =
                state.decoded ++ (state.watching.video displayId data).1.toList := rfl
            have hbank : (state.step (.packet displayId data)).watching =
                (state.watching.video displayId data).2 := rfl
            rw [hpackets, hdecoded, hbank, ofKey_append, List.append_assoc, decodeAlone,
              Watching.video, DecoderBank.push]
            cases DecoderBank.decoderOf (state.watching.bank displayId) with
            | error err => rfl
            | ok decoder =>
                dsimp only
                cases hlatest : (DecoderBank.decodeUnit decoder data).1 with
                | none => simp [ofKey]
                | some frame => simp [ofKey, Watching.publish, Watching.noteMotion]
          · have hpackets : packetsOf who (.packet displayId data :: events) =
                packetsOf who events := by simp [packetsOf, hwho]
            have hbank : (state.step (.packet displayId data)).watching.bank who =
                state.watching.bank who := hsaw.other who (Ne.symm hwho)
            have hdecoded : (state.step (.packet displayId data)).decoded =
                state.decoded ++ (state.watching.video displayId data).1.toList := rfl
            have hnone : ofKey VideoFrame.displayId who
                (state.watching.video displayId data).1.toList = [] := by
              cases hframe : (state.watching.video displayId data).1 with
              | none => rfl
              | some shown =>
                  rw [hframe] at hsaw
                  refine ofKey_singleton_of_ne VideoFrame.displayId ?_
                  rw [hsaw.seen shown rfl]
                  exact hwho
            rw [hpackets, hbank, hdecoded, ofKey_append, hnone, List.append_nil]

/-- What the window took of a monitor, and what is there for it. -/
def WatchRun.shown (state : WatchRun h264) (displayId : UInt32) : List VideoFrame :=
  ofKey VideoFrame.displayId displayId (state.taken ++ state.watching.slot)

variable (h264) in
/-- In every run the frames of a monitor are those of its own packets. -/
theorem WatchRun.shown_run (displayId : UInt32) (events : List PictureEvent) :
    let state := run WatchRun.step ({} : WatchRun h264) events
    let own := decodeAlone displayId (none : Option h264.Decoder) (packetsOf displayId events)
    (state.shown displayId).Sublist own ∧ (state.shown displayId).getLast? = own.getLast? := by
  intro state own
  have hown : ofKey VideoFrame.displayId displayId state.decoded = own :=
    decoded_run displayId {} events
  have hkept : state.Kept := WatchRun.kept_run events
  obtain ⟨horder, hlast⟩ := hkept.newest displayId
  exact ⟨hown ▸ horder, hown ▸ hlast⟩

/-- However the packets of the monitors come between one another and whenever the window
takes frames, what it gets of a monitor, and what is there for it, are frames that a decoder
makes of the packets of this monitor alone, in their order, each once at most, and the newest
of them is not lost. -/
theorem monitor_shows_its_packets (displayId : UInt32) (events : List PictureEvent) :
    let state := run WatchRun.step ({} : WatchRun h264) events
    let own := decodeAlone displayId (none : Option h264.Decoder) (packetsOf displayId events)
    (state.shown displayId).Sublist own ∧ (state.shown displayId).getLast? = own.getLast? ∧
      (ofKey VideoFrame.displayId displayId state.watching.slot).length ≤ 1 := by
  intro state own
  have hkept : state.Kept := WatchRun.kept_run events
  have hshown : (state.shown displayId).Sublist own ∧
      (state.shown displayId).getLast? = own.getLast? := WatchRun.shown_run h264 displayId events
  exact ⟨hshown.1, hshown.2, length_ofKey_le_one VideoFrame.displayId hkept.distinct displayId⟩

/-- The report counts the frames that were decoded, up to the greatest number that it can
hold, and lists just the monitors of which two frames in a row had different samples, each
once and in order. -/
theorem report_counts_frames (events : List PictureEvent) :
    let state := run WatchRun.step ({} : WatchRun h264) events
    state.watching.framesDecoded.toNat = min state.decoded.length (2 ^ 32 - 1) ∧
      state.watching.displaysWithMotion.Pairwise (fun a b => a < b) ∧
        ∀ displayId, displayId ∈ state.watching.displaysWithMotion ↔
          Moved (decodeAlone displayId (none : Option h264.Decoder)
            (packetsOf displayId events)) := by
  intro state
  have hkept : state.Kept := WatchRun.kept_run events
  have hperm : state.watching.displaysWithMotion.Perm state.watching.motion :=
    List.mergeSort_perm _ _
  refine ⟨hkept.count, ?_, fun displayId => ?_⟩
  · have hsorted : state.watching.displaysWithMotion.Pairwise (fun a b => decide (a ≤ b) = true) :=
      List.pairwise_mergeSort (by simpa using fun a b c => UInt32.le_trans)
        (by simpa using fun a b => UInt32.le_total a b) _
    have hnodup : state.watching.displaysWithMotion.Nodup := hperm.nodup_iff.mpr hkept.nodup
    refine (hsorted.and hnodup).imp fun {a b} hboth => ?_
    exact UInt32.lt_of_le_of_ne (of_decide_eq_true hboth.1) hboth.2
  · have hown : ofKey VideoFrame.displayId displayId state.decoded =
        decodeAlone displayId none (packetsOf displayId events) := decoded_run displayId {} events
    rw [hperm.mem_iff, hkept.motion, hown]

end OmarchyConnect.Client
