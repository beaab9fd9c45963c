/-
# Nothing stays pressed on the host

In a run each frame of a window is followed by its events, one at a time, also where
`apply_input` does not get to them. A release that it drops leaves the control pressed on
the host. The modifiers are released by a frame that no longer shows them; when the
window does not listen then, they stay pressed on the host. Nothing else leaves anything
stuck.
-/

import OmarchyConnect.Client.SentStrokes
import OmarchyConnect.Library.Runs
import Mathlib.Logic.Function.Basic

namespace OmarchyConnect.Client

open OmarchyConnect.Library.Strokes OmarchyConnect.Library.Runs OmarchyConnect.Protocol

variable {Pos Rect Delta : Type}

/-- The client with what the toolkit has delivered: the modifiers that each window has
shown last and the strokes. `listening` says that `apply_input` goes through the events of
the window. -/
structure Watch (Rect : Type) where
  app : ClientApp Rect
  hasPath : Bool := false
  listening : Bool := false
  shown : ℕ → Modifiers := fun _ => ⟨false, false, false⟩
  delivered : List (Stroke Control) := []

/-- A frame begins, or an event of it is handled. -/
inductive UiStep (Pos Rect Delta : Type)
  | frame (window : ℕ) (scene : Scene Rect) (input : WindowInput Pos)
  | event (event : UiEvent Pos Delta)

/-- A call of `apply_input`. -/
structure UiFrame (Pos Rect Delta : Type) where
  window : ℕ
  scene : Scene Rect
  input : WindowInput Pos
  events : List (UiEvent Pos Delta)

/-- A frame and its events, in their order. -/
def UiFrame.steps (frame : UiFrame Pos Rect Delta) : List (UiStep Pos Rect Delta) :=
  .frame frame.window frame.scene frame.input :: frame.events.map .event

/-- Some window shows that the modifier is down. -/
def Shown (shown : ℕ → Modifiers) (code : UInt16) : Prop :=
  ∃ window, (shown window).down code = true

namespace Watch

variable (geometry : Geometry Pos Rect Delta)

/-- One step, with the picture of the window that it is in. -/
def step (watch : Watch Rect) : UiStep Pos Rect Delta → Watch Rect
  | .frame window scene input =>
      let (listening, app) := ClientApp.enterInput geometry { watch.app with scene } input
      { watch with
        app
        hasPath := input.hasPath
        listening
        shown := Function.update watch.shown window input.modifiers }
  | .event event =>
      { watch with
        app := if watch.listening then watch.app.applyEvent geometry watch.hasPath event
          else watch.app
        delivered := watch.delivered ++ event.stroke.toList }

/-- Before the first frame. -/
def start (scene : Scene Rect) : Watch Rect := { app := { scene } }

/-- The events of a frame are handled one after another. -/
theorem run_events (watch : Watch Rect) (events : List (UiEvent Pos Delta)) :
    (run (step geometry) watch (events.map .event)).app =
      if watch.listening then events.foldl (ClientApp.applyEvent geometry watch.hasPath) watch.app
      else watch.app := by
  induction events generalizing watch with
  | nil => simp
  | cons event events ih =>
      rw [List.map_cons, run_cons, ih]
      simp only [step]
      split_ifs <;> rfl

/-- The steps of a frame do what `apply_input` does. -/
theorem run_frame (watch : Watch Rect) (frame : UiFrame Pos Rect Delta) :
    (run (step geometry) watch frame.steps).app =
      ClientApp.applyInput geometry { watch.app with scene := frame.scene } frame.input
        frame.events := by
  rw [UiFrame.steps, run_cons, run_events]
  rfl

/-- The step sends an event for the host of which `P` holds. -/
def StepSends (watch : Watch Rect) (uiStep : UiStep Pos Rect Delta) (P : InputEvent → Prop) :
    Prop :=
  ∃ new, (watch.step geometry uiStep).app.sent = watch.app.sent ++ new ∧ ∃ message ∈ new, P message

/-- The release of something that is pressed on the host is sent. A modifier is released
when no window shows it. -/
def ReleaseArrives (watch : Watch Rect) : UiStep Pos Rect Delta → Prop
  | .frame window scene input => ∀ code, held watch.app.changes code = true →
      ¬ Shown (Function.update watch.shown window input.modifiers) code →
        watch.StepSends geometry (.frame window scene input) fun message =>
          changeOf message = some ⟨code, false⟩
  | .event event => ∀ control, event.stroke = some ⟨control, false⟩ →
      held watch.app.strokes control = true →
        watch.StepSends geometry (.event event) fun message =>
          strokeOf message = some ⟨control, false⟩

/-- Nothing is pressed on the host that has been released here. -/
structure NothingStuck (watch : Watch Rect) : Prop where
  controls : Clear watch.delivered watch.app.strokes
  modifiers : ∀ code, held watch.app.changes code = true → Shown watch.shown code

/-- The release of something that is pressed on the host comes while the window does not
listen, or is not forwarded. -/
def DropsRelease (watch : Watch Rect) : UiStep Pos Rect Delta → Prop
  | .frame window scene input => ∃ code, held watch.app.changes code = true ∧
      ¬ Shown (Function.update watch.shown window input.modifiers) code ∧
        ¬ ClientApp.Listens { watch.app with scene } input
  | .event event => ∃ control, event.stroke = some ⟨control, false⟩ ∧
      held watch.app.strokes control = true ∧
        ¬ (watch.listening = true ∧ watch.app.Forwards geometry event)

section Steps

variable {geometry} {watch : Watch Rect}

/-! ## Frames -/

/-- What a frame sends when its window listens and when it does not. -/
theorem step_frame (geometry : Geometry Pos Rect Delta) (watch : Watch Rect) (window : ℕ)
    (scene : Scene Rect) (input : WindowInput Pos) :
    (ClientApp.Listens { watch.app with scene } input ∧
      watch.app.Sends (watch.step geometry (.frame window scene input)).app []
        (watch.app.modifiers.changes input.modifiers) ∧
      (watch.step geometry (.frame window scene input)).app.modifiers = input.modifiers) ∨
    (¬ ClientApp.Listens { watch.app with scene } input ∧
      watch.app.Sends (watch.step geometry (.frame window scene input)).app [] [] ∧
      (watch.step geometry (.frame window scene input)).app.modifiers = watch.app.modifiers) := by
  refine (ClientApp.enterInput_cases geometry { watch.app with scene } input).imp ?_ ?_
  · exact fun ⟨hlistens, _, hsends, hmods⟩ => ⟨hlistens, hsends, hmods⟩
  · exact fun ⟨hlistens, _, hsends, hmods⟩ => ⟨hlistens, hsends, hmods⟩

/-- A window that listens releases the modifiers that it does not show. -/
theorem release_of_listens {window : ℕ} {scene : Scene Rect} {input : WindowInput Pos}
    {code : UInt16} (hsynced : (watch.step geometry (.frame window scene input)).app.Synced)
    (hmods : (watch.step geometry (.frame window scene input)).app.modifiers = input.modifiers)
    (hshown : ¬ Shown (Function.update watch.shown window input.modifiers) code) :
    held (watch.step geometry (.frame window scene input)).app.changes code = false := by
  rw [hsynced code, hmods]
  refine eq_false_of_ne_true fun hdown => hshown ⟨window, ?_⟩
  rw [Function.update_self]
  exact hdown

/-- What is seen of the events that a step sends. -/
theorem stepSends_iff {α : Type} {uiStep : UiStep Pos Rect Delta} {new : List InputEvent}
    (hnew : (watch.step geometry uiStep).app.sent = watch.app.sent ++ new)
    (view : InputEvent → Option α) (seen : α) :
    (watch.StepSends geometry uiStep fun message => view message = some seen) ↔
      seen ∈ new.filterMap view := by
  rw [List.mem_filterMap]
  constructor
  · rintro ⟨more, hmore, hseen⟩
    obtain rfl := List.append_cancel_left (hnew.symm.trans hmore)
    exact hseen
  · exact fun hseen => ⟨new, hnew, hseen⟩

/-- A stroke is sent in a step just when it is one of its strokes. -/
theorem stepSends_stroke_iff {uiStep : UiStep Pos Rect Delta} {strokes : List (Stroke Control)}
    {changes : List (Stroke UInt16)}
    (hsends : watch.app.Sends (watch.step geometry uiStep).app strokes changes)
    (stroke : Stroke Control) :
    (watch.StepSends geometry uiStep fun message => strokeOf message = some stroke) ↔
      stroke ∈ strokes := by
  obtain ⟨new, hnew, rfl, -⟩ := hsends
  exact stepSends_iff hnew strokeOf stroke

/-- A change is sent in a step just when it is one of its changes. -/
theorem stepSends_change_iff {uiStep : UiStep Pos Rect Delta} {strokes : List (Stroke Control)}
    {changes : List (Stroke UInt16)}
    (hsends : watch.app.Sends (watch.step geometry uiStep).app strokes changes)
    (change : Stroke UInt16) :
    (watch.StepSends geometry uiStep fun message => changeOf message = some change) ↔
      change ∈ changes := by
  obtain ⟨new, hnew, -, rfl⟩ := hsends
  exact stepSends_iff hnew changeOf change

/-- A frame releases a modifier when its window listens. -/
theorem frameArrives_iff (h : watch.app.Synced) (window : ℕ) (scene : Scene Rect)
    (input : WindowInput Pos) :
    watch.ReleaseArrives geometry (.frame window scene input) ↔
      ¬ watch.DropsRelease geometry (.frame window scene input) := by
  rcases step_frame geometry watch window scene input with
    ⟨hlistens, hsends, hmods⟩ | ⟨hlistens, hsends, -⟩
  · refine iff_of_true (fun code hheld hshown => ?_) fun ⟨_, _, _, hnot⟩ => hnot hlistens
    have hreleased := release_of_listens (hsends.synced_changes hmods h) hmods hshown
    rw [hsends.changes_eq] at hreleased
    exact (stepSends_change_iff hsends _).mpr (release_mem hheld hreleased)
  · constructor
    · rintro harrives ⟨code, hheld, hshown, -⟩
      exact List.not_mem_nil ((stepSends_change_iff hsends _).mp (harrives code hheld hshown))
    · exact fun hnot code hheld hshown => absurd ⟨code, hheld, hshown, hlistens⟩ hnot

/-- Only a window that does not listen leaves a modifier stuck. -/
theorem nothingStuck_frame_iff (h : watch.NothingStuck) (hsynced : watch.app.Synced)
    (window : ℕ) (scene : Scene Rect) (input : WindowInput Pos) :
    (watch.step geometry (.frame window scene input)).NothingStuck ↔
      ¬ watch.DropsRelease geometry (.frame window scene input) := by
  rcases step_frame geometry watch window scene input with
    ⟨hlistens, hsends, hmods⟩ | ⟨hlistens, hsends, -⟩
  · refine iff_of_true ⟨?_, fun code hheld => ?_⟩ fun ⟨_, _, _, hnot⟩ => hnot hlistens
    · rw [hsends.strokes_eq, List.append_nil]
      exact h.controls
    · by_contra hshown
      have hreleased := release_of_listens (hsends.synced_changes hmods hsynced) hmods hshown
      exact Bool.noConfusion (hheld.symm.trans hreleased)
  · have hchanges : (watch.step geometry (.frame window scene input)).app.changes =
        watch.app.changes := hsends.changes_eq.trans (List.append_nil _)
    constructor
    · rintro hnext ⟨code, hheld, hshown, -⟩
      rw [← hchanges] at hheld
      exact hshown (hnext.modifiers code hheld)
    · refine fun hnot => ⟨?_, fun code hheld => ?_⟩
      · rw [hsends.strokes_eq, List.append_nil]
        exact h.controls
      · rw [hchanges] at hheld
        by_contra hshown
        exact hnot ⟨code, hheld, hshown, hlistens⟩

/-! ## Events -/

/-- An event that comes to a window sends its stroke or none. -/
theorem step_event (geometry : Geometry Pos Rect Delta) (watch : Watch Rect)
    (event : UiEvent Pos Delta) :
    watch.app.Sends (watch.step geometry (.event event)).app [] [] ∨
      watch.app.Sends (watch.step geometry (.event event)).app event.stroke.toList [] := by
  simp only [step]
  split_ifs
  · exact ClientApp.sends_applyEvent geometry watch.hasPath watch.app event
  · exact Or.inl (.of_sent rfl)

/-- What a release sends when it comes to a window. -/
theorem step_release {event : UiEvent Pos Delta} {control : Control}
    (hrelease : event.stroke = some ⟨control, false⟩) :
    ((watch.listening = true ∧ watch.app.Forwards geometry event) ∧
      watch.app.Sends (watch.step geometry (.event event)).app [⟨control, false⟩] []) ∨
    (¬ (watch.listening = true ∧ watch.app.Forwards geometry event) ∧
      watch.app.Sends (watch.step geometry (.event event)).app [] []) := by
  simp only [step]
  cases hlistening : watch.listening with
  | false => exact Or.inr ⟨nofun, .of_sent rfl⟩
  | true =>
      rw [if_pos rfl]
      refine (ClientApp.sends_release geometry watch.hasPath watch.app hrelease).imp ?_ ?_
      · exact fun ⟨hforwards, hsends⟩ => ⟨⟨rfl, hforwards⟩, hsends⟩
      · exact fun ⟨hfilter, hsends⟩ => ⟨fun hboth => hfilter hboth.2, hsends⟩

/-- An event of a frame changes no modifier. -/
theorem event_changes (event : UiEvent Pos Delta) :
    (watch.step geometry (.event event)).app.changes = watch.app.changes := by
  rcases step_event geometry watch event with hsends | hsends
  · exact hsends.changes_eq.trans (List.append_nil _)
  · exact hsends.changes_eq.trans (List.append_nil _)

/-- A release arrives when it is not dropped. -/
theorem eventArrives_iff (event : UiEvent Pos Delta) :
    watch.ReleaseArrives geometry (.event event) ↔
      ¬ watch.DropsRelease geometry (.event event) := by
  constructor
  · rintro harrives ⟨control, hrelease, hheld, hdropped⟩
    rcases step_release hrelease with ⟨hforwards, -⟩ | ⟨-, hsends⟩
    · exact hdropped hforwards
    · have hsent := harrives control hrelease hheld
      exact List.not_mem_nil ((stepSends_stroke_iff hsends _).mp hsent)
  · intro hnot control hrelease hheld
    rcases step_release hrelease with ⟨-, hsends⟩ | ⟨hdropped, -⟩
    · exact (stepSends_stroke_iff hsends _).mpr (List.mem_singleton_self _)
    · exact absurd ⟨control, hrelease, hheld, hdropped⟩ hnot

/-- A press leaves nothing stuck, whether it is sent or not. -/
theorem clear_press (h : Clear watch.delivered watch.app.strokes) {event : UiEvent Pos Delta}
    {control : Control} (hpress : event.stroke = some ⟨control, true⟩) :
    Clear (watch.delivered ++ [⟨control, true⟩])
      (watch.step geometry (.event event)).app.strokes := by
  rcases step_event geometry watch event with hsends | hsends
  · rw [hsends.strokes_eq, List.append_nil]
    exact (h.drop_iff _).mpr fun hreleased => Bool.noConfusion hreleased.1
  · rw [hsends.strokes_eq, hpress]
    exact h.pass _

/-- A release leaves its control stuck when it is dropped. -/
theorem clear_release_iff (h : Clear watch.delivered watch.app.strokes)
    {event : UiEvent Pos Delta} {control : Control}
    (hrelease : event.stroke = some ⟨control, false⟩) :
    Clear (watch.delivered ++ [⟨control, false⟩])
        (watch.step geometry (.event event)).app.strokes ↔
      ¬ watch.DropsRelease geometry (.event event) := by
  rcases step_release hrelease with ⟨hforwards, hsends⟩ | ⟨hdropped, hsends⟩
  · rw [hsends.strokes_eq]
    refine iff_of_true (h.pass _) ?_
    rintro ⟨other, -, -, hother⟩
    exact hother hforwards
  · rw [hsends.strokes_eq, List.append_nil, h.drop_iff]
    refine not_congr ⟨fun hheld => ⟨control, hrelease, hheld.2, hdropped⟩, ?_⟩
    rintro ⟨other, hother, hheld, -⟩
    obtain rfl : other = control := by cases hrelease.symm.trans hother; rfl
    exact ⟨rfl, hheld⟩

/-- Only a dropped release leaves a control stuck. -/
theorem clear_event_iff (h : Clear watch.delivered watch.app.strokes)
    (event : UiEvent Pos Delta) :
    Clear (watch.delivered ++ event.stroke.toList)
        (watch.step geometry (.event event)).app.strokes ↔
      ¬ watch.DropsRelease geometry (.event event) := by
  cases hstroke : event.stroke with
  | none =>
      have hnothing : watch.app.Sends (watch.step geometry (.event event)).app [] [] := by
        simpa [hstroke] using step_event geometry watch event
      rw [hnothing.strokes_eq, Option.toList_none, List.append_nil, List.append_nil]
      refine iff_of_true h ?_
      rintro ⟨control, hrelease, -⟩
      exact Option.some_ne_none _ (hrelease.symm.trans hstroke)
  | some stroke =>
      obtain ⟨control, pressed⟩ := stroke
      rw [Option.toList_some]
      cases pressed with
      | true =>
          refine iff_of_true (clear_press h hstroke) ?_
          rintro ⟨other, hrelease, -⟩
          cases hstroke.symm.trans hrelease
      | false => exact clear_release_iff h hstroke

/-- An event leaves nothing stuck just when it drops no release of something held. -/
theorem nothingStuck_event_iff (h : watch.NothingStuck) (event : UiEvent Pos Delta) :
    (watch.step geometry (.event event)).NothingStuck ↔
      ¬ watch.DropsRelease geometry (.event event) := by
  rw [← clear_event_iff h.controls event]
  refine ⟨fun hnext => hnext.controls, fun hclear => ⟨hclear, fun code hheld => ?_⟩⟩
  rw [event_changes] at hheld
  exact h.modifiers code hheld

/-! ## Runs -/

/-- An event of a frame leaves the modifiers alone. -/
theorem event_modifiers (event : UiEvent Pos Delta) :
    (watch.step geometry (.event event)).app.modifiers = watch.app.modifiers := by
  simp only [step]
  split_ifs
  · exact ClientApp.applyEvent_modifiers geometry watch.hasPath watch.app event
  · rfl

/-- The host has the modifiers seen last. -/
theorem synced_step (h : watch.app.Synced) (uiStep : UiStep Pos Rect Delta) :
    (watch.step geometry uiStep).app.Synced := by
  cases uiStep with
  | frame window scene input =>
      rcases step_frame geometry watch window scene input with
        ⟨-, hsends, hmods⟩ | ⟨-, hsends, hmods⟩
      · exact hsends.synced_changes hmods h
      · exact hsends.synced hmods h
  | event event =>
      intro code
      rw [event_changes, event_modifiers]
      exact h code

/-- At first no modifier is down. -/
theorem synced_start (scene : Scene Rect) : (start scene).app.Synced := by
  intro code
  simp only [start, ClientApp.changes, Modifiers.down, List.filterMap_nil, held_nil]
  split_ifs <;> rfl

/-- A release arrives just when it is not dropped. -/
theorem releaseArrives_iff (geometry : Geometry Pos Rect Delta) (h : watch.app.Synced)
    (uiStep : UiStep Pos Rect Delta) :
    watch.ReleaseArrives geometry uiStep ↔ ¬ watch.DropsRelease geometry uiStep := by
  cases uiStep with
  | frame window scene input => exact frameArrives_iff h window scene input
  | event event => exact eventArrives_iff event

/-- At first nothing is held. -/
theorem nothingStuck_start (scene : Scene Rect) : NothingStuck (start scene) :=
  ⟨Clear.nil, nofun⟩

/-- Only a dropped release leaves something stuck. -/
theorem nothingStuck_step_iff (h : watch.NothingStuck) (hsynced : watch.app.Synced)
    (uiStep : UiStep Pos Rect Delta) :
    (watch.step geometry uiStep).NothingStuck ↔ ¬ watch.DropsRelease geometry uiStep := by
  cases uiStep with
  | frame window scene input => exact nothingStuck_frame_iff h hsynced window scene input
  | event event => exact nothingStuck_event_iff h event

end Steps

/-- Every release arrives and nothing is ever stuck just when no release is dropped. -/
theorem nothing_stuck_iff (geometry : Geometry Pos Rect Delta) (scene : Scene Rect)
    (frames : List (UiFrame Pos Rect Delta)) :
    (Along (step geometry) (ReleaseArrives geometry) (start scene)
        (frames.flatMap UiFrame.steps) ∧
      ∀ front, front <+: frames.flatMap UiFrame.steps →
        NothingStuck (run (step geometry) (start scene) front)) ↔
      Along (step geometry) (fun watch uiStep => ¬ watch.DropsRelease geometry uiStep)
        (start scene) (frames.flatMap UiFrame.steps) := by
  have hstuck := prefixes_iff_along_of_inv (step geometry)
    (fun (watch : Watch Rect) uiStep (h : watch.NothingStuck ∧ watch.app.Synced) hnot =>
      ⟨(nothingStuck_step_iff h.1 h.2 uiStep).mpr hnot, synced_step h.2 uiStep⟩)
    (fun _ h => h.1)
    (fun _ uiStep h hdrops hnext => (nothingStuck_step_iff h.1 h.2 uiStep).mp hnext hdrops)
    ⟨nothingStuck_start scene, synced_start scene⟩ (frames.flatMap UiFrame.steps)
  have harrive := along_congr (step geometry) (fun watch => watch.app.Synced)
    (fun _ uiStep h => synced_step h uiStep)
    (fun _ uiStep h => releaseArrives_iff geometry h uiStep) (synced_start scene)
    (frames.flatMap UiFrame.steps)
  rw [hstuck, harrive, and_self_iff]

/-! ## A drag that leaves the monitor -/

/-- Windows whose positions are pixels, with rectangles from their upper left corner. -/
def plain : Geometry (ℕ × ℕ) (ℕ × ℕ) Unit where
  contains rect pos := pos.1 < rect.1 && pos.2 < rect.2
  pixel _ _ pos := (pos.1.toUInt32, pos.2.toUInt32)
  wheel _ _ := (0, 0)

/-- One monitor of ten pixels each way. -/
def monitor : Scene (ℕ × ℕ) where
  hits := [(⟨1, 0, 0, 10, 10, 100, "DP-1"⟩, (10, 10))]
  chrome := []
  hovered := none
  detached := ∅
  fullscreen := ∅
  pathFocus := false

/-- A frame in which the primary button is pressed or released. -/
def dragFrame (pos : ℕ × ℕ) (pressed : Bool) : UiFrame (ℕ × ℕ) (ℕ × ℕ) Unit where
  window := 0
  scene := monitor
  input := ⟨true, some pos, true, ⟨false, false, false⟩⟩
  events := [.pointerButton pos .primary pressed]

/-- A button is pressed inside of the picture and released outside. -/
def drag : List (UiFrame (ℕ × ℕ) (ℕ × ℕ) Unit) := [dragFrame (5, 5) true, dragFrame (15, 5) false]

/-- The button is released outside of the monitor and stays pressed on the host. -/
theorem drag_stuck :
    ¬ (Along (step plain) (ReleaseArrives plain) (start monitor) (drag.flatMap UiFrame.steps) ∧
      ∀ front, front <+: drag.flatMap UiFrame.steps →
        NothingStuck (run (step plain) (start monitor) front)) := by
  rintro ⟨-, hall⟩
  have hheld : held (run (step plain) (start monitor) (drag.flatMap UiFrame.steps)).app.strokes
      (.button 0) = true := by decide
  have hreleased : held (run (step plain) (start monitor)
      (drag.flatMap UiFrame.steps)).delivered (.button 0) = false := by decide
  have hhere := (hall _ (List.prefix_refl _)).controls (.button 0) hheld
  exact Bool.noConfusion (hreleased.symm.trans hhere)

end Watch

end OmarchyConnect.Client
