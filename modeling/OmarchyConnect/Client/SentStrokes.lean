/-
# The strokes that are sent

What is delivered to the windows and what is sent to the host are strokes of the same
controls. A call of the client sends the stroke that it is given or none. The modifiers
are changed on the host when they have changed, and the host has those seen last.
-/

import OmarchyConnect.Client.ApplyInput
import OmarchyConnect.Library.Strokes

namespace OmarchyConnect.Client

open OmarchyConnect.Library.Strokes OmarchyConnect.Protocol

/-- A button or key that can be held on the host. -/
inductive Control
  | button (number : UInt8)
  | key (code : UInt16)
  deriving DecidableEq

variable {Pos Rect Delta : Type}

/-- The stroke of a key that has a code. -/
def Key.stroke (key : Key) (pressed : Bool) : Option (Stroke Control) :=
  (evdevCode key).map fun code => ⟨.key code, pressed⟩

/-- The stroke of a button that has a number. -/
def PointerButton.stroke (button : PointerButton) (pressed : Bool) : Option (Stroke Control) :=
  button.number.map fun number => ⟨.button number, pressed⟩

/-- The stroke that an event of the toolkit delivers. -/
def UiEvent.stroke : UiEvent Pos Delta → Option (Stroke Control)
  | .key name pressed _ => name.stroke pressed
  | .pointerButton _ button pressed => button.stroke pressed
  | .mouseWheel _ _ | .other => none

/-- The stroke that an event for the host is. -/
def strokeOf : InputEvent → Option (Stroke Control)
  | .key code pressed => if IsModifier code then none else some ⟨.key code, pressed⟩
  | .mouseButton _ number pressed => some ⟨.button number, pressed⟩
  | .mouseMove _ _ _ | .mouseWheel _ _ _ => none

/-- The change of a modifier that an event for the host is. -/
def changeOf : InputEvent → Option (Stroke UInt16)
  | .key code pressed => if IsModifier code then some ⟨code, pressed⟩ else none
  | .mouseButton _ _ _ | .mouseMove _ _ _ | .mouseWheel _ _ _ => none

/-- Whether a modifier is down. -/
def Modifiers.down (mods : Modifiers) (code : UInt16) : Bool :=
  if code = keyLeftShift then mods.shift
  else if code = keyLeftCtrl then mods.ctrl
  else if code = keyLeftAlt then mods.alt
  else false

/-- The shift is down as the modifiers say. -/
@[simp]
theorem Modifiers.down_shift (mods : Modifiers) : mods.down keyLeftShift = mods.shift := if_pos rfl

/-- The control key is down as the modifiers say. -/
@[simp]
theorem Modifiers.down_ctrl (mods : Modifiers) : mods.down keyLeftCtrl = mods.ctrl := by
  rw [down, if_neg (by decide), if_pos rfl]

/-- The alternate key is down as the modifiers say. -/
@[simp]
theorem Modifiers.down_alt (mods : Modifiers) : mods.down keyLeftAlt = mods.alt := by
  rw [down, if_neg (by decide), if_neg (by decide), if_pos rfl]

/-- The changes from the modifiers seen last. -/
def Modifiers.changes (previous mods : Modifiers) : List (Stroke UInt16) :=
  changed keyLeftShift previous.shift mods.shift ++
    changed keyLeftCtrl previous.ctrl mods.ctrl ++ changed keyLeftAlt previous.alt mods.alt

/-- The changes lead to the modifiers of the moment. -/
theorem Modifiers.held_changes {strokes : List (Stroke UInt16)} {previous : Modifiers}
    (h : ∀ code, held strokes code = previous.down code) (mods : Modifiers) (code : UInt16) :
    held (strokes ++ previous.changes mods) code = mods.down code := by
  have hshift := held_changed ((h keyLeftShift).trans previous.down_shift) mods.shift
  have hctrl := held_changed
    (((hshift keyLeftCtrl).trans (if_neg (by decide))).trans
      ((h keyLeftCtrl).trans previous.down_ctrl)) mods.ctrl
  have halt := held_changed
    (((hctrl keyLeftAlt).trans (if_neg (by decide))).trans
      (((hshift keyLeftAlt).trans (if_neg (by decide))).trans
        ((h keyLeftAlt).trans previous.down_alt))) mods.alt
  rw [changes, ← List.append_assoc, ← List.append_assoc, halt code, hctrl code, hshift code, h code]
  by_cases hisAlt : keyLeftAlt = code
  · rw [if_pos hisAlt, ← hisAlt, down_alt]
  rw [if_neg hisAlt]
  by_cases hisCtrl : keyLeftCtrl = code
  · rw [if_pos hisCtrl, ← hisCtrl, down_ctrl]
  rw [if_neg hisCtrl]
  by_cases hisShift : keyLeftShift = code
  · rw [if_pos hisShift, ← hisShift, down_shift]
  rw [if_neg hisShift]
  simp only [down, Ne.symm hisShift, Ne.symm hisCtrl, Ne.symm hisAlt, if_false]

namespace ClientApp

/-- The strokes among what was sent. -/
def strokes (app : ClientApp Rect) : List (Stroke Control) := app.sent.filterMap strokeOf

/-- The changes of modifiers among what was sent. -/
def changes (app : ClientApp Rect) : List (Stroke UInt16) := app.sent.filterMap changeOf

/-- Between the two states these strokes and changes are sent. -/
def Sends (app after : ClientApp Rect) (strokes : List (Stroke Control))
    (changes : List (Stroke UInt16)) : Prop :=
  ∃ new, after.sent = app.sent ++ new ∧ new.filterMap strokeOf = strokes ∧
    new.filterMap changeOf = changes

section Sends

variable {app middle after : ClientApp Rect} {first second : List (Stroke Control)}
  {before later : List (Stroke UInt16)}

/-- Nothing more was sent. -/
theorem Sends.of_sent (h : after.sent = app.sent) : Sends app after [] [] :=
  ⟨[], by rw [h, List.append_nil], rfl, rfl⟩

/-- What is sent in two steps is sent one after another. -/
theorem Sends.trans (h : Sends app middle first before) (h' : Sends middle after second later) :
    Sends app after (first ++ second) (before ++ later) := by
  obtain ⟨new, hnew, rfl, rfl⟩ := h
  obtain ⟨more, hmore, rfl, rfl⟩ := h'
  exact ⟨new ++ more, by rw [hmore, hnew, List.append_assoc], List.filterMap_append,
    List.filterMap_append⟩

/-- The strokes are added to those before. -/
theorem Sends.strokes_eq (h : Sends app after first before) :
    after.strokes = app.strokes ++ first := by
  obtain ⟨new, hnew, rfl, -⟩ := h
  rw [strokes, strokes, hnew, List.filterMap_append]

/-- The changes are added to those before. -/
theorem Sends.changes_eq (h : Sends app after first before) :
    after.changes = app.changes ++ before := by
  obtain ⟨new, hnew, -, rfl⟩ := h
  rw [changes, changes, hnew, List.filterMap_append]

/-- The host has the modifiers that were seen last. -/
def Synced (app : ClientApp Rect) : Prop :=
  ∀ code, held app.changes code = app.modifiers.down code

/-- Without changes the modifiers stay in step. -/
theorem Sends.synced (h : Sends app after first []) (hmods : after.modifiers = app.modifiers)
    (hsynced : app.Synced) : after.Synced := by
  intro code
  rw [h.changes_eq, List.append_nil, hmods]
  exact hsynced code

/-- The changes bring the modifiers into step. -/
theorem Sends.synced_changes {mods : Modifiers}
    (h : Sends app after first (app.modifiers.changes mods)) (hmods : after.modifiers = mods)
    (hsynced : app.Synced) : after.Synced := by
  intro code
  rw [h.changes_eq, hmods]
  exact Modifiers.held_changes hsynced mods code

/-- An event is sent as its stroke or its change. -/
theorem sends_send (app : ClientApp Rect) (event : InputEvent) :
    Sends app (app.send event) (strokeOf event).toList (changeOf event).toList := by
  refine ⟨[event], rfl, ?_, ?_⟩
  · cases h : strokeOf event <;> simp [h]
  · cases h : changeOf event <;> simp [h]

end Sends

/-! ## What each event sends -/

variable (geometry : Geometry Pos Rect Delta)

/-- A modifier is sent as its change. -/
theorem sends_syncMod (app : ClientApp Rect) {code : UInt16} (h : IsModifier code)
    (previous now : Bool) :
    Sends app (app.syncMod code previous now) [] (changed code previous now) := by
  unfold syncMod changed
  split_ifs
  · simpa [strokeOf, changeOf, h] using sends_send app (.key code now)
  · exact .of_sent rfl

/-- Sending a modifier does not change what was seen last. -/
theorem syncMod_modifiers (app : ClientApp Rect) (code : UInt16) (previous now : Bool) :
    (app.syncMod code previous now).modifiers = app.modifiers := by
  unfold syncMod
  split_ifs <;> rfl

/-- The modifiers of the moment are sent as their changes. -/
theorem sends_syncMods (app : ClientApp Rect) (mods : Modifiers) :
    Sends app (app.syncMods mods) [] (app.modifiers.changes mods) := by
  have hshift := sends_syncMod app (Or.inl rfl) app.modifiers.shift mods.shift
  set first := app.syncMod keyLeftShift app.modifiers.shift mods.shift with hfirst
  have hctrl := sends_syncMod first (Or.inr (Or.inl rfl)) first.modifiers.ctrl mods.ctrl
  set second := first.syncMod keyLeftCtrl first.modifiers.ctrl mods.ctrl with hsecond
  have halt := sends_syncMod second (Or.inr (Or.inr rfl)) second.modifiers.alt mods.alt
  have hlast : Sends (second.syncMod keyLeftAlt second.modifiers.alt mods.alt)
      (app.syncMods mods) [] [] := .of_sent rfl
  have hfirstMods : first.modifiers = app.modifiers := by rw [hfirst, syncMod_modifiers]
  have hsecondMods : second.modifiers = app.modifiers := by
    rw [hsecond, syncMod_modifiers, hfirstMods]
  have hall := ((hshift.trans hctrl).trans halt).trans hlast
  rw [hfirstMods, hsecondMods, List.append_nil (_ ++ changed keyLeftAlt _ _)] at hall
  exact hall

/-- Following the pointer presses nothing. -/
theorem sends_followPointer (app : ClientApp Rect) (pointer : Option Pos) :
    Sends app (app.followPointer geometry pointer) [] [] := by
  unfold followPointer
  split
  · exact .of_sent rfl
  · exact sends_send app (.mouseMove _ _ _)

/-- A key with a code is sent as its stroke. -/
theorem sends_forwardKey (app : ClientApp Rect) (name : Key) (pressed : Bool) :
    Sends app (match evdevCode name with
      | some code => app.send (.key code pressed)
      | none => app) (name.stroke pressed).toList [] := by
  rw [Key.stroke]
  cases hcode : evdevCode name with
  | none => exact .of_sent rfl
  | some code =>
      have hnone := not_isModifier_of_evdevCode hcode
      simpa [strokeOf, changeOf, hnone] using sends_send app (.key code pressed)

/-- A key is sent as its stroke or not at all. -/
theorem sends_applyKey (app : ClientApp Rect) (name : Key) (pressed isRepeat : Bool) :
    Sends app (app.applyKey name pressed isRepeat) [] [] ∨
      Sends app (app.applyKey name pressed isRepeat) (name.stroke pressed).toList [] := by
  unfold applyKey
  split_ifs with hrepeat hfull hescape
  · exact Or.inl (.of_sent rfl)
  · unfold toggleFullscreen
    split
    · exact Or.inl (.of_sent rfl)
    · exact Or.inl (.of_sent rfl)
  · split
    · exact Or.inl (.of_sent rfl)
    · exact Or.inr (sends_forwardKey app name pressed)
  · exact Or.inr (sends_forwardKey app name pressed)

/-- The release of a key is forwarded unless it is said to be a repetition. -/
theorem sends_applyKey_release (app : ClientApp Rect) (name : Key) (isRepeat : Bool) :
    Sends app (app.applyKey name false isRepeat)
      (if isRepeat then [] else (name.stroke false).toList) [] := by
  simp only [applyKey, Bool.false_eq_true, false_and, if_false]
  split_ifs
  · exact .of_sent rfl
  · exact sends_forwardKey app name false

/-- Following the pointer leaves the modifiers alone. -/
theorem followPointer_modifiers (app : ClientApp Rect) (pointer : Option Pos) :
    (app.followPointer geometry pointer).modifiers = app.modifiers := by
  unfold followPointer
  split <;> rfl

/-- A window whose events are gone through. -/
def Listens (app : ClientApp Rect) (input : WindowInput Pos) : Prop :=
  app.typing input = false ∧ input.focused = true

/-- A window that listens brings the modifiers of the host up to date. -/
theorem enterInput_cases (app : ClientApp Rect) (input : WindowInput Pos) :
    (app.Listens input ∧ (app.enterInput geometry input).1 = true ∧
      Sends app (app.enterInput geometry input).2 [] (app.modifiers.changes input.modifiers) ∧
      (app.enterInput geometry input).2.modifiers = input.modifiers) ∨
    (¬ app.Listens input ∧ (app.enterInput geometry input).1 = false ∧
      Sends app (app.enterInput geometry input).2 [] [] ∧
      (app.enterInput geometry input).2.modifiers = app.modifiers) := by
  have hpointer := sends_followPointer geometry app input.pointer
  have hmods := followPointer_modifiers geometry app input.pointer
  simp only [enterInput, Listens]
  split_ifs with htyping hfocused
  · exact Or.inr ⟨fun h => Bool.noConfusion (h.1.symm.trans htyping), rfl, .of_sent rfl, rfl⟩
  · have hsync := hpointer.trans (sends_syncMods _ input.modifiers)
    rw [hmods] at hsync
    exact Or.inl ⟨⟨eq_false_of_ne_true htyping, hfocused⟩, rfl, hsync, rfl⟩
  · exact Or.inr ⟨fun h => hfocused h.2, rfl, hpointer, hmods⟩

/-- A button is forwarded where the pointer is on a monitor. -/
theorem sends_applyButton (hasPath : Bool) (app : ClientApp Rect) (pos : Pos)
    (button : PointerButton) (pressed : Bool) :
    Sends app (app.applyButton geometry hasPath pos button pressed)
      (if (app.hit geometry pos).isSome then (button.stroke pressed).toList else []) [] := by
  unfold applyButton
  cases hhit : app.hit geometry pos with
  | none => exact .of_sent rfl
  | some found =>
      obtain ⟨display, rect⟩ := found
      have hfocus : Sends app (app.surrenderFocus hasPath pressed) [] [] := by
        unfold surrenderFocus
        split_ifs
        · exact .of_sent rfl
        · exact .of_sent rfl
      rw [Option.isSome_some, if_pos rfl, PointerButton.stroke]
      cases button.number with
      | none => exact hfocus
      | some number =>
          exact (hfocus.trans (sends_send _ _)).trans (sends_send _ (.mouseButton _ number pressed))

/-- A wheel presses nothing. -/
theorem sends_applyWheel (app : ClientApp Rect) (unit : MouseWheelUnit) (delta : Delta) :
    Sends app (app.applyWheel geometry unit delta) [] [] := by
  unfold applyWheel
  split
  · exact .of_sent rfl
  · dsimp only
    split_ifs
    · exact sends_send app (.mouseWheel _ _ _)
    · exact .of_sent rfl

/-- An event sends its stroke or none. -/
theorem sends_applyEvent (hasPath : Bool) (app : ClientApp Rect) (event : UiEvent Pos Delta) :
    Sends app (app.applyEvent geometry hasPath event) [] [] ∨
      Sends app (app.applyEvent geometry hasPath event) event.stroke.toList [] := by
  cases event with
  | key name pressed isRepeat => exact sends_applyKey app name pressed isRepeat
  | pointerButton pos button pressed =>
      have hsends := sends_applyButton geometry hasPath app pos button pressed
      split_ifs at hsends
      · exact Or.inr hsends
      · exact Or.inl hsends
  | mouseWheel unit delta => exact Or.inl (sends_applyWheel geometry app unit delta)
  | other => exact Or.inl (.of_sent rfl)

/-- A key leaves the modifiers alone. -/
theorem applyKey_modifiers (app : ClientApp Rect) (key : Key) (pressed isRepeat : Bool) :
    (app.applyKey key pressed isRepeat).modifiers = app.modifiers := by
  unfold applyKey
  split_ifs
  · rfl
  · unfold toggleFullscreen
    split <;> rfl
  · split
    · rfl
    · split <;> rfl
  · split
    · rfl
    · split <;> rfl

/-- A button leaves the modifiers alone. -/
theorem applyButton_modifiers (hasPath : Bool) (app : ClientApp Rect) (pos : Pos)
    (button : PointerButton) (pressed : Bool) :
    (app.applyButton geometry hasPath pos button pressed).modifiers = app.modifiers := by
  have hfocus : (app.surrenderFocus hasPath pressed).modifiers = app.modifiers := by
    unfold surrenderFocus
    split_ifs <;> rfl
  unfold applyButton
  split
  · rfl
  · cases button.number with
    | none => exact hfocus
    | some number => exact hfocus

/-- A wheel leaves the modifiers alone. -/
theorem applyWheel_modifiers (app : ClientApp Rect) (unit : MouseWheelUnit) (delta : Delta) :
    (app.applyWheel geometry unit delta).modifiers = app.modifiers := by
  unfold applyWheel
  split
  · rfl
  · dsimp only
    split_ifs <;> rfl

/-- The events leave the modifiers alone. -/
theorem applyEvent_modifiers (hasPath : Bool) (app : ClientApp Rect)
    (event : UiEvent Pos Delta) :
    (app.applyEvent geometry hasPath event).modifiers = app.modifiers := by
  cases event with
  | key name pressed isRepeat => exact applyKey_modifiers app name pressed isRepeat
  | pointerButton pos button pressed =>
      exact applyButton_modifiers geometry hasPath app pos button pressed
  | mouseWheel unit delta => exact applyWheel_modifiers geometry app unit delta
  | other => rfl

/-- Whether a release is forwarded by a window that listens: the key is not said to be
repeated, the pointer is on a monitor and not on a button of the client. -/
def Forwards (app : ClientApp Rect) : UiEvent Pos Delta → Prop
  | .key _ _ isRepeat => isRepeat = false
  | .pointerButton pos _ _ => (app.hit geometry pos).isSome
  | .mouseWheel _ _ | .other => True

/-- A release is sent where it is forwarded, and else nothing is. -/
theorem sends_release (hasPath : Bool) (app : ClientApp Rect) {event : UiEvent Pos Delta}
    {control : Control} (hrelease : event.stroke = some ⟨control, false⟩) :
    (app.Forwards geometry event ∧
      Sends app (app.applyEvent geometry hasPath event) [⟨control, false⟩] []) ∨
    (¬ app.Forwards geometry event ∧
      Sends app (app.applyEvent geometry hasPath event) [] []) := by
  cases event with
  | key name pressed isRepeat =>
      obtain ⟨code, -, hstroke⟩ := Option.map_eq_some_iff.mp hrelease
      obtain rfl : pressed = false := congrArg Stroke.pressed hstroke
      have hsends := sends_applyKey_release app name isRepeat
      rw [show name.stroke false = some ⟨control, false⟩ from hrelease] at hsends
      cases isRepeat with
      | false => exact Or.inl ⟨rfl, hsends⟩
      | true => exact Or.inr ⟨nofun, hsends⟩
  | pointerButton pos button pressed =>
      have hsends := sends_applyButton geometry hasPath app pos button pressed
      rw [show button.stroke pressed = some ⟨control, false⟩ from hrelease] at hsends
      split_ifs at hsends with hhit
      · exact Or.inl ⟨hhit, hsends⟩
      · exact Or.inr ⟨hhit, hsends⟩
  | mouseWheel unit delta => cases hrelease
  | other => cases hrelease

end ClientApp

end OmarchyConnect.Client
