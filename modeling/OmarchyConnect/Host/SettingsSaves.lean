/-
# Calls of `save`

What each call of a command does to the files, and what becomes of a command that
nothing interrupts. Two commands that have both loaded the settings are told apart only
by who renames last, and one that opens the temp file of another cuts it down.
-/

import OmarchyConnect.Host.Settings

namespace OmarchyConnect.Host

open OmarchyConnect.Library OmarchyConnect.Library.Wire OmarchyConnect.Library.Runs
open OmarchyConnect.Protocol

/-! ## Settings in a file -/

/-- A text that starts with no blank is not blank. -/
theorem trim_ne_empty {text : String} {first : Char} (hfirst : text.toList.head? = some first)
    (hplain : isWhitespace first = false) : trim text ≠ "" := by
  obtain ⟨rest, hrest⟩ : ∃ rest, text.toList = first :: rest := by
    cases hlist : text.toList with
    | nil => simp [hlist] at hfirst
    | cons other rest =>
        rw [hlist, List.head?_cons] at hfirst
        exact ⟨rest, by rw [Option.some.inj hfirst]⟩
  intro hempty
  have hchars := congrArg String.toList hempty
  rw [trim, String.toList_ofList, hrest, List.dropWhile_cons_of_neg (by simp [hplain])] at hchars
  have hall := List.rdropWhile_eq_nil_iff.mp hchars first List.mem_cons_self
  rw [hplain] at hall
  cases hall

/-- A text that is not empty has bytes. -/
theorem utf8Bytes_ne_nil {text : String} (hfirst : text.toList.head? ≠ none) :
    0 < (utf8Bytes text).length := by
  refine Nat.pos_of_ne_zero fun hzero => hfirst ?_
  have hempty : text = "" := by simpa [utf8Bytes] using hzero
  simp [hempty]

/-- What `save` has written is loaded again. -/
theorem Settings.load_text {json : SettingsJson} (hjson : json.Lawful) (settings : Settings) :
    Settings.load json (some (settings.text json)) = .ok settings := by
  have hbytes : settings.text json = utf8Bytes (json.toStringPretty settings ++ "\n") := by
    simp [Settings.text, utf8Bytes]
  have hfirst : (json.toStringPretty settings ++ "\n").toList.head? = some '\x7b' := by
    rw [String.toList_append, List.head?_append, hjson.object]
    rfl
  rw [Settings.load, hbytes, fromUTF8?_utf8Bytes]
  simp only [if_neg (trim_ne_empty hfirst (by decide)), hjson.reads]

namespace SettingsState

variable {json : SettingsJson} {commands : ℕ → SettingsCommand} {state : SettingsState}

/-! ## One call -/

/-- A command's step after one of them went on. -/
theorem command_setCommand (state : SettingsState) (id other : ℕ) (saving : Saving) :
    (state.setCommand id saving).command other =
      if other = id then saving else state.command other := Function.update_apply _ _ _ _

/-- The command itself went on. -/
@[simp]
theorem command_setCommand_self (state : SettingsState) (id : ℕ) (saving : Saving) :
    (state.setCommand id saving).command id = saving := Function.update_self _ _ _

/-- A command stands still while others take their steps. -/
theorem command_step_of_ne (json : SettingsJson) (commands : ℕ → SettingsCommand)
    (state : SettingsState) {event : SettingsEvent} {other : ℕ} (hother : event.id ≠ other) :
    (state.step json commands event).command other = state.command other := by
  have hkept : ∀ saving, (state.setCommand event.id saving).command other =
      state.command other := by
    intro saving
    rw [command_setCommand, if_neg hother.symm]
  cases event with
  | load id =>
      simp only [step, stepLoad]
      split
      next =>
        split
        next => exact hkept _
        next =>
          split
          next => exact hkept _
          next => exact hkept _
          next => exact hkept _
      next => rfl
  | openTemp id =>
      simp only [step, stepOpen]
      split
      next => exact hkept _
      next => rfl
  | write id count =>
      simp only [step, stepWrite]
      split
      next => exact hkept _
      next => rfl
  | rename id =>
      simp only [step, stepRename]
      split
      next =>
        split
        next => exact hkept _
        next => exact hkept _
      next => rfl

/-- Steps of other commands leave a command where it is. -/
theorem command_run_of_ne (json : SettingsJson) (commands : ℕ → SettingsCommand)
    (state : SettingsState) {events : List SettingsEvent} {other : ℕ}
    (hothers : ∀ event ∈ events, event.id ≠ other) :
    (run (step json commands) state events).command other = state.command other := by
  induction events generalizing state with
  | nil => rfl
  | cons event events ih =>
      rw [run_cons, ih _ fun later hlater => hothers later (List.mem_cons_of_mem event hlater)]
      exact command_step_of_ne json commands state (hothers event List.mem_cons_self)

/-- A command that has loaded the settings has something to save. -/
theorem stepLoad_of_change {id : ℕ} {current settings : Settings}
    (hready : state.command id = .ready) (hload : state.load json = .ok current)
    (hchange : (commands id).change current = .ok (some settings)) :
    state.stepLoad json commands id = state.setCommand id (.changed settings) := by
  simp only [stepLoad, hready, hload, hchange]

/-- The temp file holds what the command has written. -/
def AtEnd (state : SettingsState) (id : ℕ) (settings : Settings) (done rest : Bytes) : Prop :=
  ∃ inode, state.command id = .writing settings inode done.length rest ∧
    state.files.names .temp = some inode ∧ state.files.content inode = done

/-- A command that opens the temp file is at its start. -/
theorem AtEnd.openTemp {id : ℕ} {settings : Settings}
    (hchanged : state.command id = .changed settings) :
    (state.stepOpen json id).AtEnd id settings [] (settings.text json) := by
  obtain ⟨hname, hempty⟩ := state.files.openTruncate_spec SettingsName.temp
  simp only [stepOpen, hchanged]
  generalize state.files.openTruncate SettingsName.temp = opened at hname hempty ⊢
  exact ⟨opened.1, Function.update_self _ _ _, hname, hempty⟩

/-- A write moves the command on by what it wrote. -/
theorem AtEnd.write {id : ℕ} {settings : Settings} {done rest : Bytes}
    (h : state.AtEnd id settings done rest) (count : ℕ) :
    (state.stepWrite id count).AtEnd id settings (done ++ rest.take (count + 1))
      (rest.drop (count + 1)) := by
  obtain ⟨inode, hwriting, hname, hcontent⟩ := h
  simp only [stepWrite, hwriting]
  refine ⟨inode, ?_, hname, ?_⟩
  · rw [List.length_append]
    exact Function.update_self _ _ _
  · rw [Inodes.writeAt, Inodes.content_setContent, hcontent, Inodes.overwrite_end]

/-- The settings are still those that were there when the command opened the temp file. -/
theorem AtEnd.load_write {id : ℕ} {settings : Settings} {done rest : Bytes}
    (h : state.AtEnd id settings done rest) (count : ℕ) :
    (state.stepWrite id count).load json = state.load json := by
  obtain ⟨inode, hwriting, hname, -⟩ := h
  simp only [stepWrite, hwriting]
  refine congrArg (Settings.load json) (state.files.read_setContent_of_ne _ fun hfile => ?_)
  have hsame := state.files.distinct .file .temp inode hfile hname
  cases hsame

/-- To open the temp file changes no settings. -/
theorem load_stepOpen (state : SettingsState) (id : ℕ) :
    (state.stepOpen json id).load json = state.load json := by
  unfold stepOpen
  split
  next => exact congrArg (Settings.load json) (state.files.read_openTruncate_of_ne (by decide))
  next => rfl

/-- What is recorded stays while the temp file is written. -/
theorem records_stepOpen (json : SettingsJson) (state : SettingsState) (id : ℕ) :
    (state.stepOpen json id).finished = state.finished ∧
      (state.stepOpen json id).saved = state.saved := by
  unfold stepOpen
  split <;> exact ⟨rfl, rfl⟩

/-- A write is recorded nowhere. -/
theorem records_stepWrite (state : SettingsState) (id count : ℕ) :
    (state.stepWrite id count).finished = state.finished ∧
      (state.stepWrite id count).saved = state.saved := by
  unfold stepWrite
  split <;> exact ⟨rfl, rfl⟩

/-- A command puts in place what stands in the temp file. -/
theorem renamed (json : SettingsJson) {id : ℕ} {settings : Settings} {inode offset named : ℕ}
    (hwriting : state.command id = .writing settings inode offset [])
    (hname : state.files.names .temp = some named) :
    (state.stepRename id).load json = Settings.load json (some (state.files.content named)) ∧
      (state.stepRename id).finished = state.finished ++ [id] ∧
        (state.stepRename id).saved = state.saved ++ [settings] ∧
          (state.stepRename id).command id = .succeeded := by
  obtain ⟨files, hrename, hread⟩ := state.files.rename_of_name .file hname
  have hstep : state.stepRename id =
      { state.finish id with files, saved := state.saved ++ [settings] } := by
    simp only [stepRename, hwriting, hrename]
  rw [hstep]
  refine ⟨?_, rfl, rfl, Function.update_self _ _ _⟩
  rw [SettingsState.load, hread]

/-! ## Commands that nothing interrupts -/

/-- The calls of `save`, with one call for each `write_all`. -/
def saveCalls (json : SettingsJson) (id : ℕ) (settings : Settings) : List SettingsEvent :=
  [.openTemp id, .write id ((utf8Bytes (json.toStringPretty settings)).length - 1), .write id 0,
    .rename id]

/-- A command that has written everything. -/
theorem written (hjson : json.Lawful) (commands : ℕ → SettingsCommand) {id : ℕ}
    {settings : Settings} (hchanged : state.command id = .changed settings) :
    let after := run (SettingsState.step json commands) state (saveCalls json id settings).dropLast
    after.AtEnd id settings (settings.text json) [] ∧ after.load json = state.load json ∧
      after.finished = state.finished ∧ after.saved = state.saved := by
  intro after
  have hpretty : 0 < (utf8Bytes (json.toStringPretty settings)).length :=
    utf8Bytes_ne_nil (by simp [hjson.object])
  have hcount : (utf8Bytes (json.toStringPretty settings)).length - 1 + 1 =
      (utf8Bytes (json.toStringPretty settings)).length := Nat.sub_add_cancel hpretty
  have hnewline : (utf8Bytes "\n").length = 0 + 1 := rfl
  have hopened : (state.stepOpen json id).AtEnd id settings [] (settings.text json) :=
    AtEnd.openTemp hchanged
  have hfirst := hopened.write ((utf8Bytes (json.toStringPretty settings)).length - 1)
  rw [hcount, Settings.text, List.take_left, List.drop_left, List.nil_append] at hfirst
  have hsecond := hfirst.write 0
  rw [← hnewline, List.take_length, List.drop_length, ← Settings.text] at hsecond
  have hopenRecords := state.records_stepOpen json id
  refine ⟨hsecond, ?_, ?_, ?_⟩
  · exact (hfirst.load_write 0).trans ((hopened.load_write _).trans (state.load_stepOpen id))
  · exact (records_stepWrite _ id 0).1.trans ((records_stepWrite _ id _).1.trans hopenRecords.1)
  · exact (records_stepWrite _ id 0).2.trans ((records_stepWrite _ id _).2.trans hopenRecords.2)

/-- The last call of a save is its rename. -/
theorem saveCalls_eq (json : SettingsJson) (id : ℕ) (settings : Settings) :
    saveCalls json id settings = (saveCalls json id settings).dropLast ++ [.rename id] := rfl

/-- All calls of a save are by the command itself. -/
theorem id_of_mem_saveCalls {id : ℕ} {settings : Settings} {event : SettingsEvent}
    (hevent : event ∈ saveCalls json id settings) : event.id = id := by
  simp only [saveCalls, List.mem_cons, List.not_mem_nil, or_false] at hevent
  rcases hevent with rfl | rfl | rfl | rfl <;> rfl

/-- A save that nothing interrupts puts its settings in place, whatever stands there. -/
theorem saved_alone (hjson : json.Lawful) (commands : ℕ → SettingsCommand) {id : ℕ}
    {settings : Settings} (hchanged : state.command id = .changed settings) :
    let after := run (SettingsState.step json commands) state (saveCalls json id settings)
    after.load json = .ok settings ∧ after.finished = state.finished ++ [id] ∧
      after.saved = state.saved ++ [settings] ∧ after.command id = .succeeded := by
  intro after
  obtain ⟨⟨inode, hwriting, hname, hcontent⟩, -, hfinished, hsaved⟩ :=
    written hjson commands hchanged
  obtain ⟨hload, hfinishes, hsaves, hcommand⟩ := renamed json hwriting hname
  have hafter : after = (run (SettingsState.step json commands) state
      (saveCalls json id settings).dropLast).stepRename id := by
    simp only [after]
    rw [saveCalls_eq, run_append_singleton]
    rfl
  rw [hafter]
  refine ⟨?_, ?_, ?_, hcommand⟩
  · rw [hload, hcontent, Settings.load_text hjson]
  · rw [hfinishes, hfinished]
  · rw [hsaves, hsaved]

/-- A command that saves alone takes care when its settings are still those that it makes of
what is there. -/
theorem careful_save (hjson : json.Lawful) {id : ℕ} {current settings : Settings}
    (halone : ∀ other, ¬ state.Writing other) (hchanged : state.command id = .changed settings)
    (hload : state.load json = .ok current)
    (hchange : (commands id).change current = .ok (some settings)) :
    Along (SettingsState.step json commands) (Careful json commands) state
      (saveCalls json id settings) := by
  obtain ⟨hatEnd, hkept, -⟩ := written hjson commands hchanged
  obtain ⟨inode, hwriting, -⟩ := hatEnd
  rw [saveCalls_eq, along_append]
  refine ⟨⟨fun _ _ => halone, trivial, trivial, trivial⟩, ?_, trivial⟩
  intro found inode' offset hfound now hnow
  obtain ⟨rfl, -⟩ := Saving.writing.inj (hwriting.symm.trans hfound)
  obtain rfl := Except.ok.inj (hload.symm.trans (hkept.symm.trans hnow))
  exact hchange

/-- Of two commands that have both loaded the settings, the file holds what the second
makes of them. -/
theorem second_wins (hjson : json.Lawful) (commands : ℕ → SettingsCommand) {first second : ℕ}
    {one other : Settings} (hne : first ≠ second) (hfirst : state.command first = .changed one)
    (hsecond : state.command second = .changed other) :
    let after := run (SettingsState.step json commands) state
      (saveCalls json first one ++ saveCalls json second other)
    after.load json = .ok other ∧ after.finished = state.finished ++ [first, second] ∧
      after.command first = .succeeded ∧ after.command second = .succeeded := by
  obtain ⟨-, hfinished, -, hdone⟩ := saved_alone hjson commands hfirst
  have hwaits : (run (SettingsState.step json commands) state
      (saveCalls json first one)).command second = .changed other := by
    rw [command_run_of_ne json commands state fun event hevent =>
      (id_of_mem_saveCalls hevent).trans_ne hne]
    exact hsecond
  obtain ⟨hload, hfinishes, -, hcommand⟩ := saved_alone hjson commands hwaits
  have hstays : (run (SettingsState.step json commands) (run (SettingsState.step json commands)
      state (saveCalls json first one)) (saveCalls json second other)).command first =
        .succeeded := by
    rw [command_run_of_ne json commands _ fun event hevent =>
      (id_of_mem_saveCalls hevent).trans_ne hne.symm]
    exact hdone
  intro after
  have hafter : after = run (SettingsState.step json commands)
      (run (SettingsState.step json commands) state (saveCalls json first one))
      (saveCalls json second other) := run_append _ _ _ _
  rw [hafter]
  refine ⟨hload, ?_, hstays, hcommand⟩
  rw [hfinishes, hfinished, List.append_assoc]
  rfl

/-- A command that opens the temp file of another cuts it down, and the other puts an
empty file in place. -/
theorem cut_down (hjson : json.Lawful) (commands : ℕ → SettingsCommand) {first second : ℕ}
    {one other : Settings} (hne : first ≠ second) (hfirst : state.command first = .changed one)
    (hsecond : state.command second = .changed other) :
    let after := run (SettingsState.step json commands) state
      ((saveCalls json first one).dropLast ++ [.openTemp second, .rename first])
    after.load json = .ok {} ∧ after.saved = state.saved ++ [one] := by
  intro after
  obtain ⟨⟨inode, hwriting, hname, -⟩, -, -, hsaved⟩ := written hjson commands hfirst
  have hwaits : (run (SettingsState.step json commands) state
      (saveCalls json first one).dropLast).command second = .changed other := by
    rw [command_run_of_ne json commands state fun event hevent =>
      (id_of_mem_saveCalls (List.mem_of_mem_dropLast hevent)).trans_ne hne]
    exact hsecond
  have hafter : after = ((run (SettingsState.step json commands) state
      (saveCalls json first one).dropLast).stepOpen json second).stepRename first := by
    simp only [after]
    rw [run_append]
    rfl
  generalize run (SettingsState.step json commands) state (saveCalls json first one).dropLast =
    before at hwriting hname hsaved hwaits hafter
  have hopened : before.stepOpen json second =
      { before.setCommand second (.writing other inode 0 (other.text json)) with
        files := before.files.setContent inode [] } := by
    simp only [stepOpen, hwaits, Inodes.openTruncate_of_name _ hname]
  have hstill : (before.stepOpen json second).command first =
      .writing one inode (one.text json).length [] := by
    rw [hopened, ← hwriting]
    exact Function.update_of_ne hne _ _
  have hnamed : (before.stepOpen json second).files.names .temp = some inode := by
    rw [hopened]
    exact hname
  obtain ⟨hload, -, hsaves, -⟩ := renamed json hstill hnamed
  have hempty : (before.stepOpen json second).files.content inode = utf8Bytes "" := by
    rw [hopened]
    exact before.files.content_setContent inode []
  rw [hafter, hload, hsaves, (before.records_stepOpen json second).2, hsaved, hempty, Settings.load,
    fromUTF8?_utf8Bytes]
  exact ⟨rfl, rfl⟩

end SettingsState

end OmarchyConnect.Host
