/-
# Settings changes are neither lost nor torn while commands take care

While only one command at a time has the temp file open, the file of the settings is
complete at every moment. It then holds what the finished commands make one after
another, as long as every command puts in place what it makes of the settings that are
there. Nothing in the code sees to either: a `video` that has loaded the settings before
an `unattended off` undoes it.
-/

import OmarchyConnect.Host.SettingsJson
import OmarchyConnect.Host.SettingsSaves
import Mathlib.Data.List.Permutation

namespace OmarchyConnect.Host

open OmarchyConnect.Library OmarchyConnect.Library.Wire OmarchyConnect.Library.Runs
open OmarchyConnect.Protocol

namespace SettingsCommand

/-- One more command after the others. -/
theorem applyAll_concat (start : Except SettingsError Settings) (commands : List SettingsCommand)
    (command : SettingsCommand) :
    applyAll start (commands ++ [command]) = applyAll start commands >>= command.apply := by
  rw [applyAll, List.foldl_append, List.foldl_cons, List.foldl_nil, applyAll]

/-- A command makes of the settings what it changes them to. -/
theorem apply_of_change {command : SettingsCommand} {settings : Settings}
    {changed : Option Settings} (hchange : command.change settings = .ok changed) :
    command.apply settings = .ok (changed.getD settings) := by
  rw [apply, hchange]
  rfl

end SettingsCommand

/-! ## Careful steps -/

namespace SettingsState

variable {json : SettingsJson} {commands : ℕ → SettingsCommand} {state : SettingsState}
  {initial : Except SettingsError Settings}

/-- The command has settings to save. -/
def Busy (state : SettingsState) (id : ℕ) : Prop :=
  (∃ settings, state.command id = .changed settings) ∨ state.Writing id

/-- The file holds what the finished commands make one after another. A command that
writes is alone, and has written a part of its settings. -/
structure Inv (json : SettingsJson) (commands : ℕ → SettingsCommand)
    (initial : Except SettingsError Settings) (state : SettingsState) : Prop where
  serial : state.load json = SettingsCommand.applyAll initial (state.finished.map commands)
  saved : state.load json = initial ∨ ∃ settings ∈ state.saved, state.load json = .ok settings
  loaded : ∀ id, state.Busy id → ∃ settings, state.load json = .ok settings
  temp : ∀ id, state.Writing id → ∃ settings done rest,
    state.AtEnd id settings done rest ∧ done ++ rest = settings.text json
  alone : ∀ id other, state.Writing id → state.Writing other → id = other

/-- A command goes on outside of `save`. -/
theorem Inv.setCommand (h : state.Inv json commands initial) (id : ℕ) {saving : Saving}
    (hloaded : ∀ settings, saving = .changed settings →
      ∃ current, state.load json = .ok current)
    (hclosed : ∀ settings inode offset rest, saving ≠ .writing settings inode offset rest) :
    (state.setCommand id saving).Inv json commands initial := by
  have hwriting : ∀ other, (state.setCommand id saving).Writing other →
      other ≠ id ∧ state.Writing other := by
    rintro other ⟨settings, inode, offset, rest, hother⟩
    rw [command_setCommand] at hother
    split_ifs at hother with hsame
    · exact absurd hother (hclosed _ _ _ _)
    · exact ⟨hsame, settings, inode, offset, rest, hother⟩
  constructor
  case serial => exact h.serial
  case saved => exact h.saved
  case loaded =>
    rintro other (⟨settings, hother⟩ | hother)
    · rw [command_setCommand] at hother
      split_ifs at hother
      · exact hloaded settings hother
      · exact h.loaded other (Or.inl ⟨settings, hother⟩)
    · exact h.loaded other (Or.inr (hwriting other hother).2)
  case temp =>
    intro other hother
    obtain ⟨hne, hbefore⟩ := hwriting other hother
    obtain ⟨settings, done, rest, ⟨inode, hcommand, hfile⟩, htext⟩ := h.temp other hbefore
    refine ⟨settings, done, rest, ⟨inode, ?_, hfile⟩, htext⟩
    rw [command_setCommand, if_neg hne, hcommand]
  case alone =>
    intro first second hfirst hsecond
    exact h.alone first second (hwriting first hfirst).2 (hwriting second hsecond).2

/-- A load keeps what is true of the files and the commands. -/
theorem Inv.load (h : state.Inv json commands initial) (id : ℕ) :
    (state.stepLoad json commands id).Inv json commands initial := by
  unfold stepLoad
  split
  next =>
    split
    next error _ => exact h.setCommand id (by simp) (by simp)
    next settings hload =>
      split
      next error _ => exact h.setCommand id (by simp) (by simp)
      next hchange =>
        have hnext : (state.setCommand id .succeeded).Inv json commands initial :=
          h.setCommand id (by simp) (by simp)
        refine ⟨?_, hnext.saved, hnext.loaded, hnext.temp, hnext.alone⟩
        have happly := SettingsCommand.apply_of_change hchange
        rw [finish, List.map_append, List.map_singleton, SettingsCommand.applyAll_concat,
          ← h.serial, hload]
        exact hload.trans happly.symm
      next changed _ => exact h.setCommand id (fun _ _ => ⟨settings, hload⟩) (by simp)
  next => exact h

/-- A call on the temp file by the only command that has it open. -/
theorem Inv.of_atEnd (h : state.Inv json commands initial) {event : SettingsEvent}
    {settings : Settings} {done rest : Bytes} (hbusy : state.Busy event.id)
    (halone : ∀ other, state.Writing other → other = event.id)
    (hload : (state.step json commands event).load json = state.load json)
    (hrecords : (state.step json commands event).finished = state.finished ∧
      (state.step json commands event).saved = state.saved)
    (hatEnd : (state.step json commands event).AtEnd event.id settings done rest)
    (htext : done ++ rest = settings.text json) :
    (state.step json commands event).Inv json commands initial := by
  have honly : ∀ other, (state.step json commands event).Writing other → other = event.id := by
    rintro other ⟨found, inode, offset, left, hother⟩
    by_contra hne
    rw [command_step_of_ne json commands state (Ne.symm hne)] at hother
    exact hne (halone other ⟨found, inode, offset, left, hother⟩)
  constructor
  case serial => rw [hload, hrecords.1, h.serial]
  case saved => rw [hload, hrecords.2]; exact h.saved
  case loaded =>
    intro other _
    rw [hload]
    exact h.loaded event.id hbusy
  case temp =>
    intro other hother
    rw [honly other hother]
    exact ⟨settings, done, rest, hatEnd, htext⟩
  case alone =>
    intro first second hfirst hsecond
    exact (honly first hfirst).trans (honly second hsecond).symm

/-- A careful open keeps it: nobody else writes to the temp file. -/
theorem Inv.openTemp (h : state.Inv json commands initial) {id : ℕ}
    (hcareful : state.Careful json commands (.openTemp id)) :
    (state.step json commands (.openTemp id)).Inv json commands initial := by
  by_cases hchanged : ∃ settings, state.command id = .changed settings
  · obtain ⟨settings, hchanged⟩ := hchanged
    have hnone := hcareful settings hchanged
    exact h.of_atEnd (Or.inl ⟨settings, hchanged⟩) (fun other hother => absurd hother (hnone other))
      (state.load_stepOpen id) (state.records_stepOpen json id) (AtEnd.openTemp hchanged)
      (List.nil_append _)
  · have hsame : state.step json commands (.openTemp id) = state := by
      simp only [SettingsState.step, stepOpen]
      split
      next settings hfound => exact absurd ⟨settings, hfound⟩ hchanged
      next => rfl
    rw [hsame]
    exact h

/-- A write keeps it, since it only appends to the writer's own file. -/
theorem Inv.write (h : state.Inv json commands initial) (id count : ℕ) :
    (state.step json commands (.write id count)).Inv json commands initial := by
  by_cases hwriting : state.Writing id
  · obtain ⟨settings, done, rest, hatEnd, htext⟩ := h.temp id hwriting
    refine h.of_atEnd (Or.inr hwriting) (fun other hother => h.alone other id hother hwriting)
      (hatEnd.load_write count) (state.records_stepWrite id count) (hatEnd.write count) ?_
    rw [List.append_assoc, List.take_append_drop, htext]
  · have hsame : state.step json commands (.write id count) = state := by
      simp only [SettingsState.step, stepWrite]
      split
      next settings inode offset rest hfound =>
        exact absurd ⟨settings, inode, offset, rest, hfound⟩ hwriting
      next => rfl
    rw [hsame]
    exact h

/-- A careful rename keeps it: the settings are still those that were loaded. -/
theorem Inv.rename (hjson : json.Lawful) (h : state.Inv json commands initial) {id : ℕ}
    (hcareful : state.Careful json commands (.rename id)) :
    (state.step json commands (.rename id)).Inv json commands initial := by
  by_cases hwritten : ∃ settings inode offset, state.command id = .writing settings inode offset []
  · obtain ⟨settings, inode, offset, hwriting⟩ := hwritten
    have hself : state.Writing id := ⟨settings, inode, offset, [], hwriting⟩
    obtain ⟨found, done, rest, ⟨inode', hfound, hname, hcontent⟩, htext⟩ := h.temp id hself
    obtain ⟨rfl, -, -, rfl⟩ := Saving.writing.inj (hwriting.symm.trans hfound)
    obtain ⟨current, hcurrent⟩ := h.loaded id (Or.inr hself)
    obtain ⟨hload, hfinished, hsaved, hdone⟩ := renamed json hwriting hname
    rw [hcontent, ← List.append_nil done, htext, Settings.load_text hjson] at hload
    have hnone : ∀ other, ¬ (state.step json commands (.rename id)).Writing other := by
      rintro other ⟨settings', inode', offset', rest', hother⟩
      by_cases hsame : other = id
      · rw [hsame] at hother
        cases hdone.symm.trans hother
      · rw [command_step_of_ne json commands state (Ne.symm hsame)] at hother
        exact hsame (h.alone other id ⟨settings', inode', offset', rest', hother⟩ hself)
    constructor
    case serial =>
      have hchange := SettingsCommand.apply_of_change
        (hcareful settings inode offset hwriting current hcurrent)
      refine hload.trans ?_
      show _ = SettingsCommand.applyAll initial ((state.stepRename id).finished.map commands)
      rw [hfinished, List.map_append, List.map_singleton, SettingsCommand.applyAll_concat,
        ← h.serial, hcurrent]
      exact hchange.symm
    case saved => exact Or.inr ⟨settings, hsaved ▸ by simp, hload⟩
    case loaded => exact fun _ _ => ⟨settings, hload⟩
    case temp => exact fun other hother => absurd hother (hnone other)
    case alone => exact fun first _ hfirst => absurd hfirst (hnone first)
  · have hsame : state.step json commands (.rename id) = state := by
      simp only [SettingsState.step, stepRename]
      split
      next settings inode offset hfound => exact absurd ⟨settings, inode, offset, hfound⟩ hwritten
      next => rfl
    rw [hsame]
    exact h

/-- Each careful step keeps it. -/
theorem Inv.step (hjson : json.Lawful) (h : state.Inv json commands initial)
    {event : SettingsEvent} (hcareful : state.Careful json commands event) :
    (state.step json commands event).Inv json commands initial := by
  cases event with
  | load id => exact h.load id
  | openTemp id => exact h.openTemp hcareful
  | write id count => exact h.write id count
  | rename id => exact h.rename hjson hcareful

/-- At first no command writes. -/
theorem not_writing_start (files : Inodes SettingsName UInt8) (id : ℕ) :
    ¬ (start files).Writing id := by
  rintro ⟨settings, inode, offset, rest, hwriting⟩
  cases hwriting

/-- At first the settings are those of the file. -/
theorem inv_start (json : SettingsJson) (commands : ℕ → SettingsCommand)
    (files : Inodes SettingsName UInt8) :
    (start files).Inv json commands ((start files).load json) where
  serial := rfl
  saved := Or.inl rfl
  loaded := by
    rintro id (⟨settings, hchanged⟩ | hwriting)
    · cases hchanged
    · exact absurd hwriting (not_writing_start files id)
  temp := fun id hwriting => absurd hwriting (not_writing_start files id)
  alone := fun id _ hwriting => absurd hwriting (not_writing_start files id)

/-- What is kept follows. -/
theorem Inv.kept (h : state.Inv json commands initial) : state.Kept json commands initial :=
  ⟨h.saved, fun _ => ⟨state.finished, List.Perm.refl _, h.serial⟩⟩

/-- While all commands take care, every load is complete, and the finished commands have
been made one after another. -/
theorem settings_kept (json : SettingsJson) (hjson : json.Lawful) (commands : ℕ → SettingsCommand)
    (files : Inodes SettingsName UInt8) (events : List SettingsEvent)
    (hcareful : Along (step json commands) (Careful json commands) (start files) events) :
    ∀ front, front <+: events →
      (run (step json commands) (start files) front).Kept json commands
        ((start files).load json) := by
  rintro front ⟨back, rfl⟩
  have hfront := ((along_append _ _ _ front back).mp hcareful).1
  have hinv := invariant_run (step json commands)
    (fun state => state.Inv json commands ((start files).load json))
    (fun _ _ h hstep => h.step hjson hstep) (inv_start json commands files) hfront
  exact hinv.kept

/-! ## The bar and a terminal -/

/-- Unattended access is on. -/
def sharedSettings : Settings := { unattended := true, pin := some "482913" }

/-- What the bar makes of the shared settings. -/
def offSettings : Settings := { sharedSettings with unattended := false }

/-- What the terminal makes of them. -/
def videoSettings : Settings := { sharedSettings with fps := 60 }

/-- `unattended off` in the bar and `video --fps 60` in a terminal. -/
def barAndTerminal (id : ℕ) : SettingsCommand :=
  if id = 0 then .unattended false else .video (some 60) none

/-- The bar turns access off. -/
theorem change_bar : (barAndTerminal 0).change sharedSettings = .ok (some offSettings) := rfl

/-- The terminal sets the rate. -/
theorem change_terminal : (barAndTerminal 1).change sharedSettings = .ok (some videoSettings) := by
  decide

/-- `unattended off` in the bar and in a terminal. -/
def offTwice (_ : ℕ) : SettingsCommand := .unattended false

/-- Both have loaded the settings before the first of them saves. -/
def offAtOnce (json : SettingsJson) : List SettingsEvent :=
  [.load 0, .load 1] ++ (saveCalls json 0 offSettings ++ saveCalls json 1 offSettings)

/-- The terminal has loaded the settings before the bar changes them. -/
def offThenVideo (json : SettingsJson) : List SettingsEvent :=
  [.load 0, .load 1] ++ (saveCalls json 0 offSettings ++ saveCalls json 1 videoSettings)

/-- The terminal opens the temp file before the bar has renamed it. -/
def offCutDown (json : SettingsJson) : List SettingsEvent :=
  [.load 0, .load 1] ++ ((saveCalls json 0 offSettings).dropLast ++ [.openTemp 1, .rename 0])

section

variable {files : Inodes SettingsName UInt8}

/-- Two commands have loaded the settings. -/
def bothLoaded (files : Inodes SettingsName UInt8) (one other : Settings) : SettingsState :=
  ((start files).setCommand 0 (.changed one)).setCommand 1 (.changed other)

/-- Two commands that load at the same time work on the same settings. -/
theorem run_loads {commands : ℕ → SettingsCommand} {current one other : Settings}
    (hload : (start files).load json = .ok current)
    (hone : (commands 0).change current = .ok (some one))
    (hother : (commands 1).change current = .ok (some other)) :
    run (SettingsState.step json commands) (start files) [.load 0, .load 1] =
      bothLoaded files one other := by
  have hfirst : (start files).step json commands (.load 0) =
      (start files).setCommand 0 (.changed one) :=
    stepLoad_of_change rfl hload hone
  have hready : ((start files).setCommand 0 (.changed one)).command 1 = .ready := rfl
  have hstill : ((start files).setCommand 0 (.changed one)).load json = .ok current := hload
  have hsecond : ((start files).setCommand 0 (.changed one)).step json commands (.load 1) =
      bothLoaded files one other := stepLoad_of_change hready hstill hother
  rw [run_cons, hfirst, run_cons, hsecond, run_nil]

variable {one other : Settings}

/-- The first of them is about to save. -/
theorem bothLoaded_zero : (bothLoaded files one other).command 0 = .changed one := rfl

/-- And so is the second. -/
theorem bothLoaded_one : (bothLoaded files one other).command 1 = .changed other := rfl

/-- The other commands have not started. -/
theorem bothLoaded_other {id : ℕ} (hbar : id ≠ 0) (hterminal : id ≠ 1) :
    (bothLoaded files one other).command id = .ready := by
  rw [bothLoaded, command_setCommand, if_neg hterminal, command_setCommand, if_neg hbar]
  rfl

/-- Both commands turn access off, so the second still saves what it would make of the
settings that the first has put in place. -/
theorem careful_offAtOnce (hjson : json.Lawful)
    (hload : (start files).load json = .ok sharedSettings) :
    Along (SettingsState.step json offTwice) (Careful json offTwice) (start files)
      (offAtOnce json) := by
  have hnone : ∀ id, ¬ (bothLoaded files offSettings offSettings).Writing id := by
    rintro id ⟨settings, inode, offset, rest, hwriting⟩
    by_cases hbar : id = 0
    · rw [hbar] at hwriting
      cases hwriting
    · by_cases hterminal : id = 1
      · rw [hterminal] at hwriting
        cases hwriting
      · cases (bothLoaded_other hbar hterminal).symm.trans hwriting
  have hzero : (bothLoaded files offSettings offSettings).command 0 = .changed offSettings := rfl
  obtain ⟨hsaved, -, -, hdone⟩ := saved_alone hjson offTwice hzero
  have hothers : ∀ id, id ≠ 0 → (run (SettingsState.step json offTwice)
      (bothLoaded files offSettings offSettings) (saveCalls json 0 offSettings)).command id =
        (bothLoaded files offSettings offSettings).command id := fun id hid =>
    command_run_of_ne json offTwice _ fun event hevent =>
      (id_of_mem_saveCalls hevent).trans_ne hid.symm
  have hnoneLeft : ∀ id, ¬ (run (SettingsState.step json offTwice)
      (bothLoaded files offSettings offSettings) (saveCalls json 0 offSettings)).Writing id := by
    rintro id ⟨settings, inode, offset, rest, hwriting⟩
    by_cases hbar : id = 0
    · rw [hbar, hdone] at hwriting
      cases hwriting
    · rw [hothers id hbar] at hwriting
      exact hnone id ⟨settings, inode, offset, rest, hwriting⟩
  rw [offAtOnce, along_append, run_loads hload rfl rfl, along_append]
  exact ⟨⟨trivial, trivial, trivial⟩, careful_save hjson hnone hzero hload rfl,
    careful_save hjson hnoneLeft (hothers 1 (by decide)) hsaved rfl⟩

/-- The bar's command succeeds and then the terminal's, and no order of them leaves
access on. -/
theorem not_kept_offThenVideo (hjson : json.Lawful)
    (hload : (start files).load json = .ok sharedSettings) :
    ¬ (run (SettingsState.step json barAndTerminal) (start files) (offThenVideo json)).Kept json
      barAndTerminal ((start files).load json) := by
  intro hkept
  rw [offThenVideo, run_append, run_loads hload change_bar change_terminal] at hkept
  obtain ⟨hafter, hfinished, hzero, hone⟩ :=
    second_wins hjson barAndTerminal (by decide) bothLoaded_zero bothLoaded_one
  have hothers : ∀ id, id ≠ 0 → id ≠ 1 →
      (run (SettingsState.step json barAndTerminal) (bothLoaded files offSettings videoSettings)
        (saveCalls json 0 offSettings ++ saveCalls json 1 videoSettings)).command id = .ready := by
    intro id hbar hterminal
    rw [command_run_of_ne json barAndTerminal _ ?_, bothLoaded_other hbar hterminal]
    intro event hevent
    rcases List.mem_append.mp hevent with hsave | hsave
    · exact (id_of_mem_saveCalls hsave).trans_ne hbar.symm
    · exact (id_of_mem_saveCalls hsave).trans_ne hterminal.symm
  generalize run (SettingsState.step json barAndTerminal)
    (bothLoaded files offSettings videoSettings)
      (saveCalls json 0 offSettings ++ saveCalls json 1 videoSettings) = after
        at hkept hafter hfinished hzero hone hothers
  have hdone : ∀ id, after.command id = .ready ∨ after.command id = .succeeded := by
    intro id
    by_cases hbar : id = 0
    · rw [hbar]
      exact Or.inr hzero
    · by_cases hterminal : id = 1
      · rw [hterminal]
        exact Or.inr hone
      · exact Or.inl (hothers id hbar hterminal)
  obtain ⟨order, hperm, hresult⟩ := hkept.serial hdone
  rw [hfinished] at hperm
  rw [hafter, hload] at hresult
  rcases List.perm_pair.mp hperm with rfl | rfl
  · exact absurd hresult (by decide)
  · exact absurd hresult (by decide)

/-- The daemon loads settings that nobody has saved. -/
theorem not_kept_offCutDown (hjson : json.Lawful)
    (hload : (start files).load json = .ok sharedSettings) :
    ¬ (run (SettingsState.step json barAndTerminal) (start files) (offCutDown json)).Kept json
      barAndTerminal ((start files).load json) := by
  intro hkept
  rw [offCutDown, run_append, run_loads hload change_bar change_terminal] at hkept
  obtain ⟨hafter, hsaved⟩ :=
    cut_down hjson barAndTerminal (by decide) bothLoaded_zero bothLoaded_one
  have hread := hkept.load
  rw [hafter, hsaved, hload] at hread
  rcases hread with hinitial | ⟨settings, hmem, hsettings⟩
  · exact absurd hinitial (by decide)
  · have hoff : settings = offSettings := List.mem_singleton.mp hmem
    rw [hoff] at hsettings
    exact absurd hsettings (by decide)

end

/-- The settings of the bar on a disk. -/
def sharedFiles : Inodes SettingsName UInt8 :=
  Inodes.empty.create .file (sharedSettings.text plainJson)

/-- The shared file holds the shared settings. -/
theorem load_sharedFiles : (start sharedFiles).load plainJson = .ok sharedSettings := by
  rw [SettingsState.load, start, sharedFiles, Inodes.read_create]
  exact Settings.load_text plainJson_lawful sharedSettings

/-- Two commands that overlap, and take care. -/
theorem settings_kept_offAtOnce :
    (run (SettingsState.step plainJson offTwice) (start sharedFiles)
      (offAtOnce plainJson)).Kept plainJson offTwice ((start sharedFiles).load plainJson) :=
  settings_kept plainJson plainJson_lawful offTwice sharedFiles (offAtOnce plainJson)
    (careful_offAtOnce plainJson_lawful load_sharedFiles) _ (List.prefix_refl _)

/-- `unattended off` has succeeded, and access is on again. With the temp file cut down,
the daemon loads the defaults. -/
theorem unattended_off_lost :
    (¬ ∀ front, front <+: offThenVideo plainJson →
      (run (SettingsState.step plainJson barAndTerminal) (start sharedFiles) front).Kept plainJson
        barAndTerminal ((start sharedFiles).load plainJson)) ∧
    ¬ ∀ front, front <+: offCutDown plainJson →
      (run (SettingsState.step plainJson barAndTerminal) (start sharedFiles) front).Kept plainJson
        barAndTerminal ((start sharedFiles).load plainJson) := by
  constructor
  · intro hkept
    exact not_kept_offThenVideo plainJson_lawful load_sharedFiles (hkept _ (List.prefix_refl _))
  · intro hkept
    exact not_kept_offCutDown plainJson_lawful load_sharedFiles (hkept _ (List.prefix_refl _))

end SettingsState

end OmarchyConnect.Host
