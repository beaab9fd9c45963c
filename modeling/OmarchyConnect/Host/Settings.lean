/-
# Settings and the commands that change them

The daemon reads the settings file for every connection. Each command of the command
line is a process of its own: it loads the settings, changes its fields, and saves all
of them through a temp file whose name is the same for every command. Any number of
them run at once, one call of the system after another in any order.

`serde_json` is third-party code and a parameter here.
-/

import OmarchyConnect.Library.Inodes
import OmarchyConnect.Library.Runs
import OmarchyConnect.Protocol.Auth

namespace OmarchyConnect.Host

open OmarchyConnect.Library OmarchyConnect.Library.Wire OmarchyConnect.Library.Runs
open OmarchyConnect.Protocol

/-- `default_fps`. -/
def defaultFps : UInt32 := 15

/-- `default_bitrate_kbps`. -/
def defaultBitrateKbps : UInt32 := 4000

/-- `Settings`, with the defaults of `serde`. -/
structure Settings where
  unattended : Bool := false
  pin : Option String := none
  fps : UInt32 := defaultFps
  bitrateKbps : UInt32 := defaultBitrateKbps
  deriving DecidableEq

/-- `serde_json` for the settings; an error is its message. -/
structure SettingsJson where
  toStringPretty : Settings → String
  fromStr : String → Except String Settings

/-- What is written is an object, and it is read back. -/
structure SettingsJson.Lawful (json : SettingsJson) : Prop where
  object : ∀ settings, (json.toStringPretty settings).toList.head? = some '\x7b'
  reads : ∀ settings, json.fromStr (json.toStringPretty settings ++ "\n") = .ok settings

/-- The file was not read, not parsed or not replaced, or the command refused. -/
inductive SettingsError
  | read
  | parse (message : String)
  | replace
  | refused (message : String)
  deriving DecidableEq

namespace Settings

variable (json : SettingsJson) (settings : Settings)

/-- Load the settings from the file, if there is one. -/
def load (file : Option Bytes) : Except SettingsError Settings :=
  match file with
  | none => .ok {}
  | some bytes =>
      match String.fromUTF8? bytes.toByteArray with
      | none => .error .read
      | some text =>
          if trim text = "" then .ok {}
          else
            match json.fromStr text with
            | .error message => .error (.parse message)
            | .ok settings => .ok settings

/-- What `save` writes. -/
def text : Bytes := utf8Bytes (json.toStringPretty settings) ++ utf8Bytes "\n"

/-- The PIN that a client must prove. -/
def activePin : Option String :=
  if settings.unattended then settings.pin.filter fun pin => pin ≠ "" else none

end Settings

/-! ## Commands -/

/-- The commands that change the settings. -/
inductive SettingsCommand
  | pinSet (pin : String)
  | pinClear
  | unattended (on : Bool)
  | video (fps bitrateKbps : Option UInt32)

namespace SettingsCommand

/-- The rate that `video` sets, if it is in range. -/
def setFps (settings : Settings) : Option UInt32 → Except SettingsError Settings
  | none => .ok settings
  | some fps =>
      if 1 ≤ fps ∧ fps ≤ 60 then .ok { settings with fps }
      else .error (.refused "fps must be from 1 to 60")

/-- The bitrate that `video` sets, if it is in range. Zero is automatic. -/
def setBitrate (settings : Settings) : Option UInt32 → Except SettingsError Settings
  | none => .ok settings
  | some bitrateKbps =>
      if bitrateKbps ≠ 0 ∧ ¬ (500 ≤ bitrateKbps ∧ bitrateKbps ≤ 50000) then
        .error (.refused "bitrate must be 0 (automatic) or from 500 to 50000 kb/s")
      else .ok { settings with bitrateKbps }

/-- What the command makes of the settings that it has loaded, and `none` if it has
nothing to save. -/
def change (settings : Settings) : SettingsCommand → Except SettingsError (Option Settings)
  | .pinSet pin =>
      match validatePin pin with
      | .error message => .error (.refused message)
      | .ok pin => .ok (some { settings with pin := some pin, unattended := true })
  | .pinClear => .ok (some { settings with pin := none, unattended := false })
  | .unattended true =>
      if settings.pin.getD "" = "" then
        .error (.refused "set a PIN first: omarchy-connect pin set")
      else .ok (some { settings with unattended := true })
  | .unattended false => .ok (some { settings with unattended := false })
  | .video fps bitrateKbps => do
      let settings ← setFps settings fps
      let settings ← setBitrate settings bitrateKbps
      if fps.isSome ∨ bitrateKbps.isSome then .ok (some settings) else .ok none

/-- The command on its own. -/
def apply (command : SettingsCommand) (settings : Settings) : Except SettingsError Settings := do
  let changed ← command.change settings
  .ok (changed.getD settings)

/-- The commands one after another. -/
def applyAll (start : Except SettingsError Settings) (commands : List SettingsCommand) :
    Except SettingsError Settings :=
  commands.foldl (fun settings command => settings >>= command.apply) start

end SettingsCommand

/-! ## Commands at once -/

/-- The two names in the settings directory. -/
inductive SettingsName
  | file
  | temp
  deriving DecidableEq

/-- Where a command is. In `save` it has a handle, the offset and what it has still to
write. -/
inductive Saving
  | ready
  | changed (settings : Settings)
  | writing (settings : Settings) (inode offset : ℕ) (rest : Bytes)
  | succeeded
  | failed (error : SettingsError)

/-- The files and all commands. `finished` remembers which commands have returned `Ok`,
in this order, and `saved` the settings that they put in place. -/
structure SettingsState where
  files : Inodes SettingsName UInt8
  command : ℕ → Saving := fun _ => .ready
  finished : List ℕ := []
  saved : List Settings := []

/-- The next call of a command. A `write` takes at least one byte of those that are
left, and as many as the system likes. -/
inductive SettingsEvent
  | load (id : ℕ)
  | openTemp (id : ℕ)
  | write (id count : ℕ)
  | rename (id : ℕ)

/-- The command that the call is of. -/
def SettingsEvent.id : SettingsEvent → ℕ
  | .load id => id
  | .openTemp id => id
  | .write id _ => id
  | .rename id => id

namespace SettingsState

variable (json : SettingsJson) (commands : ℕ → SettingsCommand) (state : SettingsState)

/-- What a load returns now. -/
def load : Except SettingsError Settings := Settings.load json (state.files.read .file)

/-- A command goes on to a step. -/
def setCommand (id : ℕ) (saving : Saving) : SettingsState :=
  { state with command := Function.update state.command id saving }

/-- A command has saved, or had nothing to save. -/
def finish (id : ℕ) : SettingsState :=
  { state.setCommand id .succeeded with finished := state.finished ++ [id] }

/-- `Settings::load`, and the changes. -/
def stepLoad (id : ℕ) : SettingsState :=
  match state.command id with
  | .ready =>
      match state.load json with
      | .error error => state.setCommand id (.failed error)
      | .ok settings =>
          match (commands id).change settings with
          | .error error => state.setCommand id (.failed error)
          | .ok none => state.finish id
          | .ok (some changed) => state.setCommand id (.changed changed)
  | _ => state

/-- `save` opens the temp file, and cuts it down to nothing. -/
def stepOpen (id : ℕ) : SettingsState :=
  match state.command id with
  | .changed settings =>
      let (inode, files) := state.files.openTruncate .temp
      { state.setCommand id (.writing settings inode 0 (settings.text json)) with files }
  | _ => state

/-- A call of `write`, which writes at least one byte where any is left. -/
def stepWrite (id count : ℕ) : SettingsState :=
  match state.command id with
  | .writing settings inode offset rest =>
      let data := rest.take (count + 1)
      let next := .writing settings inode (offset + data.length) (rest.drop (count + 1))
      { state.setCommand id next with files := state.files.writeAt 0 inode offset data }
  | _ => state

/-- `rename`, once all is written. -/
def stepRename (id : ℕ) : SettingsState :=
  match state.command id with
  | .writing settings _ _ [] =>
      match state.files.rename .temp .file with
      | none => state.setCommand id (.failed .replace)
      | some files => { state.finish id with files, saved := state.saved ++ [settings] }
  | _ => state

/-- A step of one command. -/
def step : SettingsEvent → SettingsState
  | .load id => state.stepLoad json commands id
  | .openTemp id => state.stepOpen json id
  | .write id count => state.stepWrite id count
  | .rename id => state.stepRename id

/-- The state before any command. -/
def start (files : Inodes SettingsName UInt8) : SettingsState := { files }

/-! ## The promise -/

/-- The command has opened its temp file and not yet renamed it. -/
def Writing (id : ℕ) : Prop :=
  ∃ settings inode offset rest, state.command id = .writing settings inode offset rest

/-- Every load returns what the first one would have, or settings that a command has
saved. When all commands that were started have succeeded, the file holds what they
make one after another. -/
structure Kept (initial : Except SettingsError Settings) : Prop where
  load : state.load json = initial ∨ ∃ settings ∈ state.saved, state.load json = .ok settings
  serial : (∀ id, state.command id = .ready ∨ state.command id = .succeeded) →
    ∃ order : List ℕ, order.Perm state.finished ∧
      state.load json = SettingsCommand.applyAll initial (order.map commands)

/-- No command opens the temp file while another writes to it, and what a command puts
in place is what it makes of the settings that are there. -/
def Careful (event : SettingsEvent) : Prop :=
  match event with
  | .openTemp id => ∀ settings, state.command id = .changed settings →
      ∀ other, ¬ state.Writing other
  | .rename id => ∀ settings inode offset, state.command id = .writing settings inode offset [] →
      ∀ current, state.load json = .ok current →
        (commands id).change current = .ok (some settings)
  | _ => True

end SettingsState

end OmarchyConnect.Host
