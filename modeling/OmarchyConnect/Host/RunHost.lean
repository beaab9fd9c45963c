/-
# What the host is run with

`run_host` checks the flags once. The PIN and the video settings are looked up again for
every connection: the PIN from the flag or else from the settings file, the frame rate
from the settings file or else from the flag.
-/

import OmarchyConnect.Host.Session
import OmarchyConnect.Host.Settings

namespace OmarchyConnect.Host

open OmarchyConnect.Library.Wire OmarchyConnect.Library.Files OmarchyConnect.Protocol

namespace Settings

/-- `u32::clamp`. -/
def clamp (value least greatest : UInt32) : UInt32 := max least (min value greatest)

/-- Frame rate and bitrate for the next connection. A bitrate of zero is automatic. -/
def video (settings : Settings) : UInt32 × UInt32 :=
  let bitrate := if settings.bitrateKbps = 0 then 0 else clamp settings.bitrateKbps 500 50000
  (clamp settings.fps 1 60, bitrate)

end Settings

/-- The whole of the configuration that a session or its handshake reads. -/
structure RunHostConfig extends HostConfig where
  pin : Option String
  settingsPath : Option Path

namespace RunHostConfig

/-- The checks at the start of `run_host`. -/
def check (config : RunHostConfig) : Except String Unit :=
  if config.fps = 0 then .error "fps must be at least 1"
  else
    match config.pin with
    | none => .ok ()
    | some pin =>
        match validatePin pin with
        | .error message => .error message
        | .ok _ => .ok ()

variable (json : SettingsJson) (config : RunHostConfig)

/-- `with_saved_video`. The file is looked for, and then read. -/
def withSavedVideo (exists_ : Bool) (file : Option Bytes) : RunHostConfig :=
  match config.settingsPath with
  | none => config
  | some _ =>
      if exists_ then
        match Settings.load json file with
        | .ok settings =>
            { config with fps := settings.video.1, bitrateKbps := settings.video.2 }
        | .error _ => config
      else config

/-- The PIN that `handle_client` hands to `authenticate`. -/
def choosePin (file : Option Bytes) : Option String :=
  match config.pin with
  | some pin => some pin
  | none =>
      match config.settingsPath with
      | none => none
      | some _ =>
          match Settings.load json file with
          | .ok settings => settings.activePin
          | .error _ => none

end RunHostConfig

end OmarchyConnect.Host
