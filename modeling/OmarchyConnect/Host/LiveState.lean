/-
# The published state of the daemon

The daemon keeps its state in memory and publishes it as JSON after every change, for
`omarchy-connect status`, `omarchy-connect disconnect` and the widget of the bar. They
are processes of their own: all they know of the daemon is what they read from the file
and whether a process of its number is alive.

`serde_json` is third-party code and a parameter here.
-/

import OmarchyConnect.Host.Lockout
import OmarchyConnect.Host.RunHost
import OmarchyConnect.Library.Published

namespace OmarchyConnect.Host

open OmarchyConnect.Library OmarchyConnect.Library.Wire OmarchyConnect.Protocol

/-- `sharing` is a client that has proved the PIN while the host waits for the capture. -/
inductive Status
  | listening
  | sharing
  | connected
  deriving DecidableEq, Repr

/-- `since` and `lockedUntil` are Unix seconds. -/
structure LiveState where
  pid : UInt32 := 0
  status : Status := .listening
  port : UInt16 := 0
  peer : Option String := none
  client : Option String := none
  since : Option ℕ := none
  lockedUntil : Option ℕ := none
  lastError : Option String := none
  inputReady : Bool := false
  deriving DecidableEq, Repr

/-- `serde_json` for the state, with its round trip. -/
structure LiveJson where
  toVecPretty : LiveState → Bytes
  fromSlice : Bytes → Option LiveState
  reads : ∀ live, fromSlice (toVecPretty live) = some live

/-- The publisher of one host: its state, and the calls of `write_atomic`. -/
abbrev Publisher := Published LiveState UInt8

/-! ## Changes -/

namespace LiveState

variable (live : LiveState)

/-- A client has proved the PIN. -/
def authenticated (demo : Bool) (peer client : String) (now : ℕ) : LiveState :=
  { live with
    status := if demo then .connected else .sharing
    peer := some peer
    client := some client
    since := some now
    lastError := none }

/-- The capture is there. -/
def connected : LiveState := { live with status := .connected }

/-- The session has ended. -/
def ended (error : Option String) : LiveState :=
  { live with
    status := .listening, peer := none, client := none, since := none, lastError := error }

/-- A wrong PIN has locked the host. -/
def locked (now : ℕ) (lock : ℕ) : LiveState :=
  { live with lockedUntil := some (now + asSecs lock) }

/-- A right PIN ends the lock. -/
def unlocked : LiveState := { live with lockedUntil := none }

end LiveState

/-! ## Reading it back -/

/-- `read_live`. -/
def readLive (json : LiveJson) (file : Option Bytes) : Option LiveState :=
  file.bind json.fromSlice

/-- `pid_alive`; `running` tells the numbers under `/proc`. -/
def pidAlive (running : UInt32 → Bool) (pid : UInt32) : Bool := pid ≠ 0 && running pid

/-- An address of an interface. -/
inductive IpAddr
  | v4 (text : String)
  | v6 (text : String)
  deriving DecidableEq

/-- An interface of the machine. -/
structure Interface where
  name : String
  isLoopback : Bool
  ip : IpAddr

/-- An address that is shown. -/
structure Address where
  interface : String
  ip : String
  deriving DecidableEq

/-- Prefixes of the interfaces that are left out. -/
def skip : List String := ["docker", "br-", "veth", "virbr", "podman"]

/-- `lan_addresses`. -/
def lanAddresses (interfaces : Option (List Interface)) : List Address :=
  (((interfaces.getD []).filter fun iface => !iface.isLoopback).filter fun iface =>
      !skip.any fun front => front.toList.isPrefixOf iface.name.toList).filterMap
    fun iface =>
      match iface.ip with
      | .v4 text => some { interface := iface.name, ip := text }
      | .v6 _ => none

/-- What the bar is told. -/
structure Report where
  running : Bool
  status : String
  port : Option UInt16
  addresses : List Address
  peer : Option String
  client : Option String
  since : Option ℕ
  unattended : Bool
  pinSet : Bool
  lockedSecs : ℕ
  lastError : Option String
  inputReady : Bool
  shareSaved : Bool
  fps : UInt32
  bitrateKbps : UInt32
  settingsError : Option SettingsError

/-- What a status is called in a report. -/
def statusText : Option Status → String
  | none => "stopped"
  | some .listening => "listening"
  | some .sharing => "sharing"
  | some .connected => "connected"

/-- What a report and a disconnect see of the system they run on. -/
structure Surroundings where
  settings : Option Bytes
  state : Option Bytes
  shareSaved : Bool
  running : UInt32 → Bool
  interfaces : Option (List Interface)
  now : ℕ

variable (settingsJson : SettingsJson) (json : LiveJson)

/-- The state of a daemon that is alive. -/
def Surroundings.live (surroundings : Surroundings) : Option LiveState :=
  (readLive json surroundings.state).filter fun live => pidAlive surroundings.running live.pid

/-- `report`. -/
def report (surroundings : Surroundings) : Report :=
  let live := surroundings.live json
  let (settings, settingsError) :=
    match Settings.load settingsJson surroundings.settings with
    | .ok settings => (settings, none)
    | .error error => ({}, some error)
  { running := live.isSome
    status := statusText (live.map LiveState.status)
    port := live.map LiveState.port
    addresses := lanAddresses surroundings.interfaces
    peer := live.bind LiveState.peer
    client := live.bind LiveState.client
    since := live.bind LiveState.since
    unattended := settings.unattended
    pinSet := settings.pin.any fun pin => pin ≠ ""
    lockedSecs := ((live.bind LiveState.lockedUntil).map fun until_ =>
      until_ - surroundings.now).getD 0
    lastError := live.bind LiveState.lastError
    inputReady := live.any LiveState.inputReady
    shareSaved := surroundings.shareSaved
    fps := settings.video.1
    bitrateKbps := settings.video.2
    settingsError }

/-- `omarchy-connect disconnect`: the process that gets `SIGUSR1`. -/
def disconnect (surroundings : Surroundings) : Except String UInt32 :=
  match surroundings.live json with
  | none => .error "Omarchy Connect is not running"
  | some live => if live.pid.toNat < 2 ^ 31 then .ok live.pid else .error "pid"

end OmarchyConnect.Host
