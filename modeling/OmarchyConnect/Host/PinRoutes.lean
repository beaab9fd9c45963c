/-
# Where the PIN of an exchange comes from

A PIN reaches `PinExchange::start` from the flag, from settings that a command has saved,
or from a settings file that somebody wrote by hand. The first two are checked on the
way. A PIN in the file is only checked for being empty before it is trimmed.
-/

import OmarchyConnect.Host.Authenticate
import OmarchyConnect.Host.RunHost
import OmarchyConnect.Host.SettingsJson
import OmarchyConnect.Host.SettingsSaves
import OmarchyConnect.Host.Throttle
import OmarchyConnect.Library.Runs

namespace OmarchyConnect.Host

open OmarchyConnect.Library.Wire OmarchyConnect.Library.Runs OmarchyConnect.Protocol

/-! ## The rules -/

/-- What a password has to be. -/
structure PinRules (password : String) : Prop where
  long : pinMin ≤ password.length
  short : password.length ≤ pinMax
  plain : ∀ c ∈ password.toList, isWhitespace c = false ∧ isControl c = false

/-- `validatePin` accepts just the PINs that obey the rules once they are trimmed. -/
theorem validatePin_eq_ok_iff {pin password : String} :
    validatePin pin = .ok password ↔ password = trim pin ∧ PinRules (trim pin) := by
  rw [validatePin]
  split_ifs with hlength hspaces
  · refine iff_of_false id fun ⟨_, hrules⟩ => ?_
    exact hlength.elim (Nat.not_lt.mpr hrules.long) (Nat.not_lt.mpr hrules.short)
  · refine iff_of_false id fun ⟨_, hrules⟩ => ?_
    obtain ⟨c, hc, hbad⟩ := List.any_eq_true.mp hspaces
    obtain ⟨hspace, hcontrol⟩ := hrules.plain c hc
    rw [hspace, hcontrol] at hbad
    exact absurd hbad (by decide)
  · rw [not_or, Nat.not_lt, Nat.not_lt] at hlength
    have hplain : ∀ c ∈ (trim pin).toList, isWhitespace c = false ∧ isControl c = false := by
      intro c hc
      rw [← Bool.or_eq_false_iff, ← Bool.not_eq_true]
      exact fun hbad => hspaces (List.any_eq_true.mpr ⟨c, hc, hbad⟩)
    constructor
    · intro hok
      exact ⟨(Except.ok.inj hok).symm, hlength.1, hlength.2, hplain⟩
    · rintro ⟨rfl, -⟩
      rfl

/-- A PIN that obeys the rules has nothing to trim. -/
theorem PinRules.trim_eq {pin : String} (h : PinRules pin) : trim pin = pin := by
  have hfront : pin.toList.dropWhile isWhitespace = pin.toList := by
    rw [List.dropWhile_eq_self_iff]
    intro hne
    simp [(h.plain _ (List.getElem_mem hne)).1]
  have hback : pin.toList.rdropWhile isWhitespace = pin.toList := by
    rw [List.rdropWhile_eq_self_iff]
    intro hne
    simp [(h.plain _ (List.getLast_mem hne)).1]
  rw [trim, hfront, hback, String.ofList_toList]

/-! ## What a file may hold -/

/-- When the file turns on a PIN, the PIN passes the check that the flag and the command
line make. -/
def PinChecked (json : SettingsJson) (file : Option Bytes) : Prop :=
  ∀ settings pin, Settings.load json file = .ok settings → settings.unattended = true →
    settings.pin = some pin → pin ≠ "" → ∃ password, validatePin pin = .ok password

/-- A PIN is active while unattended access is on and it is not empty. -/
theorem activePin_eq_some_iff {settings : Settings} {pin : String} :
    settings.activePin = some pin ↔
      settings.unattended = true ∧ settings.pin = some pin ∧ pin ≠ "" := by
  rw [Settings.activePin]
  split_ifs with hunattended
  · simp [Option.filter_eq_some_iff, hunattended]
  · simp [hunattended]

namespace RunHostConfig

variable {json : SettingsJson} {config : RunHostConfig} {pin : String} {file : Option Bytes}

/-- A PIN of the command line was checked. -/
theorem pinRules_of_check (haccepted : config.check = .ok ()) (hpin : config.pin = some pin) :
    PinRules (trim pin) := by
  rw [check, hpin] at haccepted
  split_ifs at haccepted
  simp only at haccepted
  cases hvalid : validatePin pin with
  | error message =>
      rw [hvalid] at haccepted
      cases haccepted
  | ok password => exact (validatePin_eq_ok_iff.mp hvalid).2

/-- Without the flag, the PIN is what the file turns on. -/
theorem choosePin_of_file (hflag : config.pin = none) (hpath : config.settingsPath ≠ none) :
    config.choosePin json file = some pin ↔
      ∃ settings, Settings.load json file = .ok settings ∧ settings.activePin = some pin := by
  obtain ⟨path, hsome⟩ := Option.ne_none_iff_exists'.mp hpath
  rw [choosePin, hflag, hsome]
  cases Settings.load json file with
  | error err => simp
  | ok settings => simp

/-- On each route the PIN has passed the check. -/
theorem pinRules_of_choosePin (haccepted : config.check = .ok ())
    (hroutes : config.pin.isSome ∨ config.settingsPath = none ∨ PinChecked json file)
    (hchosen : config.choosePin json file = some pin) : PinRules (trim pin) := by
  cases hflag : config.pin with
  | some given =>
      rw [choosePin, hflag] at hchosen
      obtain rfl := Option.some.inj hchosen
      exact pinRules_of_check haccepted hflag
  | none =>
      cases hpath : config.settingsPath with
      | none =>
          rw [choosePin, hflag, hpath] at hchosen
          cases hchosen
      | some path =>
          rw [hflag, hpath] at hroutes
          have hchecked : PinChecked json file := by simpa using hroutes
          obtain ⟨settings, hload, hactive⟩ :=
            (choosePin_of_file hflag (by simp [hpath])).mp hchosen
          obtain ⟨hunattended, hpin, hne⟩ := activePin_eq_some_iff.mp hactive
          obtain ⟨password, hvalid⟩ := hchecked settings pin hload hunattended hpin hne
          exact (validatePin_eq_ok_iff.mp hvalid).2

end RunHostConfig

/-! ## The exchanges of the accept loop -/

variable {crypto : PinCrypto}

/-- The password of the exchange that a step of the accept loop starts. -/
def HostState.startsExchange (state : HostState crypto) (event : HostEvent crypto) :
    Option String :=
  match state.phase, event.action with
  | .handshake (.authenticating (some pin) _ .readingAuth), .received (.ok (.auth _)) _ =>
      if state.lockout.remaining event.now = none then some (trim pin) else none
  | _, _ => none

/-- A finished write reports the PIN that `handle_client` has looked up, in one of the
contents that the settings file may have. -/
def HostEvent.LooksUp (json : SettingsJson) (config : RunHostConfig)
    (contents : Set (Option Bytes)) (event : HostEvent crypto) : Prop :=
  ∀ ok binding pin, event.action = .written ok binding pin →
    ∃ file ∈ contents, pin = config.choosePin json file

/-- The PIN that `authenticate` was called with was looked up. -/
def HostState.LookedUp (json : SettingsJson) (config : RunHostConfig)
    (contents : Set (Option Bytes)) (state : HostState crypto) : Prop :=
  ∀ pin binding auth, state.phase = .handshake (.authenticating pin binding auth) →
    ∃ file ∈ contents, pin = config.choosePin json file

namespace HostState

variable {state : HostState crypto} {event : HostEvent crypto}
  {json : SettingsJson} {config : RunHostConfig} {contents : Set (Option Bytes)}

/-- Where an exchange starts, SPAKE2 is keyed with that password. -/
theorem step_of_startsExchange {password : String}
    (hstarts : state.startsExchange event = some password) :
    ∃ pin binding clientMsg coins,
      (state.step event).phase = .handshake (.authenticating pin binding
        (.writingAuth ⟨.host, (crypto.startB (utf8Bytes password) idClient idHost coins).1⟩
          clientMsg
          (.auth (crypto.startB (utf8Bytes password) idClient idHost coins).2))) := by
  rw [startsExchange] at hstarts
  split at hstarts
  next pin binding clientMsg coins hphase haction =>
    obtain ⟨hfree, hpassword⟩ := Option.ite_none_right_eq_some.mp hstarts
    obtain rfl := Option.some.inj hpassword
    refine ⟨some pin, binding, clientMsg, coins, ?_⟩
    simp [step, hphase, haction, HostAction.auth, HostAuth.step, HostAuth.onAuth, hfree,
      HostAuth.phase, PinExchange.start]
  next => exact absurd hstarts (Option.some_ne_none password).symm

/-- The PIN of a handshake is the one it started with. -/
theorem pin_of_phase {pin before : Option String} {binding bound : Bytes}
    {auth waiting : HostAuth crypto}
    (hphase : waiting.phase before bound = .handshake (.authenticating pin binding auth)) :
    pin = before := by
  unfold HostAuth.phase at hphase
  split at hphase
  · cases hphase
  · cases hphase
  · cases hphase
    rfl

/-- A PIN that `authenticate` holds after a step it held before, or the step looked it
up. -/
theorem authenticating_of_step {pin : Option String} {binding : Bytes} {auth : HostAuth crypto}
    (hphase : (state.step event).phase = .handshake (.authenticating pin binding auth)) :
    (∃ bound before, state.phase = .handshake (.authenticating pin bound before)) ∨
      ∃ ok bound, event.action = .written ok bound pin := by
  obtain ⟨lockout, phase⟩ := state
  obtain ⟨now, action⟩ := event
  cases phase with
  | listening => cases action <;> cases hphase
  | session => cases action <;> cases hphase
  | handshake handshake =>
      cases handshake with
      | authenticating before bound waiting =>
          left
          have hpin : pin = before := by
            cases action with
            | dropped => cases hphase
            | received incoming coins => exact pin_of_phase hphase
            | written ok other looked => exact pin_of_phase hphase
            | slept => exact pin_of_phase hphase
            | _ =>
                cases hphase
                rfl
          exact ⟨bound, waiting, by rw [hpin]⟩
      | writingHelloAck =>
          cases action with
          | written ok bound looked =>
              cases ok <;> cases bound <;> cases hphase
              exact Or.inr ⟨_, _, rfl⟩
          | _ => cases hphase
      | acceptingTls =>
          cases action with
          | tlsAccepted ok => cases ok <;> cases hphase
          | _ => cases hphase
      | readingHello =>
          cases action with
          | received incoming coins =>
              cases incoming with
              | error err => cases hphase
              | ok msg =>
                  cases msg with
                  | hello version name =>
                      simp only [HostState.step, Handshake.step] at hphase
                      split_ifs at hphase <;> cases hphase
                  | _ => cases hphase
          | _ => cases hphase
      | denyingVersion msg => cases action <;> cases hphase

/-- The PIN of a connection stays what it was when the hello was answered. -/
theorem LookedUp.step (h : state.LookedUp json config contents)
    (hevent : event.LooksUp json config contents) :
    (state.step event).LookedUp json config contents := by
  intro pin binding auth hphase
  obtain ⟨bound, before, hbefore⟩ | ⟨ok, bound, haction⟩ := authenticating_of_step hphase
  · exact h pin bound before hbefore
  · exact hevent ok bound pin haction

/-- An exchange is started with the PIN that `authenticate` was called with. -/
theorem startsExchange_eq_some {password : String}
    (hstarts : state.startsExchange event = some password) :
    ∃ pin binding, state.phase = .handshake (.authenticating (some pin) binding .readingAuth) ∧
      password = trim pin := by
  rw [startsExchange] at hstarts
  split at hstarts
  next pin binding _ _ hphase _ =>
    obtain ⟨_, hpassword⟩ := Option.ite_none_right_eq_some.mp hstarts
    exact ⟨pin, binding, hphase, (Option.some.inj hpassword).symm⟩
  next => exact absurd hstarts (Option.some_ne_none password).symm

end HostState

/-- Each step of the run that starts an exchange keys it with a password that obeys the
rules. -/
def ExchangesObeyRules (events : List (HostEvent crypto)) : Prop :=
  Along HostState.step
    (fun state event => ∀ password, state.startsExchange event = some password →
      PinRules password) {} events

/-- A connection up to the `Auth` message of the client. -/
def connection (pin : Option String) (coins : crypto.Coins) : List (HostEvent crypto) :=
  [⟨0, .connected⟩, ⟨0, .tlsAccepted true⟩, ⟨0, .received (.ok (.hello protocolVersion "")) coins⟩,
    ⟨0, .written true (some []) pin⟩, ⟨0, .received (.ok (.auth [])) coins⟩]

/-- The connection starts an exchange with the PIN that was looked up. -/
theorem obeysRules_connection {pin : String} {coins : crypto.Coins}
    (h : ExchangesObeyRules (connection (some pin) coins)) : PinRules (trim pin) := by
  obtain ⟨-, -, -, -, hlast, -⟩ := h
  exact hlast (trim pin) rfl

/-- In a connection the PIN is looked up in the file of the moment. -/
theorem looksUp_of_mem_connection {json : SettingsJson} {config : RunHostConfig}
    {contents : Set (Option Bytes)} {file : Option Bytes} (hfile : file ∈ contents)
    {coins : crypto.Coins} {event : HostEvent crypto}
    (hevent : event ∈ connection (config.choosePin json file) coins) :
    event.LooksUp json config contents := by
  intro ok binding pin haction
  simp only [connection, List.mem_cons, List.not_mem_nil, or_false] at hevent
  rcases hevent with rfl | rfl | rfl | rfl | rfl <;> cases haction
  exact ⟨file, hfile, rfl⟩

/-- The passwords of all exchanges obey the rules exactly when the PIN is a flag, there
is no settings file, or no content of the file turns on a PIN that fails the check. -/
theorem exchanges_obey_rules_iff (coins : crypto.Coins) (json : SettingsJson)
    (config : RunHostConfig) (haccepted : config.check = .ok ())
    (contents : Set (Option Bytes)) :
    (∀ events : List (HostEvent crypto), (∀ event ∈ events, event.LooksUp json config contents) →
        ExchangesObeyRules events) ↔
      config.pin.isSome ∨ config.settingsPath = none ∨
        ∀ file ∈ contents, PinChecked json file := by
  constructor
  · intro hobey
    by_cases hflag : config.pin.isSome
    · exact Or.inl hflag
    by_cases hpath : config.settingsPath = none
    · exact Or.inr (Or.inl hpath)
    refine Or.inr (Or.inr fun file hfile settings pin hload hunattended hpin hne => ?_)
    have hchosen : config.choosePin json file = some pin :=
      (RunHostConfig.choosePin_of_file (Option.not_isSome_iff_eq_none.mp hflag) hpath).mpr
        ⟨settings, hload, activePin_eq_some_iff.mpr ⟨hunattended, hpin, hne⟩⟩
    have hrun := hobey (connection (config.choosePin json file) coins) fun _ hevent =>
      looksUp_of_mem_connection hfile hevent
    rw [hchosen] at hrun
    exact ⟨trim pin, validatePin_eq_ok_iff.mpr ⟨rfl, obeysRules_connection hrun⟩⟩
  · intro hroutes events hevents
    refine along_of_along HostState.step (HostState.LookedUp json config contents)
      (fun state event h hevent => h.step hevent) ?_ ?_ (along_of_mem HostState.step {} hevents)
    · intro state event hlooked _ password hstarts
      obtain ⟨pin, binding, hphase, rfl⟩ := HostState.startsExchange_eq_some hstarts
      obtain ⟨file, hfile, hchosen⟩ := hlooked (some pin) binding _ hphase
      exact RunHostConfig.pinRules_of_choosePin haccepted
        (hroutes.imp_right (Or.imp_right fun hall => hall file hfile)) hchosen.symm
    · intro pin binding auth hphase
      cases hphase

/-- A host without the flag `--pin`. -/
def settingsConfig : RunHostConfig where
  demo := true
  fps := 15
  bitrateKbps := 4000
  downloadDir := ["Downloads"]
  offerFile := none
  pin := none
  settingsPath := some ["settings.json"]

/-- A PIN of six digits. -/
def digitSettings : Settings := { unattended := true, pin := some "482913" }

/-- A PIN of six spaces, which no command would save. -/
def blankSettings : Settings := { unattended := true, pin := some "      " }

/-- A saved PIN of digits. -/
theorem exchanges_obey_rules_digits :
    settingsConfig.check = .ok () ∧
    ∀ events : List (HostEvent emptyElementCrypto),
      (∀ event ∈ events, event.LooksUp plainJson settingsConfig
        {some (digitSettings.text plainJson)}) → ExchangesObeyRules events := by
  refine ⟨rfl, (exchanges_obey_rules_iff () plainJson settingsConfig rfl
    {some (digitSettings.text plainJson)}).mpr (Or.inr (Or.inr ?_))⟩
  rintro _ rfl settings pin hload _ hpin _
  rw [Settings.load_text plainJson_lawful] at hload
  cases hload
  cases hpin
  exact ⟨"482913", by decide⟩

/-- Whoever writes six spaces into the settings file lets clients in without a PIN. -/
theorem exchange_of_blank_pin :
    settingsConfig.check = .ok () ∧
    Settings.load plainJson (some (blankSettings.text plainJson)) = .ok blankSettings ∧
    ¬ ∀ events : List (HostEvent emptyElementCrypto),
      (∀ event ∈ events, event.LooksUp plainJson settingsConfig
        {some (blankSettings.text plainJson)}) → ExchangesObeyRules events := by
  have hload := Settings.load_text plainJson_lawful blankSettings
  refine ⟨rfl, hload, fun hobey => ?_⟩
  have hchosen : settingsConfig.choosePin plainJson (some (blankSettings.text plainJson)) =
      some "      " :=
    (RunHostConfig.choosePin_of_file rfl (by decide)).mpr ⟨blankSettings, hload, by decide⟩
  have hrun := hobey (connection (settingsConfig.choosePin plainJson
      (some (blankSettings.text plainJson))) ()) fun _ hevent =>
    looksUp_of_mem_connection (Set.mem_singleton _) hevent
  rw [hchosen] at hrun
  exact absurd (obeysRules_connection hrun).long (by decide)

/-! ## The command line -/

/-- The stored PIN, if there is one, obeys the rules as it stands. -/
def Settings.PinSound (settings : Settings) : Prop :=
  ∀ pin, settings.pin = some pin → PinRules pin

/-- What the settings file may hold when only commands have written it, one after
another. -/
inductive SavedByCommands (json : SettingsJson) : Option Bytes → Prop
  | missing : SavedByCommands json none
  | saved {file : Option Bytes} {settings changed : Settings} {command : SettingsCommand}
      (hfile : SavedByCommands json file) (hload : Settings.load json file = .ok settings)
      (hchange : command.change settings = .ok (some changed)) :
      SavedByCommands json (some (changed.text json))

namespace SettingsCommand

variable {settings changed : Settings}

/-- The frame rate leaves the PIN alone. -/
theorem pin_setFps {fps : Option UInt32} (h : setFps settings fps = .ok changed) :
    changed.pin = settings.pin := by
  cases fps with
  | none =>
      cases h
      rfl
  | some fps =>
      rw [setFps] at h
      split_ifs at h
      cases h
      rfl

/-- The bitrate leaves the PIN alone. -/
theorem pin_setBitrate {bitrateKbps : Option UInt32}
    (h : setBitrate settings bitrateKbps = .ok changed) : changed.pin = settings.pin := by
  cases bitrateKbps with
  | none =>
      cases h
      rfl
  | some bitrateKbps =>
      rw [setBitrate] at h
      split_ifs at h
      cases h
      rfl

/-- The video command leaves the PIN alone. -/
theorem pin_video {fps bitrateKbps : Option UInt32}
    (h : (SettingsCommand.video fps bitrateKbps).change settings = .ok (some changed)) :
    changed.pin = settings.pin := by
  rw [change] at h
  cases hfps : setFps settings fps with
  | error err =>
      rw [hfps] at h
      cases h
  | ok first =>
      cases hbitrate : setBitrate first bitrateKbps with
      | error err =>
          simp only [hfps, hbitrate, bind, Except.bind] at h
          cases h
      | ok second =>
          simp only [hfps, hbitrate, bind, Except.bind] at h
          split_ifs at h
          · cases h
            exact (pin_setBitrate hbitrate).trans (pin_setFps hfps)
          · cases h

/-- A command stores a PIN that it has checked, or keeps or removes the one there is. -/
theorem pinSound_of_change {command : SettingsCommand} (h : settings.PinSound)
    (hchange : command.change settings = .ok (some changed)) : changed.PinSound := by
  cases command with
  | pinSet pin =>
      rw [change] at hchange
      cases hvalid : validatePin pin with
      | error message =>
          rw [hvalid] at hchange
          cases hchange
      | ok password =>
          rw [hvalid] at hchange
          cases hchange
          rintro _ ⟨⟩
          obtain ⟨rfl, hrules⟩ := validatePin_eq_ok_iff.mp hvalid
          exact hrules
  | pinClear =>
      cases hchange
      rintro _ ⟨⟩
  | unattended on =>
      cases on with
      | true =>
          rw [change] at hchange
          split_ifs at hchange
          cases hchange
          exact h
      | false =>
          cases hchange
          exact h
  | video fps bitrateKbps =>
      intro pin hpin
      rw [pin_video hchange] at hpin
      exact h pin hpin

end SettingsCommand

/-- Commands leave a file whose PIN obeys the rules. -/
theorem SavedByCommands.pinSound {json : SettingsJson} (hjson : json.Lawful)
    {file : Option Bytes} (h : SavedByCommands json file) {settings : Settings}
    (hload : Settings.load json file = .ok settings) : settings.PinSound := by
  induction h generalizing settings with
  | missing =>
      cases hload
      rintro _ ⟨⟩
  | saved hfile hbefore hchange ih =>
      rw [Settings.load_text hjson] at hload
      cases hload
      exact SettingsCommand.pinSound_of_change (ih hbefore) hchange

/-- What the commands save has a checked PIN. -/
theorem SavedByCommands.pinChecked {json : SettingsJson} (hjson : json.Lawful)
    {file : Option Bytes} (h : SavedByCommands json file) : PinChecked json file := by
  intro settings pin hload _ hpin _
  have hrules := h.pinSound hjson hload pin hpin
  exact ⟨pin, validatePin_eq_ok_iff.mpr ⟨hrules.trim_eq.symm, hrules.trim_eq.symm ▸ hrules⟩⟩

/-- While only commands write the settings file, all exchanges obey the rules. -/
theorem exchanges_obey_rules_of_commands {json : SettingsJson} (hjson : json.Lawful)
    (coins : crypto.Coins) {config : RunHostConfig} (haccepted : config.check = .ok ())
    {events : List (HostEvent crypto)}
    (hevents : ∀ event ∈ events, event.LooksUp json config (SavedByCommands json)) :
    ExchangesObeyRules events :=
  (exchanges_obey_rules_iff coins json config haccepted (SavedByCommands json)).mpr
    (Or.inr (Or.inr fun _ hfile => hfile.pinChecked hjson)) events hevents

end OmarchyConnect.Host
