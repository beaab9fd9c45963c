/-
# What the state file tells

The publisher of the accept loop is a run of the library's, so whoever opens the state
file reads one whole state that the host was in. What `status` and `disconnect` make of it
is told by an invariant that ties the state in memory to where the loop is.
-/

import OmarchyConnect.Host.LiveStateJson
import OmarchyConnect.Host.ServingPublisher

namespace OmarchyConnect.Host

open OmarchyConnect.Library OmarchyConnect.Library.Wire OmarchyConnect.Library.Runs
open OmarchyConnect.Protocol

variable {crypto : PinCrypto} {demo : Bool} {json : LiveJson}

/-! ## The state in memory -/

/-- A state has a client just while it is not listening, and no error then. -/
structure LiveState.Consistent (live : LiveState) : Prop where
  listening : live.status = .listening →
    live.peer = none ∧ live.client = none ∧ live.since = none
  client : live.status ≠ .listening →
    live.peer.isSome ∧ live.client.isSome ∧ live.since.isSome ∧ live.lastError = none

/-- Status, peer and client that are told of a stage. Between a session and its last update
those of the session are still there. -/
def ServingStage.told (demo : Bool) :
    ServingStage → Option (Status × Option String × Option String)
  | .accepting => some (.listening, none, none)
  | .accepted _ => some (.listening, none, none)
  | .handshaking _ _ => some (.listening, none, none)
  | .opening peer name => some (if demo then .connected else .sharing, some peer, some name)
  | .driving peer name => some (.connected, some peer, some name)
  | .looping peer name => some (.connected, some peer, some name)
  | _ => none

/-- What a state tells of the session. -/
def LiveState.session (live : LiveState) : Status × Option String × Option String :=
  (live.status, live.peer, live.client)

/-- What a state tells of the process. -/
def LiveState.process (live : LiveState) : HostProcess :=
  { pid := live.pid, port := live.port, inputReady := live.inputReady }

namespace LiveState

variable {live : LiveState}

/-- What a session tells, field by field. -/
theorem session_eq {status : Status} {peer client : Option String}
    (h : live.session = (status, peer, client)) :
    live.status = status ∧ live.peer = peer ∧ live.client = client := by
  obtain ⟨rfl, hrest⟩ := Prod.mk.inj h
  obtain ⟨rfl, rfl⟩ := Prod.mk.inj hrest
  exact ⟨rfl, rfl, rfl⟩

/-- A host that was just started is consistent. -/
theorem Consistent.start (process : HostProcess) :
    Consistent { pid := process.pid, port := process.port, inputReady := process.inputReady } :=
  ⟨fun _ => ⟨rfl, rfl, rfl⟩, fun hclient => absurd rfl hclient⟩

/-- A state behind an authentication is consistent. -/
theorem consistent_authenticated (demo : Bool) (peer client : String) (now : ℕ) :
    (live.authenticated demo peer client now).Consistent := by
  constructor
  · intro hlistening
    cases demo <;> cases hlistening
  · exact fun _ => ⟨rfl, rfl, rfl, rfl⟩

/-- A state behind the end of a session is consistent. -/
theorem consistent_ended (error : Option String) : (live.ended error).Consistent :=
  ⟨fun _ => ⟨rfl, rfl, rfl⟩, fun hclient => absurd rfl hclient⟩

/-- A connected session is consistent. -/
theorem Consistent.connected (h : live.Consistent) (hclient : live.status ≠ .listening) :
    live.connected.Consistent := by
  refine ⟨fun hlistening => ?_, fun _ => h.client hclient⟩
  cases hlistening

end LiveState

namespace Serving

variable {serving : Serving crypto}

/-- The state in memory belongs to where the loop is. -/
structure Tells (demo : Bool) (serving : Serving crypto) : Prop where
  session : ∀ session ∈ serving.stage.told demo, serving.publisher.memory.session = session
  process : serving.stage ≠ .down → serving.publisher.memory.process = serving.process
  consistent : serving.publisher.memory.Consistent
  history : ∀ live ∈ serving.publisher.history, live.Consistent

/-- Another stage with the same state in memory. -/
theorem Tells.stage (h : serving.Tells demo) {after : Serving crypto}
    (hmemory : after.publisher.memory = serving.publisher.memory)
    (hhistory : after.publisher.history = serving.publisher.history)
    (hprocess : after.process = serving.process)
    (hstage : after.stage.told demo = none ∨ after.stage.told demo = serving.stage.told demo)
    (hup : serving.stage = .down → after.stage = .down) : after.Tells demo := by
  refine ⟨fun session hsession => ?_, fun hrunning => ?_, ?_, ?_⟩
  · rcases hstage with hnone | hsame
    · rw [hnone] at hsession
      cases hsession
    · rw [hmemory]
      exact h.session session (hsame ▸ hsession)
  · rw [hmemory, hprocess]
    exact h.process fun hdown => hrunning (hup hdown)
  · rw [hmemory]
    exact h.consistent
  · rw [hhistory]
    exact h.history

/-- Another state in memory, with the stage that it belongs to. -/
theorem Tells.update (h : serving.Tells demo) {after : Serving crypto} {live : LiveState}
    (hpublisher : after.publisher = serving.publisher.change live) (hlive : live.Consistent)
    (hsession : ∀ session ∈ after.stage.told demo, live.session = session)
    (hprocess : live.process = after.process) : after.Tells demo := by
  refine ⟨?_, ?_, ?_, ?_⟩ <;> rw [hpublisher]
  · exact hsession
  · exact fun _ => hprocess
  · exact hlive
  · intro other hother
    rcases List.mem_append.mp hother with hold | hnew
    · exact h.history other hold
    · rw [List.mem_singleton.mp hnew]
      exact hlive

/-- The lock that is published is nothing that the stage tells of. -/
theorem lockChange_spec {event : HostEvent crypto} {unix : ℕ} {change : LiveState → LiveState}
    (hchange : serving.lockChange event unix = some change) (live : LiveState) :
    (change live).session = live.session ∧ (change live).process = live.process ∧
      (live.Consistent → (change live).Consistent) := by
  unfold lockChange at hchange
  split at hchange
  next => cases hchange
  next =>
    obtain rfl := Option.some.inj hchange
    exact ⟨rfl, rfl, fun h => ⟨h.listening, h.client⟩⟩
  next =>
    split at hchange
    next => cases hchange
    next =>
      obtain rfl := Option.some.inj hchange
      exact ⟨rfl, rfl, fun h => ⟨h.listening, h.client⟩⟩

/-- A handshake tells of the stage that it comes to. -/
theorem Tells.shake (h : serving.Tells demo) {peer name : String}
    (hstage : serving.stage = .handshaking peer name) (event : HostEvent crypto) (unix : ℕ)
    (error : String) : (serving.shake demo peer name event unix error).Tells demo := by
  have hprocess : serving.publisher.memory.process = serving.process :=
    h.process (by simp [hstage])
  have hsession : serving.publisher.memory.session = (.listening, none, none) :=
    h.session _ (by rw [hstage]; rfl)
  unfold Serving.shake shakeChange
  cases (serving.host.step event).phase with
  | listening =>
      exact h.stage rfl rfl rfl (Or.inl rfl) fun hdown => by cases hstage.symm.trans hdown
  | session =>
      refine h.update rfl (LiveState.consistent_authenticated demo peer _ unix) ?_ hprocess
      rintro session ⟨⟩
      rfl
  | handshake handshake =>
      dsimp only
      cases hlock : serving.lockChange event unix with
      | none =>
          refine h.stage rfl rfl rfl (Or.inr ?_) fun hdown => by cases hstage.symm.trans hdown
          rw [hstage]
          rfl
      | some change =>
          obtain ⟨hkept, hsame, hconsistent⟩ := lockChange_spec hlock serving.publisher.memory
          refine h.update rfl (hconsistent h.consistent) ?_ (hsame.trans hprocess)
          rintro session ⟨⟩
          exact hkept.trans hsession

/-- A step keeps the state telling of the stage. -/
theorem Moves.tells {event : ServingEvent crypto} {after : Serving crypto}
    (hmoves : serving.Moves demo json event after) (h : serving.Tells demo) :
    after.Tells demo := by
  cases hmoves with
  | stays => exact h
  | booted process =>
      refine h.update rfl (LiveState.Consistent.start process) ?_ rfl
      rintro session ⟨⟩
      rfl
  | died => exact h.stage rfl rfl rfl (Or.inl rfl) fun _ => rfl
  | signal =>
      unfold disconnectCurrent
      split
      · exact h.stage rfl rfl rfl (Or.inr rfl) id
      · exact h
  | shutdown => exact h.stage rfl rfl rfl (Or.inr rfl) id
  | acceptFailed => exact h.stage rfl rfl rfl (Or.inl rfl) fun _ => rfl
  | accepted peer hstage =>
      refine h.stage rfl rfl rfl (Or.inr ?_) fun hdown => by cases hstage.symm.trans hdown
      rw [hstage]
      rfl
  | slotSet peer hstage =>
      refine h.stage rfl rfl rfl (Or.inr ?_) fun hdown => by cases hstage.symm.trans hdown
      rw [hstage]
      rfl
  | handshake peer name event unix error _ hstage => exact h.shake hstage event unix error
  | timedOut peer name hstage =>
      exact h.stage rfl rfl rfl (Or.inl rfl) fun hdown => by cases hstage.symm.trans hdown
  | cancelled hstage =>
      refine h.stage rfl rfl rfl (Or.inl rfl) fun hdown => ?_
      rw [hdown] at hstage
      cases hstage
  | opened peer name _ hstage =>
      have hsession : serving.publisher.memory.session =
          (if demo then .connected else .sharing, some peer, some name) :=
        h.session _ (by rw [hstage]; rfl)
      obtain ⟨hstatus, hpeer, hclient⟩ := LiveState.session_eq hsession
      have hthere : serving.publisher.memory.status ≠ .listening := by
        rw [hstatus]
        cases demo <;> decide
      refine h.update rfl (h.consistent.connected hthere) ?_ (h.process (by simp [hstage]))
      rintro session ⟨⟩
      rw [LiveState.session, LiveState.connected, hpeer, hclient]
  | openFailed peer name error hstage =>
      exact h.stage rfl rfl rfl (Or.inl rfl) fun hdown => by cases hstage.symm.trans hdown
  | reading peer name hstage =>
      refine h.stage rfl rfl rfl (Or.inr ?_) fun hdown => by cases hstage.symm.trans hdown
      rw [hstage]
      rfl
  | readerEnded => exact h.stage rfl rfl rfl (Or.inr rfl) id
  | driveFailed peer name error hstage =>
      refine h.stage rfl rfl rfl (Or.inl rfl) fun hdown => ?_
      rcases hstage with hstage | hstage <;> cases hstage.symm.trans hdown
  | driven peer name hstage =>
      exact h.stage rfl rfl rfl (Or.inl rfl) fun hdown => by cases hstage.symm.trans hdown
  | slotCleared error hstage =>
      exact h.stage rfl rfl rfl (Or.inl rfl) fun hdown => by cases hstage.symm.trans hdown
  | reported error _ hstage =>
      refine h.update rfl (LiveState.consistent_ended error) ?_ (h.process (by simp [hstage]))
      rintro session ⟨⟩
      rfl
  | stopped removed hstage hshutdown =>
      refine h.stage ?_ ?_ rfl (Or.inl rfl) fun _ => rfl
      · cases removed with
        | true => exact (Published.memory_stepCall _ _ _ _).1
        | false => rfl
      · cases removed with
        | true => exact (Published.memory_stepCall _ _ _ _).2
        | false => rfl
  | call call =>
      exact h.stage (Published.memory_stepCall _ _ _ _).1 (Published.memory_stepCall _ _ _ _).2 rfl
        (Or.inr rfl) id

/-! ## Whole runs -/

/-- At first there is nothing to tell of. -/
theorem tells_start (demo : Bool) (files : Inodes Published.Name UInt8) :
    (start files : Serving crypto).Tells demo := by
  refine ⟨fun session hsession => ?_, fun hup => absurd rfl hup, ?_, fun live hlive => ?_⟩
  · cases hsession
  · exact LiveState.Consistent.start {}
  · rw [List.mem_singleton.mp hlive]
    exact LiveState.Consistent.start {}

/-- The state tells of the stage in every run. -/
theorem tells_run (demo : Bool) (json : LiveJson) (files : Inodes Published.Name UInt8)
    (events : List (ServingEvent crypto)) :
    (run (step demo json) (start files) events).Tells demo :=
  invariant_of_step (step demo json) (Tells demo)
    (fun serving event h => (serving.moves_step demo json event).tells h) (tells_start demo files)
    events

/-- The publisher is sound in every run. -/
theorem sound_run (demo : Bool) (json : LiveJson) (files : Inodes Published.Name UInt8)
    (events : List (ServingEvent crypto)) :
    (run (step demo json) (start files) events).publisher.Sound json.toVecPretty
      (files.read .file) := by
  obtain ⟨made, hrun, -⟩ := publisher_run demo json (start files) events
  rw [hrun]
  refine invariant_of_step _ (Published.Sound json.toVecPretty (files.read .file))
    (fun _ event h => h.step event) ?_ made
  refine ⟨fun inode offset rest hwriting => ?_, fun bytes hread => Or.inl ⟨rfl, hread⟩, [], rfl,
    List.nil_sublist _, fun hbusy => absurd rfl hbusy⟩
  exact absurd hwriting Published.writer_ne_of_idle

/-- What memory has had since the start was put there by an update. -/
theorem exists_update_of_mem_history (demo : Bool) (json : LiveJson)
    (files : Inodes Published.Name UInt8) (events : List (ServingEvent crypto)) {live : LiveState}
    (h : live ∈ (run (step demo json) (start files) events).publisher.history.tail) :
    ∃ front, front <+: events ∧
      (run (step demo json) (start files) front).publisher.memory = live ∧
        (run (step demo json) (start files) front).publisher.writer = .changed := by
  induction events using List.reverseRecOn with
  | nil => cases h
  | append_singleton events event ih =>
      have hlater : live ∈ (run (step demo json) (start files) events).publisher.history.tail →
          ∃ front, front <+: events ++ [event] ∧
            (run (step demo json) (start files) front).publisher.memory = live ∧
              (run (step demo json) (start files) front).publisher.writer = .changed := by
        intro hbefore
        obtain ⟨front, hfront, hmemory⟩ := ih hbefore
        exact ⟨front, hfront.trans (List.prefix_append _ _), hmemory⟩
      rw [run_append_singleton] at h
      rcases (moves_step demo json (run (step demo json) (start files) events) event).publishes with
        hsame | ⟨made, hmade, -⟩
      · rw [hsame] at h
        exact hlater h
      · rw [hmade] at h
        rcases Published.mem_history_step h with hold | ⟨hmemory, hchanged⟩
        · exact hlater hold
        · refine ⟨events ++ [event], List.prefix_rfl, ?_⟩
          rw [run_append_singleton, hmade]
          exact ⟨hmemory, hchanged⟩

/-- Somebody looks at the state file of a host that is up, between two updates. No call has
failed since the last one began, whatever failed before. -/
structure ReadAtRest (demo : Bool) (json : LiveJson) (files : Inodes Published.Name UInt8)
    (first second : List (ServingEvent crypto)) (serving : Serving crypto)
    (surroundings : Surroundings) : Prop where
  update : (run (step demo json) (start files) first).publisher.writer = .changed
  succeeds : ∀ event ∈ second, event.Succeeds
  reached : serving = run (step demo json) (start files) (first ++ second)
  quiet : serving.quiet = true
  up : serving.stage ≠ .down
  file : surroundings.state = serving.publisher.files.read .file
  alive : pidAlive surroundings.running serving.process.pid = true

/-- What was moved over the state file last is the state in memory. -/
theorem ReadAtRest.published {files : Inodes Published.Name UInt8}
    {first second : List (ServingEvent crypto)} {surroundings : Surroundings}
    (h : ReadAtRest demo json files first second serving surroundings) :
    serving.publisher.files.read .file = some (json.toVecPretty serving.publisher.memory) := by
  obtain ⟨made, hrun, hmade⟩ :=
    publisher_run demo json (run (step demo json) (start files) first) second
  have hchanged : (run (step demo json) (start files) first).publisher.UpToDate
      json.toVecPretty := by
    intro hidle
    cases h.update.symm.trans hidle
  have hnow : serving.publisher.UpToDate json.toVecPretty := by
    rw [h.reached, run_append, hrun]
    exact Published.upToDate_run (sound_run demo json files first) hchanged (hmade h.succeeds)
  exact hnow (serving.writer_of_quiet h.quiet)

/-- What is read then is the state in memory. -/
theorem ReadAtRest.live {files : Inodes Published.Name UInt8}
    {first second : List (ServingEvent crypto)} {surroundings : Surroundings}
    (h : ReadAtRest demo json files first second serving surroundings) :
    surroundings.live json = some serving.publisher.memory := by
  have hpid : serving.publisher.memory.pid = serving.process.pid := by
    have htells : serving.Tells demo := h.reached ▸ tells_run demo json files (first ++ second)
    exact congrArg HostProcess.pid (htells.process h.up)
  rw [Surroundings.live, h.file, h.published, readLive, Option.bind_some, json.reads,
    Option.filter_some, hpid, if_pos h.alive]

/-- A host at rest behind an update, when everything that it was to write is written out. -/
theorem readAtRest_writtenOut {files : Inodes Published.Name UInt8}
    {events : List (ServingEvent crypto)} {last : ServingEvent crypto} {after host : Serving crypto}
    (hplain : ∀ event ∈ last :: events, event.plain = true)
    (hafter : (run (settledStep demo json) (start files) events).step demo json last = after)
    (hbusy : after.quiet = false) (hup : after.stage ≠ .down)
    (hhost : host = run (step demo json) (start files)
      (writtenOut demo json (start files) events ++ [last] ++ after.publishing json))
    {surroundings : Surroundings}
    (hstate : surroundings.state = host.publisher.files.read .file)
    (halive : pidAlive surroundings.running after.process.pid = true) :
    ReadAtRest demo json files (writtenOut demo json (start files) events ++ [last])
      (after.publishing json) host surroundings ∧
        host.stage = after.stage ∧ host.process = after.process ∧ host.host = after.host := by
  have hchanged : after.publisher.writer = .changed := by
    have hidle : (run (settledStep demo json) (start files) events).publisher.writer = .idle :=
      invariant_of_step (settledStep demo json) (fun serving => serving.publisher.writer = .idle)
        (fun _ _ _ => rfl) rfl events
    refine (hafter ▸ writer_step demo json last hidle).resolve_left fun hidle => ?_
    rw [quiet, hidle] at hbusy
    cases hbusy
  obtain ⟨files', shown', hfront⟩ := run_writtenOut demo json (start files)
    (fun event hevent => hplain event (List.mem_cons_of_mem _ hevent)) rfl
  have hlast : run (step demo json) (start files)
      (writtenOut demo json (start files) events ++ [last]) = after.withFiles files' shown' := by
    rw [run_append_singleton, hfront, step_withFiles demo json _ (hplain last (by simp)), hafter]
  obtain ⟨files'', shown'', hcalls⟩ := run_publishing demo json (after.withFiles files' shown')
    (Or.inr hchanged)
  have hend : host = after.settled.withFiles files'' shown'' := by
    rw [hhost, run_append, hlast]
    exact hcalls
  have hstage : host.stage = after.stage := hend ▸ rfl
  have hprocess : host.process = after.process := hend ▸ rfl
  have hwriter : host.publisher.writer = .idle := hend ▸ rfl
  refine ⟨?_, hstage, hprocess, hend ▸ rfl⟩
  exact {
    update := by
      rw [hlast]
      exact hchanged
    succeeds := fun event hevent => by
      obtain ⟨call, rfl, hok⟩ := mem_publishing hevent
      exact hok
    reached := hhost
    quiet := by rw [quiet, hwriter]
    up := hstage ▸ hup
    file := hstate
    alive := hprocess ▸ halive }

/-- Whoever opens the state file at any time, and reads it to its end at any later one, finds
what stood there before a host published anything, or one whole state that an update of the
host had put into memory by then. -/
theorem state_file_whole (demo : Bool) (json : LiveJson) (files : Inodes Published.Name UInt8)
    (front back : List (ServingEvent crypto)) {inode : ℕ}
    (hopened : (run (step demo json) (start files) front).publisher.files.names .file =
      some inode) :
    let bytes :=
      (run (step demo json) (start files) (front ++ back)).publisher.files.content inode
    files.read .file = some bytes ∨
      ∃ live, readLive json (some bytes) = some live ∧ live.Consistent ∧
        ∃ earlier, earlier <+: front ∧
          (run (step demo json) (start files) earlier).publisher.memory = live ∧
            (run (step demo json) (start files) earlier).publisher.writer = .changed := by
  intro bytes
  have hsound := sound_run demo json files front
  obtain ⟨made, hrun, -⟩ :=
    publisher_run demo json (run (step demo json) (start files) front) back
  have hbytes : bytes = (run (Published.step json.toVecPretty 0)
      (run (step demo json) (start files) front).publisher made).files.content inode := by
    simp only [bytes, run_append, hrun]
  rw [hbytes]
  rcases Published.opened_read hsound hopened made with ⟨-, hstart⟩ | ⟨live, -, hhistory, hread⟩
  · exact Or.inl hstart
  · refine Or.inr ⟨live, ?_, ?_, exists_update_of_mem_history demo json files front hhistory⟩
    · rw [hread, readLive, Option.bind_some, json.reads]
    · exact (tells_run demo json files front).history live (List.mem_of_mem_tail hhistory)

/-- SPAKE2 and HMAC as a client with the right PIN sees them: the exchange gives a key, and
the confirmations match. -/
def rightPinCrypto : PinCrypto where
  State := Unit
  Coins := Unit
  startA := fun _ _ _ _ => ((), 0x41 :: List.replicate 32 0)
  startB := fun _ _ _ _ => ((), 0x42 :: List.replicate 32 0)
  finish := fun _ _ => some (List.replicate 32 0)
  hmac := fun _ _ => Vector.replicate 32 0

/-- A host is started, and a client gets in. -/
def login : List (ServingEvent rightPinCrypto) :=
  [.booted { pid := 1, port := 47921 }, .accepted "192.0.2.7", .slotSet] ++
    ([.tlsAccepted true, .received (.ok (.hello protocolVersion "guest")) (),
      .written true (some (List.replicate 32 0)) (some "482913"),
      .received (.ok (.auth (0x41 :: List.replicate 32 0))) (), .written true none none,
      .received (.ok (.authConfirm (Vector.replicate 32 0))) (), .written true none none].map
        fun action => .handshake ⟨0, action⟩ 1700000000 "")

/-- The capture has been opened, and the update is to be written. -/
def afterLogin : Serving rightPinCrypto :=
  (run (settledStep false plainLiveJson) (start Inodes.empty) login).step false plainLiveJson
    .opened

/-- The client gets in, with everything written out. -/
def loginWrittenOut : List (ServingEvent rightPinCrypto) :=
  writtenOut false plainLiveJson (start Inodes.empty) login ++ [.opened] ++
    afterLogin.publishing plainLiveJson

/-- The host with its client, when all updates are written out. -/
def connectedHost : Serving rightPinCrypto :=
  run (step false plainLiveJson) (start Inodes.empty) loginWrittenOut

/-- What a report sees next to a host of process 1: its state file and its number. -/
def besideHost (host : Serving crypto) (now : ℕ) : Surroundings where
  settings := none
  state := host.publisher.files.read .file
  shareSaved := false
  running := fun pid => pid == 1
  interfaces := none
  now

/-- The state file that is read beside a host. -/
theorem besideHost_state (host : Serving crypto) (now : ℕ) :
    (besideHost host now).state = host.publisher.files.read .file := rfl

/-- Where the host is behind the login. -/
theorem afterLogin_spec :
    afterLogin.stage = .driving "192.0.2.7" "guest" ∧ afterLogin.quiet = false ∧
      afterLogin.process = { pid := 1, port := 47921 } := by
  decide +kernel

/-- The host rests behind the login. -/
theorem connectedHost_atRest :
    ReadAtRest false plainLiveJson Inodes.empty
      (writtenOut false plainLiveJson (start Inodes.empty) login ++ [.opened])
      (afterLogin.publishing plainLiveJson) connectedHost (besideHost connectedHost 0) ∧
    connectedHost.stage = .driving "192.0.2.7" "guest" ∧
      connectedHost.process = { pid := 1, port := 47921 } := by
  obtain ⟨hstage, hbusy, hprocess⟩ := afterLogin_spec
  have hplain : ∀ event ∈ .opened :: login, event.plain = true := by decide +kernel
  have hafter : (run (settledStep false plainLiveJson) (start Inodes.empty) login).step false
      plainLiveJson .opened = afterLogin := by
    rw [afterLogin]
  have hreached : connectedHost = run (step false plainLiveJson) (start Inodes.empty)
      (writtenOut false plainLiveJson (start Inodes.empty) login ++ [.opened] ++
        afterLogin.publishing plainLiveJson) := by
    rw [connectedHost, loginWrittenOut]
  obtain ⟨hrest, hstage', hprocess', -⟩ := readAtRest_writtenOut hplain hafter hbusy
    (by rw [hstage]; decide) hreached (besideHost_state connectedHost 0)
    (by rw [hprocess]; decide)
  exact ⟨hrest, hstage'.trans hstage, hprocess'.trans hprocess⟩

/-- A file that was opened while a client was there, and read to its end when another host
had published to the path. -/
theorem state_file_whole_republished :
    let republished : List (ServingEvent rightPinCrypto) :=
      [.died, .booted { pid := 2, port := 47921 }] ++
        (Published.calls plainLiveJson.toVecPretty { pid := 2, port := 47921 }).map .call
    ∃ inode, connectedHost.publisher.files.names .file = some inode ∧
      let bytes := (run (step false plainLiveJson) (start Inodes.empty)
        (loginWrittenOut ++ republished)).publisher.files.content inode
      (Inodes.empty : Inodes Published.Name UInt8).read .file = some bytes ∨
        ∃ live, readLive plainLiveJson (some bytes) = some live ∧ live.Consistent ∧
          ∃ earlier, earlier <+: loginWrittenOut ∧
            (run (step false plainLiveJson) (start Inodes.empty) earlier).publisher.memory =
              live ∧
            (run (step false plainLiveJson) (start Inodes.empty) earlier).publisher.writer =
              .changed := by
  intro republished
  have hread := connectedHost_atRest.1.published
  rw [Inodes.read, Option.map_eq_some_iff] at hread
  obtain ⟨inode, hinode, -⟩ := hread
  refine ⟨inode, hinode, ?_⟩
  rw [connectedHost] at hinode
  exact state_file_whole false plainLiveJson Inodes.empty loginWrittenOut republished hinode

/-- A report at rest tells of the stage that the host is in, and a disconnect finds it. -/
theorem report_tells (settingsJson : SettingsJson) {files : Inodes Published.Name UInt8}
    {first second : List (ServingEvent crypto)} {surroundings : Surroundings}
    (h : ReadAtRest demo json files first second serving surroundings) {status : Status}
    {peer client : Option String}
    (hstage : serving.stage.told demo = some (status, peer, client)) :
    let told := report settingsJson json surroundings
    told.running = true ∧ told.status = statusText (some status) ∧ told.peer = peer ∧
      told.client = client ∧ told.port = some serving.process.port ∧
        told.inputReady = serving.process.inputReady ∧
          (serving.process.pid.toNat < 2 ^ 31 →
            disconnect json surroundings = .ok serving.process.pid) := by
  have htells : serving.Tells demo := h.reached ▸ tells_run demo json files (first ++ second)
  have hprocess := htells.process h.up
  obtain ⟨hstatus, hpeer, hclient⟩ := LiveState.session_eq (htells.session _ hstage)
  intro told
  simp only [told, report, disconnect, h.live, Option.map_some, Option.bind_some, hstatus, hpeer,
    hclient, Option.isSome_some, Option.any_some, true_and]
  refine ⟨congrArg some (congrArg HostProcess.port hprocess),
    congrArg HostProcess.inputReady hprocess, fun hsmall => ?_⟩
  have hpid : serving.publisher.memory.pid = serving.process.pid :=
    congrArg HostProcess.pid hprocess
  rw [hpid, if_pos hsmall]

/-- The report and the disconnect that find the client. -/
theorem report_tells_connected :
    let surroundings := besideHost connectedHost 0
    let told := report plainJson plainLiveJson surroundings
    told.running = true ∧ told.status = "connected" ∧ told.peer = some "192.0.2.7" ∧
      told.client = some "guest" ∧ told.port = some 47921 ∧ told.inputReady = false ∧
        disconnect plainLiveJson surroundings = .ok 1 := by
  obtain ⟨hrest, hstage, hprocess⟩ := connectedHost_atRest
  have htold : connectedHost.stage.told false =
      some (.connected, some "192.0.2.7", some "guest") := by
    rw [hstage]
    rfl
  obtain ⟨hrunning, hstatus, hpeer, hclient, hport, hinput, hdisconnect⟩ :=
    report_tells plainJson hrest htold
  rw [hprocess] at hport hinput hdisconnect
  exact ⟨hrunning, hstatus, hpeer, hclient, hport, hinput, hdisconnect (by decide)⟩

end Serving

end OmarchyConnect.Host
