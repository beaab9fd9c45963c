/-
# The accept loop with what surrounds it

`run_host` handles one connection after another. Around it are the task that turns
`SIGUSR1` into a disconnect, the shutdown of the whole host, and the publisher, whose calls
block the loop but nothing else. The token of the connection that is being handled stands
in a slot, and the signal cancels what it finds there.

`drive_session` has the same token. It cancels it behind its loop, and the reader task that
it spawns cancels it when the client is gone. Where `drive_session` returns with an error
the reader task is left to itself, and it may end at any later time.

The process may die between any two steps, and another one may be started on the files
that it left. One host at a time publishes to a path.
-/

import OmarchyConnect.Host.LiveState
import OmarchyConnect.Host.Throttle

namespace OmarchyConnect.Host

open OmarchyConnect.Library OmarchyConnect.Library.Wire OmarchyConnect.Protocol

/-- Where `run_host` is. A connection has its address from the start and the name of the
client once that has said hello. `driving` is `drive_session` before it spawns the reader
task and `looping` its loop, `returned` is `handle_client` done with the slot still set, and
`released` is before the last update of the session. -/
inductive ServingStage
  | down
  | accepting
  | accepted (peer : String)
  | handshaking (peer name : String)
  | opening (peer name : String)
  | driving (peer name : String)
  | looping (peer name : String)
  | returned (error : Option String)
  | released (error : Option String)
  deriving DecidableEq, Repr

/-- The token of the connection is in the slot. -/
def ServingStage.inSession : ServingStage → Bool
  | .handshaking _ _ => true
  | .opening _ _ => true
  | .driving _ _ => true
  | .looping _ _ => true
  | .returned _ => true
  | _ => false

/-- A process of the host: its number, its port, and whether uinput is writable. -/
structure HostProcess where
  pid : UInt32 := 0
  port : UInt16 := 0
  inputReady : Bool := false
  deriving DecidableEq, Repr

/-- Connections are numbered, and a token is cancelled on its own or with the host. The
reader task of a connection is one of `readers` from when it is spawned to when it ends. -/
structure Serving (crypto : PinCrypto) where
  process : HostProcess := {}
  stage : ServingStage := .down
  host : HostState crypto := {}
  publisher : Publisher
  current : Option ℕ := none
  sessions : ℕ := 0
  cancelled : ℕ → Bool := fun _ => false
  readers : ℕ → Bool := fun _ => false
  shutdown : Bool := false

/-- What happens. Errors come with the text that is printed for them, and a step of the
handshake with the reading of the Unix clock. A reader task ends with its loop, and cancels,
or returns out of it when its replies are no longer taken. `drive_session` is `driven` to
its end, or with an error. -/
inductive ServingEvent (crypto : PinCrypto)
  | booted (process : HostProcess)
  | died
  | signal
  | shutdown
  | acceptFailed
  | accepted (peer : String)
  | slotSet
  | handshake (event : HostEvent crypto) (unix : ℕ) (error : String)
  | timedOut
  | cancelled
  | opened
  | openFailed (error : String)
  | reading
  | readerEnded (id : ℕ) (cancels : Bool)
  | driven (error : Option String)
  | slotCleared
  | reported
  | stopped (removed : Bool)
  | call (call : Published.Call)

namespace Serving

variable {crypto : PinCrypto}

/-- No host has run yet. -/
def start (files : Inodes Published.Name UInt8) : Serving crypto where
  publisher := { memory := {}, history := [{}], files }

variable (demo : Bool) (json : LiveJson) (serving : Serving crypto)

/-- No update of the publisher is under way. -/
def quiet : Bool :=
  match serving.publisher.writer with
  | .idle => true
  | _ => false

/-- `session_cancel.cancelled()` is ready. -/
def tokenCancelled : Bool := serving.shutdown || serving.current.any serving.cancelled

/-- `Publisher::update`, up to its first call. -/
def update (change : LiveState → LiveState) : Serving crypto :=
  { serving with publisher := serving.publisher.change (change serving.publisher.memory) }

/-- `Publisher::new` in a new process. -/
def boot (process : HostProcess) : Serving crypto :=
  { serving with
    process
    stage := .accepting
    host := {}
    readers := fun _ => false
    shutdown := false
    publisher := serving.publisher.change
      { pid := process.pid, port := process.port, inputReady := process.inputReady } }

/-- The process ends at once, and the writer task with it. -/
def die : Serving crypto :=
  { serving with
    stage := .down, current := none, publisher := { serving.publisher with writer := .idle } }

/-- What `spawn_disconnect_signal` does for each signal. -/
def disconnectCurrent : Serving crypto :=
  match serving.current with
  | some id => { serving with cancelled := Function.update serving.cancelled id true }
  | none => serving

/-- `accept`, and the permit for one session is taken. -/
def accept (peer : String) : Serving crypto :=
  { serving with stage := .accepted peer, sessions := serving.sessions + 1 }

/-- The slot is set, and `handle_client` begins. -/
def enter (peer : String) : Serving crypto :=
  { serving with
    stage := .handshaking peer ""
    current := some serving.sessions
    host := serving.host.step ⟨0, .connected⟩ }

/-- `drive_session` spawns the reader task. -/
def read (peer name : String) : Serving crypto :=
  { serving with
    stage := .looping peer name
    readers := Function.update serving.readers serving.sessions true }

/-- The reader task of a connection is running, also when its session is over. -/
def readerRuns (id : ℕ) : Bool := serving.readers id && decide (serving.stage ≠ .down)

/-- A reader task ends, by itself or because it is aborted. -/
def endReader (id : ℕ) (cancels : Bool) : Serving crypto :=
  { serving with
    readers := Function.update serving.readers id false
    cancelled :=
      if cancels then Function.update serving.cancelled id true else serving.cancelled }

/-- The name in a hello. -/
def heard (event : HostEvent crypto) (name : String) : String :=
  match serving.host.phase, event.action with
  | .handshake .readingHello, .received (.ok (.hello _ name)) _ => name
  | _, _ => name

/-- What `authenticate` publishes of the lockout. -/
def lockChange (event : HostEvent crypto) (unix : ℕ) : Option (LiveState → LiveState) :=
  match serving.host.check event with
  | none => none
  | some true => some LiveState.unlocked
  | some false =>
      match (serving.host.lockout.fail event.now).1 with
      | none => none
      | some lock => some fun live => live.locked unix lock

/-- `update` where there is something to change. -/
def updateIf (change : Option (LiveState → LiveState)) : Serving crypto :=
  match change with
  | none => serving
  | some change => serving.update change

/-- What a step of the handshake publishes. -/
def shakeChange (peer name : String) (event : HostEvent crypto) (unix : ℕ) :
    Option (LiveState → LiveState) :=
  match (serving.host.step event).phase with
  | .handshake _ => serving.lockChange event unix
  | .session => some fun live => live.authenticated demo peer (serving.heard event name) unix
  | .listening => none

/-- The handshake from one await to the next. -/
def shake (peer name : String) (event : HostEvent crypto) (unix : ℕ) (error : String) :
    Serving crypto :=
  { serving.updateIf (serving.shakeChange demo peer name event unix) with
    host := serving.host.step event
    stage :=
      match (serving.host.step event).phase with
      | .handshake _ => .handshaking peer (serving.heard event name)
      | .session => .opening peer (serving.heard event name)
      | .listening => .returned (some error) }

/-- `handle_client` returns. -/
def leave (error : Option String) : Serving crypto :=
  { serving with stage := .returned error, host := serving.host.step ⟨0, .dropped⟩ }

/-- What `drive_session` does behind its loop. The loop of the demo ends with the token only,
and the other one also when the capture has ended. -/
def endLoop : Serving crypto := (serving.endReader serving.sessions true).leave none

/-- A step of the loop of `serve`. -/
def stepLoop (event : ServingEvent crypto) : Serving crypto :=
  match event, serving.stage with
  | .booted process, .down => serving.boot process
  | .acceptFailed, .accepting => { serving with stage := .down }
  | .accepted peer, .accepting => serving.accept peer
  | .slotSet, .accepted peer => serving.enter peer
  | .handshake ⟨_, .dropped⟩ _ _, _ => serving
  | .handshake event unix error, .handshaking peer name =>
      serving.shake demo peer name event unix error
  | .timedOut, .handshaking _ _ => serving.leave (some "handshake timed out")
  | .cancelled, .handshaking _ _ => if serving.tokenCancelled then serving.leave none else serving
  | .cancelled, .opening _ _ =>
      if !demo && serving.tokenCancelled then serving.leave none else serving
  | .opened, .opening peer name =>
      { serving.update LiveState.connected with stage := .driving peer name }
  | .openFailed error, .opening _ _ => if demo then serving else serving.leave (some error)
  | .reading, .driving peer name => serving.read peer name
  | .driven (some error), .driving _ _ => serving.leave (some error)
  | .driven (some error), .looping _ _ => serving.leave (some error)
  | .driven none, .looping _ _ =>
      if demo && !serving.tokenCancelled then serving else serving.endLoop
  | .slotCleared, .returned error => { serving with stage := .released error, current := none }
  | .reported, .released error =>
      { serving.update fun live => live.ended error with stage := .accepting }
  | .stopped removed, .accepting =>
      if serving.shutdown then
        { serving with
          stage := .down
          publisher :=
            if removed then serving.publisher.stepCall json.toVecPretty 0 .remove
            else serving.publisher }
      else serving
  | _, _ => serving

/-- A step of the host: its loop, the reader tasks, the signals and the writer task. -/
def step (event : ServingEvent crypto) : Serving crypto :=
  match event with
  | .died => serving.die
  | .signal => serving.disconnectCurrent
  | .shutdown => { serving with shutdown := true }
  | .readerEnded id cancels =>
      if serving.readerRuns id then serving.endReader id cancels else serving
  | .call .remove => serving
  | .call call =>
      { serving with publisher := serving.publisher.stepCall json.toVecPretty 0 call }
  | event => if serving.quiet then serving.stepLoop demo json event else serving

/-! ## What a step does -/

/-- The steps that are taken, each with what it needs. -/
inductive Moves : ServingEvent crypto → Serving crypto → Prop
  | stays (event) : Moves event serving
  | booted (process) (hstage : serving.stage = .down) :
      Moves (.booted process) (serving.boot process)
  | died : Moves .died serving.die
  | signal : Moves .signal serving.disconnectCurrent
  | shutdown : Moves .shutdown { serving with shutdown := true }
  | acceptFailed (hstage : serving.stage = .accepting) :
      Moves .acceptFailed { serving with stage := .down }
  | accepted (peer) (hstage : serving.stage = .accepting) :
      Moves (.accepted peer) (serving.accept peer)
  | slotSet (peer) (hstage : serving.stage = .accepted peer) :
      Moves .slotSet (serving.enter peer)
  | handshake (peer name event unix error) (hquiet : serving.publisher.writer = .idle)
      (hstage : serving.stage = .handshaking peer name) :
      Moves (.handshake event unix error) (serving.shake demo peer name event unix error)
  | timedOut (peer name) (hstage : serving.stage = .handshaking peer name) :
      Moves .timedOut (serving.leave (some "handshake timed out"))
  | cancelled (hstage : serving.stage.inSession) (htoken : serving.tokenCancelled) :
      Moves .cancelled (serving.leave none)
  | opened (peer name) (hquiet : serving.publisher.writer = .idle)
      (hstage : serving.stage = .opening peer name) :
      Moves .opened { serving.update LiveState.connected with stage := .driving peer name }
  | openFailed (peer name error) (hstage : serving.stage = .opening peer name) :
      Moves (.openFailed error) (serving.leave (some error))
  | reading (peer name) (hstage : serving.stage = .driving peer name) :
      Moves .reading (serving.read peer name)
  | readerEnded (id cancels) (hruns : serving.readerRuns id) :
      Moves (.readerEnded id cancels) (serving.endReader id cancels)
  | driveFailed (peer name error)
      (hstage : serving.stage = .driving peer name ∨ serving.stage = .looping peer name) :
      Moves (.driven (some error)) (serving.leave (some error))
  | driven (peer name) (hstage : serving.stage = .looping peer name) :
      Moves (.driven none) serving.endLoop
  | slotCleared (error) (hstage : serving.stage = .returned error) :
      Moves .slotCleared { serving with stage := .released error, current := none }
  | reported (error) (hquiet : serving.publisher.writer = .idle)
      (hstage : serving.stage = .released error) :
      Moves .reported { serving.update fun live => live.ended error with stage := .accepting }
  | stopped (removed) (hstage : serving.stage = .accepting) (hshutdown : serving.shutdown) :
      Moves (.stopped removed)
        { serving with
          stage := .down
          publisher :=
            if removed then serving.publisher.stepCall json.toVecPretty 0 .remove
            else serving.publisher }
  | call (call) (hcall : call ≠ .remove) :
      Moves (.call call)
        { serving with publisher := serving.publisher.stepCall json.toVecPretty 0 call }

/-- When the host is quiet no save is under way. -/
theorem writer_of_quiet (h : serving.quiet = true) : serving.publisher.writer = .idle := by
  unfold quiet at h
  split at h
  next hidle => exact hidle
  next => cases h

/-- Each step of the loop is one of the moves. -/
theorem moves_stepLoop (hquiet : serving.quiet = true) (event : ServingEvent crypto) :
    serving.Moves demo json event (serving.stepLoop demo json event) := by
  have hidle := serving.writer_of_quiet hquiet
  unfold stepLoop
  split
  next process hstage => exact .booted process hstage
  next hstage => exact .acceptFailed hstage
  next peer hstage => exact .accepted peer hstage
  next peer hstage => exact .slotSet peer hstage
  next => exact .stays _
  next event unix error peer name _ hstage =>
    exact .handshake peer name event unix error hidle hstage
  next peer name hstage => exact .timedOut peer name hstage
  next peer name hstage =>
    split
    next htoken => exact .cancelled (by rw [hstage]; rfl) htoken
    next => exact .stays _
  next peer name hstage =>
    split
    next htoken =>
      rw [Bool.and_eq_true] at htoken
      exact .cancelled (by rw [hstage]; rfl) htoken.2
    next => exact .stays _
  next peer name hstage => exact .opened peer name hidle hstage
  next error peer name hstage =>
    split
    next => exact .stays _
    next => exact .openFailed peer name error hstage
  next peer name hstage => exact .reading peer name hstage
  next error peer name hstage => exact .driveFailed peer name error (Or.inl hstage)
  next error peer name hstage => exact .driveFailed peer name error (Or.inr hstage)
  next peer name hstage =>
    split
    next => exact .stays _
    next => exact .driven peer name hstage
  next error hstage => exact .slotCleared error hstage
  next error hstage => exact .reported error hidle hstage
  next removed hstage =>
    split
    next hshutdown => exact .stopped removed hstage hshutdown
    next => exact .stays _
  next => exact .stays _

/-- Each step of the host is one of the moves, or leaves it as it is. -/
theorem moves_step (event : ServingEvent crypto) :
    serving.Moves demo json event (serving.step demo json event) := by
  unfold step
  split
  next => exact .died
  next => exact .signal
  next => exact .shutdown
  next id cancels =>
    split
    next hruns => exact .readerEnded id cancels hruns
    next => exact .stays _
  next => exact .stays _
  next call hcall => exact .call call hcall
  next =>
    split
    next hquiet => exact serving.moves_stepLoop demo json hquiet _
    next => exact .stays _

end Serving

end OmarchyConnect.Host
