/-
# The lock that the status shows

The lockout counts on a monotone clock in nanoseconds, and the published state in Unix
seconds. What a report says of the lock is its end on the second clock, so it is off by the
rounding and by the time between the two readings in `authenticate`.
-/

import OmarchyConnect.Host.PublishedStatus

namespace OmarchyConnect.Host

open OmarchyConnect.Library OmarchyConnect.Library.Wire OmarchyConnect.Library.Runs
open OmarchyConnect.Library.Saturating OmarchyConnect.Protocol

variable {crypto : PinCrypto} {demo : Bool} {json : LiveJson} {epoch slack : ℕ}

/-- The Unix clock runs with the monotone one, `epoch` ahead of it, and is read at most
`slack` later. -/
def ServingEvent.Clocked (epoch slack : ℕ) : ServingEvent crypto → Prop
  | .handshake event unix _ =>
      ∃ later, event.now ≤ later ∧ later ≤ event.now + slack ∧ unix = asSecs (epoch + later)
  | _ => True

/-- The published end of a lock is a reading of the Unix clock at the end of the lock. -/
def ShowsLock (epoch slack : ℕ) (lockedUntil shown : Option ℕ) : Prop :=
  match lockedUntil with
  | none => shown = none
  | some instant => ∃ later, instant ≤ later ∧ later ≤ instant + slack ∧
      shown = some (asSecs (epoch + later))

/-- Whole seconds add to a Unix time. -/
theorem asSecs_fromSecs_add (duration seconds : ℕ) :
    asSecs (duration + fromSecs seconds) = asSecs duration + seconds := by
  simp only [asSecs, fromSecs]
  omega

/-- A lock that begins is published as it is. -/
theorem ShowsLock.fail {lockout : Lockout} {live : LiveState}
    (h : ShowsLock epoch slack lockout.lockedUntil live.lockedUntil) {now later : ℕ}
    (hnow : now ≤ later) (hlater : later ≤ now + slack) :
    ShowsLock epoch slack (lockout.fail now).2.lockedUntil
      (match (lockout.fail now).1 with
      | none => live
      | some lock => live.locked (asSecs (epoch + later)) lock).lockedUntil := by
  unfold Lockout.fail
  dsimp only
  split_ifs with hfree
  · exact h
  · have hfive : 5 ≤ (saturatingSucc lockout.failures).toNat :=
      UInt32.le_iff_toNat_le.mp (UInt32.not_lt.mp hfree)
    dsimp only [LiveState.locked]
    rw [Lockout.lockFor_eq hfive]
    generalize min (30 * 2 ^ ((saturatingSucc lockout.failures).toNat - 5)) 900 = seconds
    refine ⟨later + fromSecs seconds, by omega, by omega, ?_⟩
    have hseconds : asSecs (fromSecs seconds) = seconds := by
      have hsum := asSecs_fromSecs_add 0 seconds
      rwa [Nat.zero_add, show asSecs 0 = 0 from rfl, Nat.zero_add] at hsum
    rw [← Nat.add_assoc, asSecs_fromSecs_add, hseconds]

namespace Serving

variable {serving : Serving crypto}

/-- The state in memory shows the lockout of the loop. -/
def LockShown (epoch slack : ℕ) (serving : Serving crypto) : Prop :=
  ShowsLock epoch slack serving.host.lockout.lockedUntil serving.publisher.memory.lockedUntil

/-- What leaves the lockout and the published lock alone keeps them together. -/
theorem LockShown.same (h : serving.LockShown epoch slack) {after : Serving crypto}
    (hhost : after.host.lockout = serving.host.lockout)
    (hmemory : after.publisher.memory.lockedUntil = serving.publisher.memory.lockedUntil) :
    after.LockShown epoch slack := by
  rw [LockShown, hhost, hmemory]
  exact h

/-- Only a check of a confirmation changes the lockout. -/
theorem lockout_step_of_check {state : HostState crypto} {event : HostEvent crypto}
    (h : state.check event = none) : (state.step event).lockout = state.lockout := by
  have hlockout := (HostState.step_cases state event).1
  rwa [h] at hlockout

/-- After a check the handshake goes on, whatever the outcome. -/
theorem phase_onConfirm (lockout : Lockout) (now : ℕ) (keys : Except AuthFailure PinKeys)
    (mac : Digest) (pin : Option String) (binding : Bytes) :
    ∃ handshake, (HostAuth.onConfirm lockout now keys mac : HostAuth crypto × Lockout).1.phase pin
      binding = .handshake handshake := by
  cases keys with
  | error failure => exact ⟨_, rfl⟩
  | ok keys =>
      unfold HostAuth.onConfirm
      dsimp only
      cases keys.verifyPeer crypto mac with
      | error failure => exact ⟨_, rfl⟩
      | ok verified => exact ⟨_, rfl⟩

/-- After a check the handshake goes on. -/
theorem phase_step_of_check {state : HostState crypto} {event : HostEvent crypto}
    (h : state.check event ≠ none) :
    ∃ handshake, (state.step event).phase = .handshake handshake := by
  unfold HostState.check at h
  split at h
  next mac coins pin binding keys haction hphase =>
    obtain ⟨lockout, phase⟩ := state
    obtain ⟨now, action⟩ := event
    obtain rfl : action = .received (.ok (.authConfirm mac)) coins := haction
    obtain rfl : phase = .handshake (.authenticating pin binding (.readingConfirm keys)) := hphase
    exact phase_onConfirm lockout now keys mac pin binding
  next => exact absurd rfl h

/-- A step of a handshake keeps the published lock with the lockout. -/
theorem LockShown.shake (h : serving.LockShown epoch slack) (demo : Bool) (peer name : String)
    {event : HostEvent crypto} {unix : ℕ} {error : String}
    (hclock : (ServingEvent.handshake event unix error).Clocked epoch slack) :
    (serving.shake demo peer name event unix error).LockShown epoch slack := by
  have hlockout := (HostState.step_cases serving.host event).1
  have hunless : serving.host.check event ≠ none →
      serving.shakeChange demo peer name event unix = serving.lockChange event unix := by
    intro hcheck
    obtain ⟨handshake, hphase⟩ := phase_step_of_check hcheck
    rw [shakeChange, hphase]
  cases hcheck : serving.host.check event with
  | none =>
      rw [hcheck] at hlockout
      refine h.same hlockout ?_
      unfold Serving.shake shakeChange lockChange
      rw [hcheck]
      dsimp only
      cases (serving.host.step event).phase <;> rfl
  | some correct =>
      have hchange := hunless (by simp [hcheck])
      rw [hcheck] at hlockout
      rw [lockChange, hcheck] at hchange
      unfold LockShown Serving.shake
      dsimp only
      rw [hchange, hlockout]
      cases correct with
      | true => exact rfl
      | false =>
          obtain ⟨later, hnow, hlater, rfl⟩ := hclock
          have hfail := ShowsLock.fail h hnow hlater
          dsimp only
          cases hlock : (serving.host.lockout.fail event.now).1 with
          | none =>
              rw [hlock] at hfail
              exact hfail
          | some lock =>
              rw [hlock] at hfail
              exact hfail

/-- A connection that begins or ends leaves the lockout alone. -/
theorem lockout_step_connected (state : HostState crypto) (now : ℕ) :
    (state.step ⟨now, .connected⟩).lockout = state.lockout :=
  lockout_step_of_check rfl

/-- A client that is gone changes no lockout. -/
theorem lockout_step_dropped (state : HostState crypto) (now : ℕ) :
    (state.step ⟨now, .dropped⟩).lockout = state.lockout :=
  lockout_step_of_check rfl

/-- Each move of the host keeps the published lock with the lockout. -/
theorem Moves.lockShown {event : ServingEvent crypto} {after : Serving crypto}
    (hmoves : serving.Moves demo json event after) (hclock : event.Clocked epoch slack)
    (h : serving.LockShown epoch slack) : after.LockShown epoch slack := by
  cases hmoves with
  | stays => exact h
  | booted process => exact rfl
  | died => exact h
  | signal =>
      unfold disconnectCurrent
      split
      · exact h
      · exact h
  | shutdown => exact h
  | acceptFailed => exact h
  | accepted => exact h
  | slotSet => exact h.same (lockout_step_connected _ _) rfl
  | handshake peer name event unix error => exact h.shake demo peer name hclock
  | timedOut => exact h.same (lockout_step_dropped _ _) rfl
  | cancelled => exact h.same (lockout_step_dropped _ _) rfl
  | opened => exact h
  | openFailed => exact h.same (lockout_step_dropped _ _) rfl
  | reading => exact h
  | readerEnded => exact h
  | driveFailed => exact h.same (lockout_step_dropped _ _) rfl
  | driven => exact h.same (lockout_step_dropped _ _) rfl
  | slotCleared => exact h
  | reported => exact h
  | stopped removed =>
      refine h.same rfl ?_
      cases removed with
      | true => exact congrArg LiveState.lockedUntil (Published.memory_stepCall _ _ _ _).1
      | false => rfl
  | call call =>
      exact h.same rfl (congrArg LiveState.lockedUntil (Published.memory_stepCall _ _ _ _).1)

/-- At first there is no lock. -/
theorem lockShown_start (epoch slack : ℕ) (files : Inodes Published.Name UInt8) :
    (start files : Serving crypto).LockShown epoch slack := rfl

/-- In every run the published lock is that of the lockout. -/
theorem lockShown_run (demo : Bool) (json : LiveJson) (files : Inodes Published.Name UInt8)
    {events : List (ServingEvent crypto)} (hclock : ∀ event ∈ events, event.Clocked epoch slack) :
    (run (step demo json) (start files) events).LockShown epoch slack :=
  invariant_of_mem (step demo json) (LockShown epoch slack) (ServingEvent.Clocked epoch slack)
    (fun serving event h hevent => (serving.moves_step demo json event).lockShown hevent h)
    (lockShown_start epoch slack files) hclock

end Serving

/-- The seconds up to a reading of the clock that is close to the end of a lock. -/
theorem ShowsLock.close {lockout : Lockout} {shown : Option ℕ}
    (h : ShowsLock epoch slack lockout.lockedUntil shown) (now : ℕ) :
    (lockout.remaining now).getD 0 <
        fromSecs (((shown.map fun until_ => until_ - asSecs (epoch + now)).getD 0) + 1) ∧
      fromSecs ((shown.map fun until_ => until_ - asSecs (epoch + now)).getD 0) <
        (lockout.remaining now).getD 0 + slack + fromSecs 1 := by
  cases hlock : lockout.lockedUntil with
  | none =>
      rw [hlock] at h
      obtain rfl : shown = none := h
      have hnone : lockout.remaining now = none := by
        rw [Lockout.remaining_eq_none_iff, hlock]
        simp
      rw [hnone]
      simp [fromSecs]
  | some instant =>
      rw [hlock] at h
      obtain ⟨later, hinstant, hlater, rfl⟩ := h
      have hleft : (lockout.remaining now).getD 0 = instant - now := by
        rw [Lockout.remaining, hlock]
        by_cases hle : now ≤ instant
        · by_cases hzero : instant - now = 0
          · simp [hle, hzero, Option.filter_some]
          · simp [hle, hzero, Option.filter_some]
        · simp [hle]
          omega
      rw [hleft, Option.map_some, Option.getD_some]
      simp only [fromSecs, asSecs]
      omega

namespace Serving

/-- A report at rest shows the time left of the lock that is in force: less than a second
too little, and too much by less than a second and the time that the publishing took. -/
theorem report_shows_lock (settingsJson : SettingsJson) {files : Inodes Published.Name UInt8}
    {first second : List (ServingEvent crypto)} {serving : Serving crypto}
    {surroundings : Surroundings}
    (h : ReadAtRest demo json files first second serving surroundings)
    (hclock : ∀ event ∈ first ++ second, event.Clocked epoch slack) {now : ℕ}
    (hnow : surroundings.now = asSecs (epoch + now)) :
    let left := (serving.host.lockout.remaining now).getD 0
    let shown := (report settingsJson json surroundings).lockedSecs
    left < fromSecs (shown + 1) ∧ fromSecs shown < left + slack + fromSecs 1 := by
  have hshown : serving.LockShown epoch slack := h.reached ▸ lockShown_run demo json files hclock
  intro left shown
  have hreport : shown = ((serving.publisher.memory.lockedUntil.map fun until_ =>
      until_ - asSecs (epoch + now)).getD 0) := by
    simp only [shown, report, h.live, hnow, Option.bind_some]
  rw [hreport]
  exact hshown.close now

/-- A connection with a wrong PIN, up to its end. The Unix clock runs 1700000000 seconds
ahead of the monotone one. -/
def wrongPin (now : ℕ) : List (ServingEvent emptyElementCrypto) :=
  [.accepted "192.0.2.7", .slotSet] ++
    (approach now ++ [guess now, ⟨now, .slept⟩, ⟨now, .written true none none⟩]).map
      (fun event => .handshake event (asSecs (fromSecs 1700000000 + event.now)) "wrong PIN") ++
    [.slotCleared]

/-- Five wrong PINs, a second apart. -/
def guesses : List (ServingEvent emptyElementCrypto) :=
  .booted { pid := 1, port := 47921 } ::
    ((List.range 4).flatMap fun i => wrongPin (fromSecs i) ++ [.reported]) ++
      wrongPin (fromSecs 4)

/-- The last connection has ended, and the update is to be written. -/
def afterGuesses : Serving emptyElementCrypto :=
  (run (settledStep true plainLiveJson) (start Inodes.empty) guesses).step true plainLiveJson
    .reported

/-- The host that has been guessed at, when all updates are written out. -/
def lockedHost : Serving emptyElementCrypto :=
  run (step true plainLiveJson) (start Inodes.empty)
    (writtenOut true plainLiveJson (start Inodes.empty) guesses ++ [.reported] ++
      afterGuesses.publishing plainLiveJson)

/-- After the guesses the host waits for a client, and is locked. -/
theorem afterGuesses_spec :
    afterGuesses.stage = .accepting ∧ afterGuesses.quiet = false ∧
      afterGuesses.process = { pid := 1, port := 47921 } ∧
        afterGuesses.host.lockout.lockedUntil = some (fromSecs 34) := by
  decide +kernel

/-- The state file of that host has been read at rest. -/
theorem lockedHost_atRest :
    ReadAtRest true plainLiveJson Inodes.empty
      (writtenOut true plainLiveJson (start Inodes.empty) guesses ++ [.reported])
      (afterGuesses.publishing plainLiveJson) lockedHost (besideHost lockedHost 1700000014) ∧
    lockedHost.host.lockout.lockedUntil = some (fromSecs 34) := by
  obtain ⟨hstage, hbusy, hprocess, hlocked⟩ := afterGuesses_spec
  have hplain : ∀ event ∈ .reported :: guesses, event.plain = true := by decide +kernel
  have hafter : (run (settledStep true plainLiveJson) (start Inodes.empty) guesses).step true
      plainLiveJson .reported = afterGuesses := by
    rw [afterGuesses]
  have hreached : lockedHost = run (step true plainLiveJson) (start Inodes.empty)
      (writtenOut true plainLiveJson (start Inodes.empty) guesses ++ [.reported] ++
        afterGuesses.publishing plainLiveJson) := by
    rw [lockedHost]
  obtain ⟨hrest, -, -, hhost⟩ := readAtRest_writtenOut hplain hafter hbusy
    (by rw [hstage]; decide) hreached (besideHost_state lockedHost 1700000014)
    (by rw [hprocess]; decide)
  exact ⟨hrest, (congrArg (fun host => host.lockout.lockedUntil) hhost).trans hlocked⟩

/-- The clocks agree during a wrong guess. -/
theorem clocked_wrongPin (now : ℕ) :
    ∀ event ∈ wrongPin now, event.Clocked (fromSecs 1700000000) 0 := by
  intro event hevent
  rcases List.mem_append.mp hevent with hfront | hend
  · rcases List.mem_append.mp hfront with hopen | hshake
    · simp only [List.mem_cons, List.not_mem_nil, or_false] at hopen
      rcases hopen with rfl | rfl <;> trivial
    · obtain ⟨shake, -, rfl⟩ := List.mem_map.mp hshake
      exact ⟨shake.now, le_rfl, le_rfl, rfl⟩
  · rw [List.mem_singleton.mp hend]
    trivial

/-- And so they do during all of them. -/
theorem clocked_guesses :
    ∀ event ∈ guesses, event.Clocked (fromSecs 1700000000) 0 := by
  intro event hevent
  rcases List.mem_append.mp hevent with hfront | hlast
  · rcases List.mem_cons.mp hfront with rfl | hearlier
    · trivial
    · obtain ⟨i, -, hi⟩ := List.mem_flatMap.mp hearlier
      rcases List.mem_append.mp hi with hguess | hend
      · exact clocked_wrongPin _ event hguess
      · rw [List.mem_singleton.mp hend]
        trivial
  · exact clocked_wrongPin _ event hlast

/-- Ten seconds after five wrong PINs the report shows the twenty seconds that are left. -/
theorem report_shows_lock_of_guesses :
    let left := (lockedHost.host.lockout.remaining (fromSecs 14)).getD 0
    let shown := (report plainJson plainLiveJson (besideHost lockedHost 1700000014)).lockedSecs
    left = fromSecs 20 ∧ left < fromSecs (shown + 1) ∧
      fromSecs shown < left + 0 + fromSecs 1 := by
  obtain ⟨hrest, hlocked⟩ := lockedHost_atRest
  have hclock : ∀ event ∈ writtenOut true plainLiveJson (start Inodes.empty) guesses ++
      [.reported] ++ afterGuesses.publishing plainLiveJson,
        event.Clocked (fromSecs 1700000000) 0 := by
    intro event hevent
    rcases List.mem_append.mp hevent with hfront | hcall
    · rcases List.mem_append.mp hfront with hwritten | hlast
      · rcases mem_writtenOut hwritten with hguess | ⟨call, rfl⟩
        · exact clocked_guesses event hguess
        · trivial
      · rw [List.mem_singleton.mp hlast]
        trivial
    · obtain ⟨call, rfl, -⟩ := mem_publishing hcall
      trivial
  have hleft : (lockedHost.host.lockout.remaining (fromSecs 14)).getD 0 = fromSecs 20 := by
    rw [Lockout.remaining, hlocked]
    rfl
  exact ⟨hleft, report_shows_lock plainJson hrest hclock rfl⟩

end Serving

end OmarchyConnect.Host
