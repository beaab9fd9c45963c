/-
# PIN guessing is throttled

Only a confirmation that arrives in `authenticate` is checked against the PIN, and
the lock is looked at before, in the same connection. `lockout_step` says what a step
does to the lockout; the promises follow along every run of the accept loop, however
its connections end.
-/

import OmarchyConnect.Host.Authenticate
import OmarchyConnect.Library.Runs

namespace OmarchyConnect.Host

open OmarchyConnect.Library.Wire OmarchyConnect.Library.Runs OmarchyConnect.Library.Saturating
open OmarchyConnect.Protocol

variable {crypto : PinCrypto}

/-- Whether a confirmation is the one that the PIN gives. -/
def correct (crypto : PinCrypto) (keys : Except AuthFailure PinKeys) (mac : Digest) : Bool :=
  match keys with
  | .ok keys => decide (keys.mac crypto keys.side.peer = mac)
  | .error _ => false

/-- The check that a step makes of a client's confirmation, with its outcome. -/
def HostState.check (state : HostState crypto) (event : HostEvent crypto) : Option Bool :=
  match event.action, state.phase with
  | .received (.ok (.authConfirm mac)) _, .handshake (.authenticating _ _ (.readingConfirm keys)) =>
      some (correct crypto keys mac)
  | _, _ => none

/-- The part of `authenticate` behind the look at the lock. -/
def HostAuth.PastLock : HostAuth crypto → Prop
  | .writingAuth _ _ _ => True
  | .readingConfirm _ => True
  | _ => False

/-- A connection that is past the look at the lock. -/
def Phase.PastLock : Phase crypto → Prop
  | .handshake (.authenticating _ _ auth) => auth.PastLock
  | _ => False

/-- A check clears the lockout or counts a failure. -/
theorem lockout_onConfirm (lockout : Lockout) (now : ℕ) (keys : Except AuthFailure PinKeys)
    (mac : Digest) :
    (HostAuth.onConfirm lockout now keys mac : HostAuth crypto × Lockout).2 =
      if correct crypto keys mac then lockout.succeed else (lockout.fail now).2 := by
  cases keys with
  | error err => rfl
  | ok keys =>
      simp only [HostAuth.onConfirm, PinKeys.verifyPeer, correct]
      by_cases hmac : keys.mac crypto keys.side.peer = mac
      · simp [hmac]
      · simp [hmac]

/-- After a check the handshake goes on behind no lock. -/
theorem not_pastLock_onConfirm (lockout : Lockout) (now : ℕ) (keys : Except AuthFailure PinKeys)
    (mac : Digest) :
    ¬ (HostAuth.onConfirm lockout now keys mac : HostAuth crypto × Lockout).1.PastLock := by
  intro hpast
  cases keys with
  | error err => exact hpast
  | ok keys =>
      simp only [HostAuth.onConfirm, PinKeys.verifyPeer] at hpast
      by_cases hmac : keys.mac crypto keys.side.peer = mac
      · simp [hmac, HostAuth.PastLock] at hpast
      · simp [hmac, HostAuth.PastLock] at hpast

/-- A step of `authenticate` checks a confirmation, or it leaves the lockout alone and
gets behind the look at the lock only without one. -/
theorem HostAuth.step_cases (pin : Option String) (binding : Bytes) (lockout : Lockout) (now : ℕ)
    (auth : HostAuth crypto) (event : AuthEvent crypto) :
    (∃ keys mac coins, auth = .readingConfirm keys ∧
      event = .received (.ok (.authConfirm mac)) coins ∧
      auth.step pin binding lockout now event = HostAuth.onConfirm lockout now keys mac) ∨
    ((∀ keys mac coins, auth = .readingConfirm keys →
        event ≠ .received (.ok (.authConfirm mac)) coins) ∧
      (auth.step pin binding lockout now event).2 = lockout ∧
      ((auth.step pin binding lockout now event).1.PastLock →
        auth.PastLock ∨ lockout.remaining now = none)) := by
  cases auth with
  | readingAuth =>
      cases event with
      | received incoming coins =>
          cases incoming with
          | error err => exact Or.inr ⟨by simp, rfl, False.elim⟩
          | ok msg =>
              cases msg with
              | auth clientMsg =>
                  refine Or.inr ⟨by simp, rfl, fun hpast => Or.inr ?_⟩
                  cases hleft : lockout.remaining now with
                  | none => rfl
                  | some left =>
                      simp [HostAuth.step, HostAuth.onAuth, hleft, HostAuth.PastLock] at hpast
              | _ => exact Or.inr ⟨by simp, rfl, False.elim⟩
      | _ => exact Or.inr ⟨by simp, rfl, Or.inl⟩
  | readingConfirm keys =>
      cases event with
      | received incoming coins =>
          cases incoming with
          | error err => exact Or.inr ⟨by simp, rfl, False.elim⟩
          | ok msg =>
              cases msg with
              | authConfirm mac => exact Or.inl ⟨keys, mac, coins, rfl, rfl, rfl⟩
              | _ => exact Or.inr ⟨by simp, rfl, False.elim⟩
      | _ => exact Or.inr ⟨by simp, rfl, Or.inl⟩
  | writingAuth exchange clientMsg msg =>
      refine Or.inr ⟨by simp, ?_, fun _ => Or.inl trivial⟩
      cases event with
      | written ok => cases ok <;> rfl
      | _ => rfl
  | denying msg err => cases event <;> exact Or.inr ⟨by simp, rfl, False.elim⟩
  | delaying retry => cases event <;> exact Or.inr ⟨by simp, rfl, False.elim⟩
  | writingConfirm msg =>
      cases event with
      | written ok => cases ok <;> exact Or.inr ⟨by simp, rfl, False.elim⟩
      | _ => exact Or.inr ⟨by simp, rfl, False.elim⟩
  | finished result => exact Or.inr ⟨by simp, rfl, False.elim⟩

/-- A phase is past the lock as its handshake is. -/
theorem pastLock_phase_iff (pin : Option String) (binding : Bytes) (auth : HostAuth crypto) :
    (auth.phase pin binding).PastLock ↔ auth.PastLock := by
  unfold HostAuth.phase
  split <;> rfl

/-- A confirmation is only checked where one is awaited. -/
theorem HostState.check_eq_none {state : HostState crypto} {event : HostEvent crypto}
    (h : ∀ pin binding keys mac coins,
      state.phase = .handshake (.authenticating pin binding (.readingConfirm keys)) →
        event.action ≠ .received (.ok (.authConfirm mac)) coins) : state.check event = none := by
  unfold check
  split
  next haction hphase => exact absurd haction (h _ _ _ _ _ hphase)
  next => rfl

/-- Before `authenticate` the lockout is not touched and no lock is passed. -/
theorem HostState.step_of_not_authenticating (lockout : Lockout) (now : ℕ)
    (action : HostAction crypto) {handshake : Handshake crypto}
    (h : ∀ pin binding auth, handshake ≠ .authenticating pin binding auth) :
    (HostState.step ⟨lockout, .handshake handshake⟩ ⟨now, action⟩).lockout = lockout ∧
      ¬ (HostState.step ⟨lockout, .handshake handshake⟩ ⟨now, action⟩).phase.PastLock := by
  have hstep : action ≠ .dropped →
      HostState.step ⟨lockout, .handshake handshake⟩ ⟨now, action⟩ =
        ⟨lockout, handshake.step action⟩ := by
    intro hdropped
    cases handshake with
    | authenticating pin binding auth => exact absurd rfl (h pin binding auth)
    | _ => cases action <;> simp_all [HostState.step]
  by_cases hdropped : action = .dropped
  · subst hdropped
    exact ⟨rfl, id⟩
  · rw [hstep hdropped]
    refine ⟨rfl, ?_⟩
    simp only
    unfold Handshake.step
    split
    case h_3 => split <;> exact id
    case h_8 =>
      cases handshake with
      | authenticating pin binding auth => exact absurd rfl (h pin binding auth)
      | _ => exact id
    all_goals exact id

/-- What `authenticate` gets goes to its machine. -/
theorem HostState.step_authenticating (lockout : Lockout) (now : ℕ) {action : HostAction crypto}
    (pin : Option String) (binding : Bytes) (auth : HostAuth crypto) {authEvent : AuthEvent crypto}
    (hevent : action.auth = some authEvent) :
    HostState.step ⟨lockout, .handshake (.authenticating pin binding auth)⟩ ⟨now, action⟩ =
      ⟨(auth.step pin binding lockout now authEvent).2,
        (auth.step pin binding lockout now authEvent).1.phase pin binding⟩ := by
  cases action <;> simp_all [HostState.step, HostAction.auth]

/-- A step of `authenticate` changes the lockout by the check of a confirmation only. -/
theorem HostState.authenticating_cases (lockout : Lockout) (now : ℕ)
    {action : HostAction crypto} (pin : Option String) (binding : Bytes) (auth : HostAuth crypto)
    {authEvent : AuthEvent crypto} (hevent : action.auth = some authEvent) :
    ((auth.step pin binding lockout now authEvent).2 =
      match HostState.check ⟨lockout, .handshake (.authenticating pin binding auth)⟩
          ⟨now, action⟩ with
      | none => lockout
      | some true => lockout.succeed
      | some false => (lockout.fail now).2) ∧
    ((auth.step pin binding lockout now authEvent).1.PastLock →
      HostState.check ⟨lockout, .handshake (.authenticating pin binding auth)⟩ ⟨now, action⟩ =
          none ∧
        (auth.PastLock ∨ lockout.remaining now = none)) := by
  rcases HostAuth.step_cases pin binding lockout now auth authEvent with
    ⟨keys, mac, coins, rfl, rfl, hconfirm⟩ | ⟨hnone, hsame, hpast⟩
  · obtain rfl : action = .received (.ok (.authConfirm mac)) coins := by
      cases action <;> simp_all [HostAction.auth]
    rw [hconfirm, lockout_onConfirm]
    refine ⟨?_, fun hlater => absurd hlater (not_pastLock_onConfirm _ _ _ _)⟩
    simp only [HostState.check]
    cases correct crypto keys mac <;> rfl
  · rw [check_eq_none]
    · exact ⟨hsame, fun hlater => ⟨rfl, hpast hlater⟩⟩
    · rintro _ _ keys mac coins hphase rfl
      cases hphase
      cases hevent
      exact hnone keys mac coins rfl rfl

/-- A step changes the lockout just by the check that it makes, and it gets behind the
look at the lock only while no lock is in force. -/
theorem HostState.step_cases (state : HostState crypto) (event : HostEvent crypto) :
    ((state.step event).lockout =
      match state.check event with
      | none => state.lockout
      | some true => state.lockout.succeed
      | some false => (state.lockout.fail event.now).2) ∧
    ((state.step event).phase.PastLock →
      state.check event = none ∧
        (state.phase.PastLock ∨ state.lockout.remaining event.now = none)) := by
  obtain ⟨lockout, phase⟩ := state
  obtain ⟨now, action⟩ := event
  cases phase with
  | listening =>
      rw [check_eq_none (by simp)]
      cases action <;> exact ⟨rfl, False.elim⟩
  | session =>
      rw [check_eq_none (by simp)]
      cases action <;> exact ⟨rfl, False.elim⟩
  | handshake handshake =>
      by_cases hauth : ∃ pin binding auth, handshake = .authenticating pin binding auth
      · obtain ⟨pin, binding, auth, rfl⟩ := hauth
        cases hevent : action.auth with
        | none =>
            rw [check_eq_none (by rintro _ _ _ _ _ - rfl; cases hevent)]
            cases action with
            | dropped => exact ⟨rfl, False.elim⟩
            | connected => exact ⟨rfl, fun hpast => ⟨rfl, Or.inl hpast⟩⟩
            | tlsAccepted ok => exact ⟨rfl, fun hpast => ⟨rfl, Or.inl hpast⟩⟩
            | _ => cases hevent
        | some authEvent =>
            rw [HostState.step_authenticating lockout now pin binding auth hevent]
            simp only [pastLock_phase_iff]
            exact HostState.authenticating_cases lockout now pin binding auth hevent
      · have hother : ∀ pin binding auth, handshake ≠ .authenticating pin binding auth :=
          fun pin binding auth hsame => hauth ⟨pin, binding, auth, hsame⟩
        obtain ⟨hsame, hpast⟩ := step_of_not_authenticating lockout now action hother
        rw [check_eq_none]
        · exact ⟨hsame, fun hlater => absurd hlater hpast⟩
        · intro pin binding keys mac coins hphase
          exact absurd (Phase.handshake.inj hphase) (hother pin binding (.readingConfirm keys))

/-! ## Whole runs -/

/-- The host with the number of wrong confirmations since the last correct one. -/
structure Watched (crypto : PinCrypto) where
  state : HostState crypto := {}
  streak : ℕ := 0

/-- A step of the host counts the failures in a row. -/
def Watched.step (watched : Watched crypto) (event : HostEvent crypto) : Watched crypto where
  state := watched.state.step event
  streak :=
    match watched.state.check event with
    | none => watched.streak
    | some true => 0
    | some false => watched.streak + 1

/-- The readings of the clock do not decrease. -/
def ClockRuns (events : List (HostEvent crypto)) : Prop :=
  events.Pairwise fun earlier later => earlier.now ≤ later.now

/-- What holds between two steps, when the clock has last shown `clock`: the stored
count is the streak until it saturates, and whoever got behind the look at the lock
did so after the lock had ended. -/
structure Guarded (clock : ℕ) (watched : Watched crypto) : Prop where
  counted : watched.state.lockout.failures.toNat = min watched.streak (2 ^ 32 - 1)
  passed : watched.state.phase.PastLock →
    ∀ instant ∈ watched.state.lockout.lockedUntil, instant ≤ clock

/-- A check happens behind the look at the lock. -/
theorem HostState.pastLock_of_check {state : HostState crypto} {event : HostEvent crypto}
    (h : state.check event ≠ none) : state.phase.PastLock := by
  unfold check at h
  split at h
  next hphase =>
    rw [hphase]
    trivial
  next => exact absurd rfl h

/-- A step at a later reading of the clock keeps what holds between steps. -/
theorem Guarded.step {clock : ℕ} {watched : Watched crypto} {event : HostEvent crypto}
    (h : Guarded clock watched) (hclock : clock ≤ event.now) :
    Guarded event.now (watched.step event) := by
  obtain ⟨hlockout, hpast⟩ := HostState.step_cases watched.state event
  constructor
  · show (watched.state.step event).lockout.failures.toNat = min (watched.step event).streak _
    rw [hlockout, Watched.step]
    have hcounted := h.counted
    cases hcheck : watched.state.check event with
    | none => exact hcounted
    | some outcome =>
        cases outcome with
        | true => rfl
        | false =>
            simp only
            rw [(Lockout.fail_spec _ _).1, toNat_saturatingSucc, hcounted]
            omega
  · intro hlater
    obtain ⟨hcheck, hbefore⟩ := hpast hlater
    rw [hcheck] at hlockout
    show ∀ instant ∈ (watched.state.step event).lockout.lockedUntil, instant ≤ event.now
    rw [hlockout]
    rcases hbefore with hpassed | hnone
    · intro instant hinstant
      exact (h.passed hpassed instant hinstant).trans hclock
    · exact (Lockout.remaining_eq_none_iff _ _).mp hnone

/-- The last reading of the clock. -/
def lastReading (events : List (HostEvent crypto)) : ℕ :=
  (events.getLast?.map HostEvent.now).getD 0

/-- In every run the host is guarded by its lock. -/
theorem guarded_run (events : List (HostEvent crypto)) (hclock : ClockRuns events) :
    Guarded (lastReading events) (run Watched.step {} events) := by
  induction events using List.reverseRecOn with
  | nil => exact ⟨rfl, False.elim⟩
  | append_singleton events event ih =>
      obtain ⟨hbefore, -, hlater⟩ := List.pairwise_append.mp hclock
      have hle : lastReading events ≤ event.now := by
        rw [lastReading]
        cases hlast : events.getLast? with
        | none => exact Nat.zero_le _
        | some previous =>
            exact hlater previous (List.mem_of_getLast? hlast) event (by simp)
      have hstep := (ih hbefore).step hle
      rw [run_append_singleton]
      simpa [lastReading] using hstep

/-- The promises about guessing, over a run of the accept loop. -/
structure Throttled (events : List (HostEvent crypto)) : Prop where
  /-- A confirmation is checked only when no lock is in force. -/
  unlocked : ∀ front event back, events = front ++ event :: back →
    let before := run Watched.step {} front
    before.state.check event ≠ none → before.state.lockout.remaining event.now = none
  /-- A failed check counts one more in the same step, up to the largest count. -/
  counted : ∀ front event back, events = front ++ event :: back →
    let before := run Watched.step {} front
    before.state.check event = some false →
      (before.state.step event).lockout.failures.toNat =
        min (before.state.lockout.failures.toNat + 1) (2 ^ 32 - 1)
  /-- After the n-th failure in a row, for n of five or more, the next check waits. -/
  delayed : ∀ front failure between next back,
    events = front ++ failure :: (between ++ next :: back) →
    let before := run Watched.step {} front
    let after := before.step failure
    before.state.check failure = some false → 5 ≤ after.streak →
      Along Watched.step (fun watched event => watched.state.check event = none) after between →
        (run Watched.step after between).state.check next ≠ none →
          failure.now + fromSecs (min (30 * 2 ^ (after.streak - 5)) 900) ≤ next.now
  /-- Only a correct confirmation lowers the count or shortens a lock. -/
  kept : ∀ front event back, events = front ++ event :: back →
    let before := run Watched.step {} front
    before.state.check event ≠ some true →
      before.state.lockout.failures.toNat ≤ (before.state.step event).lockout.failures.toNat ∧
        ∀ instant ∈ before.state.lockout.lockedUntil,
          ∃ later ∈ (before.state.step event).lockout.lockedUntil, instant ≤ later

/-- Steps without a check leave the lockout as it is. -/
theorem lockout_run_of_no_check (watched : Watched crypto) (events : List (HostEvent crypto))
    (h : Along Watched.step (fun watched event => watched.state.check event = none) watched
      events) :
    (run Watched.step watched events).state.lockout = watched.state.lockout := by
  induction events generalizing watched with
  | nil => rfl
  | cons event events ih =>
      obtain ⟨hcheck, hlater⟩ := h
      have hlockout := (HostState.step_cases watched.state event).1
      rw [hcheck] at hlockout
      rw [run_cons, ih _ hlater]
      exact hlockout

/-- The lock after a failure depends on the streak, also where the count saturates. -/
theorem lockFor_of_streak {failures : UInt32} {streak : ℕ} (hfive : 5 ≤ streak)
    (h : failures.toNat = min streak (2 ^ 32 - 1)) :
    Lockout.lockFor failures = fromSecs (min (30 * 2 ^ (streak - 5)) 900) := by
  rw [Lockout.lockFor_eq (by omega), h]
  by_cases hsmall : streak ≤ 2 ^ 32 - 1
  · rw [Nat.min_eq_left hsmall]
  · -- Both locks are a quarter of an hour.
    have hlong : ∀ n, 5 ≤ n → min (30 * 2 ^ n) 900 = 900 := by
      intro n hn
      have hpow : 2 ^ 5 ≤ 2 ^ n := Nat.pow_le_pow_right (by decide) hn
      omega
    have hcap : min streak (2 ^ 32 - 1) - 5 = 4294967290 := by omega
    rw [hcap, hlong 4294967290 (by decide), hlong (streak - 5) (by omega)]

/-- Time does no harm to the guard. -/
theorem Guarded.later {clock now : ℕ} {watched : Watched crypto} (h : Guarded clock watched)
    (hle : clock ≤ now) : Guarded now watched where
  counted := h.counted
  passed := fun hpassed instant hinstant => (h.passed hpassed instant hinstant).trans hle

/-- What a run has reached before an event is guarded when the event happens. -/
theorem guarded_front {front back : List (HostEvent crypto)} {event : HostEvent crypto}
    (hclock : ClockRuns (front ++ event :: back)) :
    Guarded event.now (run Watched.step {} front) := by
  obtain ⟨hfront, -, hlater⟩ := List.pairwise_append.mp hclock
  have hle : lastReading front ≤ event.now := by
    rw [lastReading]
    cases hlast : front.getLast? with
    | none => exact Nat.zero_le _
    | some previous => exact hlater previous (List.mem_of_getLast? hlast) event (by simp)
  exact (guarded_run front hfront).later hle

/-- No lock is in force at a check. -/
theorem Guarded.remaining_of_check {watched : Watched crypto} {event : HostEvent crypto}
    (h : Guarded event.now watched) (hcheck : watched.state.check event ≠ none) :
    watched.state.lockout.remaining event.now = none :=
  (Lockout.remaining_eq_none_iff _ _).mpr (h.passed (HostState.pastLock_of_check hcheck))

/-- From the fifth failure in a row on, a failure locks from its own time on. -/
theorem Guarded.lockedUntil_of_failure {watched : Watched crypto} {event : HostEvent crypto}
    (h : Guarded event.now watched) (hfail : watched.state.check event = some false)
    (hfive : 5 ≤ (watched.step event).streak) :
    (watched.step event).state.lockout.lockedUntil =
      some (event.now + fromSecs (min (30 * 2 ^ ((watched.step event).streak - 5)) 900)) := by
  have hcount := (h.step le_rfl).counted
  have hlockout : (watched.step event).state.lockout =
      (watched.state.lockout.fail event.now).2 := by
    have hcases := (HostState.step_cases watched.state event).1
    rw [hfail] at hcases
    exact hcases
  have hmany : ¬ (watched.step event).state.lockout.failures < freeFailures := by
    rw [UInt32.lt_iff_toNat_lt, hcount]
    have hlimit : freeFailures.toNat = 5 := rfl
    omega
  rw [← lockFor_of_streak hfive hcount]
  rw [hlockout, (Lockout.fail_spec _ _).1] at hmany
  rw [hlockout, (Lockout.fail_spec _ _).1, (Lockout.fail_spec _ _).2, if_neg hmany]

/-- A step without a correct confirmation keeps the count and the lock. -/
theorem Guarded.kept {watched : Watched crypto} {event : HostEvent crypto}
    (h : Guarded event.now watched) (hcheck : watched.state.check event ≠ some true) :
    watched.state.lockout.failures.toNat ≤ (watched.state.step event).lockout.failures.toNat ∧
      ∀ instant ∈ watched.state.lockout.lockedUntil,
        ∃ later ∈ (watched.state.step event).lockout.lockedUntil, instant ≤ later := by
  have hlockout := (HostState.step_cases watched.state event).1
  cases houtcome : watched.state.check event with
  | none =>
      rw [houtcome] at hlockout
      rw [hlockout]
      exact ⟨le_rfl, fun instant hinstant => ⟨instant, hinstant, le_rfl⟩⟩
  | some outcome =>
      cases outcome with
      | true => exact absurd houtcome hcheck
      | false =>
          have hnone := h.remaining_of_check (by rw [houtcome]; simp)
          rw [Lockout.remaining_eq_none_iff] at hnone
          rw [houtcome] at hlockout
          rw [hlockout]
          simp only
          rw [(Lockout.fail_spec _ _).1, (Lockout.fail_spec _ _).2, toNat_saturatingSucc]
          have hbound := watched.state.lockout.failures.toNat_lt
          refine ⟨by omega, fun instant hinstant => ?_⟩
          split_ifs with hfree
          · exact ⟨instant, hinstant, le_rfl⟩
          · exact ⟨_, rfl, (hnone instant hinstant).trans (Nat.le_add_right _ _)⟩

/-- Whatever clients send and wherever their connections end, guessing is throttled. -/
theorem throttled (events : List (HostEvent crypto)) (hclock : ClockRuns events) :
    Throttled events := by
  constructor
  case unlocked =>
    rintro front event back rfl before hcheck
    exact (guarded_front hclock).remaining_of_check hcheck
  case counted =>
    intro front event back hsplit before hcheck
    rw [(HostState.step_cases before.state event).1, hcheck]
    simp only
    rw [(Lockout.fail_spec _ _).1, toNat_saturatingSucc]
  case delayed =>
    rintro front failure between next back rfl before after hfail hfive hquiet hcheck
    have hlocked := (guarded_front hclock).lockedUntil_of_failure hfail hfive
    have hrun : run Watched.step {} (front ++ failure :: between) =
        run Watched.step after between := by
      rw [run_append, run_cons]
    rw [← List.cons_append, ← List.append_assoc] at hclock
    have hnone := (guarded_front hclock).remaining_of_check (by rw [hrun]; exact hcheck)
    rw [hrun, Lockout.remaining_eq_none_iff, lockout_run_of_no_check _ _ hquiet, hlocked] at hnone
    exact hnone _ rfl
  case kept =>
    rintro front event back rfl before hcheck
    exact (guarded_front hclock).kept hcheck

/-! ## A client that sends an empty element -/

/-- SPAKE2 as far as a client that sends an empty element sees it: the exchange cannot
be finished, and no HMAC is computed. -/
def emptyElementCrypto : PinCrypto where
  State := Unit
  Coins := Unit
  startA := fun _ _ _ _ => ((), 0x41 :: List.replicate 32 0)
  startB := fun _ _ _ _ => ((), 0x42 :: List.replicate 32 0)
  finish := fun _ _ => none
  hmac := fun _ _ => Vector.replicate 32 0

/-- A connection up to where its confirmation is awaited. -/
def approach (now : ℕ) : List (HostEvent emptyElementCrypto) :=
  [⟨now, .connected⟩, ⟨now, .tlsAccepted true⟩,
    ⟨now, .received (.ok (.hello protocolVersion "guest")) ()⟩,
    ⟨now, .written true (some (List.replicate 32 0)) (some "482913")⟩,
    ⟨now, .received (.ok (.auth [])) ()⟩, ⟨now, .written true none none⟩]

/-- The confirmation, which fails whatever it is. -/
def guess (now : ℕ) : HostEvent emptyElementCrypto :=
  ⟨now, .received (.ok (.authConfirm (Vector.replicate 32 0))) ()⟩

/-- An attempt that fails, and its end. -/
def attempt (now : ℕ) : List (HostEvent emptyElementCrypto) :=
  approach now ++ [guess now, ⟨now, .dropped⟩]

/-- To watch the host does not change it. -/
theorem state_run_watched (watched : Watched crypto) (events : List (HostEvent crypto)) :
    (run Watched.step watched events).state = run HostState.step watched.state events :=
  run_map Watched.step Watched.state (fun _ _ => rfl) watched events

/-- Without a lock the connection gets to its check. -/
theorem run_approach {lockout : Lockout} {now : ℕ} (hfree : lockout.remaining now = none) :
    run HostState.step ⟨lockout, .listening⟩ (approach now) =
      ⟨lockout, .handshake (.authenticating (some "482913") (List.replicate 32 0)
        (.readingConfirm (.error .mk)))⟩ := by
  simp [approach, HostState.step, Handshake.step, HostAction.auth, HostAuth.step,
    HostAuth.onAuth, hfree, HostAuth.phase, PinExchange.start, PinExchange.finish,
    emptyElementCrypto]

/-- An attempt without a lock is one more failure. -/
theorem run_attempt {lockout : Lockout} {now : ℕ} (hfree : lockout.remaining now = none) :
    run HostState.step ⟨lockout, .listening⟩ (attempt now) =
      ⟨(lockout.fail now).2, .listening⟩ := by
  rw [attempt, run_append, run_approach hfree]
  rfl

/-- One attempt after another, each after the longest lock has ended. -/
def attack : ℕ → List (HostEvent emptyElementCrypto)
  | 0 => []
  | count + 1 => attack count ++ attempt ((count + 1) * maxLock)

/-- The clock runs during the attempts. -/
theorem clockRuns_attack (count : ℕ) :
    ClockRuns (attack count) ∧ ∀ event ∈ attack count, event.now ≤ count * maxLock := by
  induction count with
  | zero => simp [attack, ClockRuns]
  | succ count ih =>
      have hlast : ∀ event ∈ attempt ((count + 1) * maxLock),
          event.now = (count + 1) * maxLock := by
        simp [attempt, approach, guess]
      have hle : count * maxLock ≤ (count + 1) * maxLock :=
        Nat.mul_le_mul_right _ (Nat.le_succ count)
      refine ⟨List.pairwise_append.mpr ⟨ih.1, ?_, ?_⟩, ?_⟩
      · exact List.pairwise_of_forall_mem_list fun earlier hearlier later hlater => by
          rw [hlast earlier hearlier, hlast later hlater]
      · intro earlier hearlier later hlater
        rw [hlast later hlater]
        exact (ih.2 earlier hearlier).trans hle
      · intro event hevent
        rcases List.mem_append.mp hevent with hearlier | hmem
        · exact (ih.2 event hearlier).trans hle
        · exact (hlast event hmem).le

/-- Six wrong confirmations: the fifth and the sixth lock the host. -/
theorem throttled_attack : Throttled (attack 6) :=
  throttled (attack 6) (clockRuns_attack 6).1

/-- No lock is longer than the longest. -/
theorem lockFor_le (failures : UInt32) : Lockout.lockFor failures ≤ maxLock :=
  Nat.min_le_right _ _

/-- After an attack the count is the number of attempts until it saturates, and the
lock ends before the next attempt. -/
theorem run_attack (count : ℕ) :
    ∃ lockout : Lockout, run HostState.step {} (attack count) = ⟨lockout, .listening⟩ ∧
      lockout.failures.toNat = min count (2 ^ 32 - 1) ∧
        ∀ instant ∈ lockout.lockedUntil, instant ≤ (count + 1) * maxLock := by
  induction count with
  | zero => exact ⟨{}, rfl, rfl, by simp⟩
  | succ count ih =>
      obtain ⟨lockout, hrun, hcount, hlock⟩ := ih
      have hfree : lockout.remaining ((count + 1) * maxLock) = none :=
        (Lockout.remaining_eq_none_iff _ _).mpr hlock
      obtain ⟨hfailures, hlocked⟩ := Lockout.fail_spec lockout ((count + 1) * maxLock)
      refine ⟨_, by rw [attack, run_append, hrun, run_attempt hfree], ?_, ?_⟩
      · rw [hfailures, toNat_saturatingSucc, hcount]
        omega
      · rw [hlocked]
        intro instant hinstant
        have hnext : (count + 1 + 1) * maxLock = (count + 1) * maxLock + maxLock := by ring
        split_ifs at hinstant with hfew
        · have hearlier := hlock instant hinstant
          omega
        · obtain rfl := Option.some.inj hinstant
          have hle := lockFor_le (saturatingSucc lockout.failures)
          omega

/-- After 2^32 - 1 wrong confirmations another one does not raise the stored count. -/
theorem attack_saturates :
    ¬ ∀ events : List (HostEvent emptyElementCrypto), ClockRuns events →
      ∀ front event back, events = front ++ event :: back →
        (run Watched.step {} front).state.check event = some false →
          (run Watched.step {} (front ++ [event])).state.lockout.failures.toNat =
            (run Watched.step {} front).state.lockout.failures.toNat + 1 := by
  intro hall
  obtain ⟨lockout, hrun, hcount, hlock⟩ := run_attack (2 ^ 32 - 1)
  set now := (2 ^ 32 - 1 + 1) * maxLock with hnow
  have hfree : lockout.remaining now = none := (Lockout.remaining_eq_none_iff _ _).mpr hlock
  have hbefore : run HostState.step {} (attack (2 ^ 32 - 1) ++ approach now) =
      ⟨lockout, .handshake (.authenticating (some "482913") (List.replicate 32 0)
        (.readingConfirm (.error .mk)))⟩ := by
    rw [run_append, hrun, run_approach hfree]
  have hattack : attack (2 ^ 32 - 1 + 1) =
      (attack (2 ^ 32 - 1) ++ approach now) ++ guess now :: [⟨now, .dropped⟩] := by
    rw [attack, attempt, hnow, List.append_assoc]
  have hraised := hall (attack (2 ^ 32 - 1 + 1)) (clockRuns_attack _).1 _ _ _ hattack
  rw [run_append_singleton] at hraised
  simp only [Watched.step, state_run_watched, hbefore] at hraised
  have hcheck : HostState.check
      ⟨lockout, .handshake (.authenticating (some "482913") (List.replicate 32 0)
        (.readingConfirm (.error .mk)))⟩ (guess now) = some false := rfl
  have hstored := hraised hcheck
  rw [(HostState.step_cases _ _).1, hcheck] at hstored
  simp only at hstored
  rw [(Lockout.fail_spec _ _).1, toNat_saturatingSucc, hcount] at hstored
  omega

end OmarchyConnect.Host
