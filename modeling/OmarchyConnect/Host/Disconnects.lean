/-
# A disconnect ends the session that is on

`omarchy-connect disconnect` sends a signal, and the task that takes it cancels the token
that stands in the slot. A signal between two sessions finds no token, and one that comes
in a session is never left over for the next.

The same token is cancelled by the reader task of its connection and by the end of
`drive_session`. A reader task may outlive its session, but it has no other token.
-/

import OmarchyConnect.Host.Serving

namespace OmarchyConnect.Host

open OmarchyConnect.Library OmarchyConnect.Library.Wire OmarchyConnect.Library.Runs
open OmarchyConnect.Protocol

variable {crypto : PinCrypto} {demo : Bool} {json : LiveJson}

namespace Serving

variable {serving : Serving crypto}

/-- The slot holds the token of the connection that is being handled, and nothing else. -/
def Slotted (serving : Serving crypto) : Prop :=
  serving.current = if serving.stage.inSession then some serving.sessions else none

/-- Connection `id` is over, or was never there. -/
def Over (id : ℕ) (serving : Serving crypto) : Prop :=
  id < serving.sessions ∨
    (id = serving.sessions ∧ serving.stage.inSession = false ∧
      ∀ peer, serving.stage ≠ .accepted peer)

/-- A token in the slot is that of the session. -/
theorem Slotted.of_current (h : serving.Slotted) {id : ℕ} (hcurrent : serving.current = some id) :
    serving.stage.inSession = true ∧ serving.sessions = id := by
  rw [Slotted, hcurrent] at h
  split_ifs at h with hsession
  exact ⟨hsession, (Option.some.inj h).symm⟩

/-! ## One step -/

/-- A signal leaves the slot and the stage alone. -/
theorem current_disconnectCurrent (serving : Serving crypto) :
    serving.disconnectCurrent.current = serving.current ∧
      serving.disconnectCurrent.stage = serving.stage ∧
        serving.disconnectCurrent.sessions = serving.sessions := by
  unfold disconnectCurrent
  split <;> exact ⟨rfl, rfl, rfl⟩

/-- Publishing leaves the slot and the tokens alone. -/
theorem updateIf_spec (serving : Serving crypto) (change : Option (LiveState → LiveState)) :
    (serving.updateIf change).current = serving.current ∧
      (serving.updateIf change).sessions = serving.sessions ∧
        (serving.updateIf change).cancelled = serving.cancelled ∧
          (serving.updateIf change).readers = serving.readers := by
  cases change <;> exact ⟨rfl, rfl, rfl, rfl⟩

/-- The handshake goes on in the session. -/
theorem inSession_shake (serving : Serving crypto) (demo : Bool) (peer name : String)
    (event : HostEvent crypto) (unix : ℕ) (error : String) :
    (serving.shake demo peer name event unix error).stage.inSession = true := by
  unfold shake
  dsimp only
  split <;> rfl

/-- A step keeps the slot right. -/
theorem Moves.slotted {event : ServingEvent crypto} {after : Serving crypto}
    (hmoves : serving.Moves demo json event after) (h : serving.Slotted) : after.Slotted := by
  unfold Slotted at h ⊢
  cases hmoves with
  | stays => exact h
  | booted process hstage =>
      rw [hstage] at h
      exact h
  | died => rfl
  | signal =>
      obtain ⟨hcurrent, hstage, hsessions⟩ := current_disconnectCurrent serving
      rw [hcurrent, hstage, hsessions]
      exact h
  | shutdown => exact h
  | acceptFailed hstage =>
      rw [hstage] at h
      exact h
  | accepted peer hstage =>
      rw [hstage] at h
      exact h
  | slotSet peer hstage => rfl
  | handshake peer name event unix error _ hstage =>
      obtain ⟨hcurrent, hsessions, -⟩ :=
        serving.updateIf_spec (serving.shakeChange demo peer name event unix)
      rw [inSession_shake, if_pos rfl]
      rw [hstage] at h
      exact hcurrent.trans (h.trans (congrArg some hsessions.symm))
  | timedOut peer name hstage =>
      rw [hstage] at h
      exact h
  | cancelled hstage =>
      rw [if_pos hstage] at h
      exact h
  | opened peer name _ hstage =>
      rw [hstage] at h
      exact h
  | openFailed peer name error hstage =>
      rw [hstage] at h
      exact h
  | reading peer name hstage =>
      rw [hstage] at h
      exact h
  | readerEnded => exact h
  | driveFailed peer name error hstage =>
      rcases hstage with hstage | hstage <;> rw [hstage] at h <;> exact h
  | driven peer name hstage =>
      rw [hstage] at h
      exact h
  | slotCleared error hstage => rfl
  | reported error _ hstage =>
      rw [hstage] at h
      exact h
  | stopped removed hstage =>
      rw [hstage] at h
      exact h
  | call => exact h

/-- A session that is over was before the one that is handled. -/
theorem Over.lt_of_inSession {id : ℕ} (h : serving.Over id)
    (hsession : serving.stage.inSession = true) : id < serving.sessions := by
  refine h.resolve_right fun hsame => ?_
  rw [hsession] at hsame
  cases hsame.2.1

/-- Where no connection is, those so far are over. -/
theorem Over.outside {id : ℕ} (h : serving.Over id) {after : Serving crypto}
    (hsessions : after.sessions = serving.sessions) (hout : after.stage.inSession = false)
    (haccepted : ∀ peer, after.stage ≠ .accepted peer) : after.Over id := by
  rw [Over, hsessions]
  rcases h with hlater | ⟨hsame, -, -⟩
  · exact Or.inl hlater
  · exact Or.inr ⟨hsame, hout, haccepted⟩

/-- A connection that is over stays over. -/
theorem Moves.over {event : ServingEvent crypto} {after : Serving crypto} {id : ℕ}
    (hmoves : serving.Moves demo json event after) (h : serving.Over id) : after.Over id := by
  cases hmoves with
  | stays => exact h
  | booted process hstage => exact h.outside rfl rfl fun peer hpeer => by cases hpeer
  | died => exact h.outside rfl rfl fun peer hpeer => by cases hpeer
  | signal =>
      obtain ⟨-, hstage, hsessions⟩ := current_disconnectCurrent serving
      rw [Over, hstage, hsessions]
      exact h
  | shutdown => exact h
  | acceptFailed hstage => exact h.outside rfl rfl fun peer hpeer => by cases hpeer
  | accepted peer hstage =>
      refine Or.inl (Nat.lt_succ_of_le ?_)
      rcases h with hlater | ⟨hsame, -⟩
      · exact Nat.le_of_lt hlater
      · exact Nat.le_of_eq hsame
  | slotSet peer hstage => exact Or.inl (h.resolve_right fun hsame => hsame.2.2 peer hstage)
  | handshake peer name event unix error _ hstage =>
      obtain ⟨-, hsessions, -⟩ :=
        serving.updateIf_spec (serving.shakeChange demo peer name event unix)
      exact Or.inl ((h.lt_of_inSession (by rw [hstage]; rfl)).trans_eq hsessions.symm)
  | timedOut peer name hstage => exact Or.inl (h.lt_of_inSession (by rw [hstage]; rfl))
  | cancelled hstage => exact Or.inl (h.lt_of_inSession hstage)
  | opened peer name _ hstage => exact Or.inl (h.lt_of_inSession (by rw [hstage]; rfl))
  | openFailed peer name error hstage => exact Or.inl (h.lt_of_inSession (by rw [hstage]; rfl))
  | reading peer name hstage => exact Or.inl (h.lt_of_inSession (by rw [hstage]; rfl))
  | readerEnded => exact h
  | driveFailed peer name error hstage =>
      refine Or.inl (h.lt_of_inSession ?_)
      rcases hstage with hstage | hstage <;> rw [hstage] <;> rfl
  | driven peer name hstage => exact Or.inl (h.lt_of_inSession (by rw [hstage]; rfl))
  | slotCleared error hstage => exact Or.inl (h.lt_of_inSession (by rw [hstage]; rfl))
  | reported error _ hstage => exact h.outside rfl rfl fun peer hpeer => by cases hpeer
  | stopped removed hstage => exact h.outside rfl rfl fun peer hpeer => by cases hpeer
  | call => exact h

/-- A step leaves the connection that is being handled on, or it is over. -/
theorem Moves.over_or_on {event : ServingEvent crypto} {after : Serving crypto}
    (hmoves : serving.Moves demo json event after) (hsession : serving.stage.inSession = true) :
    (after.stage.inSession = true ∧ after.sessions = serving.sessions) ∨
      after.Over serving.sessions := by
  cases hmoves with
  | stays => exact Or.inl ⟨hsession, rfl⟩
  | booted process hstage =>
      rw [hstage] at hsession
      cases hsession
  | died => exact Or.inr (Or.inr ⟨rfl, rfl, fun peer hpeer => by cases hpeer⟩)
  | signal =>
      obtain ⟨-, hstage, hsessions⟩ := current_disconnectCurrent serving
      exact Or.inl ⟨hstage ▸ hsession, hsessions⟩
  | shutdown => exact Or.inl ⟨hsession, rfl⟩
  | acceptFailed hstage => exact Or.inr (Or.inr ⟨rfl, rfl, fun peer hpeer => by cases hpeer⟩)
  | accepted peer hstage => exact Or.inr (Or.inl (Nat.lt_succ_self _))
  | slotSet peer hstage => exact Or.inl ⟨rfl, rfl⟩
  | handshake peer name event unix error _ hstage =>
      exact Or.inl ⟨inSession_shake _ _ _ _ _ _ _, (serving.updateIf_spec _).2.1⟩
  | timedOut => exact Or.inl ⟨rfl, rfl⟩
  | cancelled => exact Or.inl ⟨rfl, rfl⟩
  | opened => exact Or.inl ⟨rfl, rfl⟩
  | openFailed => exact Or.inl ⟨rfl, rfl⟩
  | reading => exact Or.inl ⟨rfl, rfl⟩
  | readerEnded => exact Or.inl ⟨hsession, rfl⟩
  | driveFailed => exact Or.inl ⟨rfl, rfl⟩
  | driven => exact Or.inl ⟨rfl, rfl⟩
  | slotCleared => exact Or.inr (Or.inr ⟨rfl, rfl, fun peer hpeer => by cases hpeer⟩)
  | reported => exact Or.inr (Or.inr ⟨rfl, rfl, fun peer hpeer => by cases hpeer⟩)
  | stopped => exact Or.inr (Or.inr ⟨rfl, rfl, fun peer hpeer => by cases hpeer⟩)
  | call => exact Or.inl ⟨hsession, rfl⟩

/-! ## What cancels a token -/

/-- The loop of `drive_session` may end. -/
def loopEnds (demo : Bool) (serving : Serving crypto) : Bool :=
  match serving.stage with
  | .looping _ _ => serving.quiet && !(demo && !serving.tokenCancelled)
  | _ => false

/-- The token that an event cancels on its own: that in the slot for a signal, and that of
their connection for a reader task and for the end of the loop. -/
def cancels (demo : Bool) (serving : Serving crypto) : ServingEvent crypto → Option ℕ
  | .signal => serving.current
  | .readerEnded id true => if serving.readerRuns id then some id else none
  | .driven none => if serving.loopEnds demo then some serving.sessions else none
  | _ => none

/-- A signal cancels what stands in the slot. -/
theorem cancelled_disconnectCurrent (serving : Serving crypto) (id : ℕ) :
    serving.disconnectCurrent.cancelled id = true ↔
      serving.cancelled id = true ∨ serving.current = some id := by
  unfold disconnectCurrent
  cases serving.current with
  | none => simp
  | some other =>
      by_cases hother : id = other
      · simp [hother]
      · simp [hother, Ne.symm hother]

/-- A reader task that cancels cancels its own token. -/
theorem cancelled_endReader (serving : Serving crypto) (reader id : ℕ) :
    (serving.endReader reader true).cancelled id = true ↔
      serving.cancelled id = true ∨ some reader = some id := by
  by_cases hsame : id = reader
  · simp [endReader, hsame]
  · simp [endReader, hsame, Ne.symm hsame]

/-- The other events cancel nothing. -/
theorem Moves.cancelled_eq {event : ServingEvent crypto} {after : Serving crypto}
    (hmoves : serving.Moves demo json event after) (hsignal : event ≠ .signal)
    (hreader : ∀ id, event ≠ .readerEnded id true) (hdriven : event ≠ .driven none) :
    after.cancelled = serving.cancelled := by
  cases hmoves with
  | signal => exact absurd rfl hsignal
  | handshake peer name event unix error => exact (serving.updateIf_spec _).2.2.1
  | readerEnded id cancelling =>
      cases cancelling with
      | true => exact absurd rfl (hreader id)
      | false => rfl
  | driven => exact absurd rfl hdriven
  | _ => rfl

/-- The end of the loop cancels the token of its connection. -/
theorem cancelled_driven (demo : Bool) (json : LiveJson) (serving : Serving crypto) (id : ℕ) :
    (serving.step demo json (.driven none)).cancelled id = true ↔
      serving.cancelled id = true ∨ serving.cancels demo (.driven none) = some id := by
  have hleave : serving.endLoop.cancelled id = true ↔
      serving.cancelled id = true ∨ some serving.sessions = some id :=
    serving.cancelled_endReader serving.sessions id
  rw [Option.some.injEq] at hleave
  by_cases hquiet : serving.quiet
  · cases hstage : serving.stage with
    | looping peer name =>
        by_cases hends : demo && !serving.tokenCancelled
        · simp [step, stepLoop, cancels, loopEnds, hquiet, hstage, hends]
        · simp [step, stepLoop, cancels, loopEnds, hquiet, hstage, hends, hleave]
    | _ => simp [step, stepLoop, cancels, loopEnds, hquiet, hstage]
  · cases hstage : serving.stage <;> simp [step, cancels, loopEnds, hquiet, hstage]

/-- The end of a reader task, where one is running. -/
theorem cancelled_readerEnded (demo : Bool) (json : LiveJson) (serving : Serving crypto)
    (reader id : ℕ) :
    (serving.step demo json (.readerEnded reader true)).cancelled id = true ↔
      serving.cancelled id = true ∨
        serving.cancels demo (.readerEnded reader true) = some id := by
  by_cases hruns : serving.readerRuns reader
  · rw [step, cancels, if_pos hruns, if_pos hruns]
    exact serving.cancelled_endReader reader id
  · rw [step, cancels, if_neg hruns, if_neg hruns]
    simp

/-- A step cancels the token that `cancels` names and no other one. -/
theorem cancelled_step (demo : Bool) (json : LiveJson) (serving : Serving crypto)
    (event : ServingEvent crypto) (id : ℕ) :
    (serving.step demo json event).cancelled id = true ↔
      serving.cancelled id = true ∨ serving.cancels demo event = some id := by
  have hmoves := serving.moves_step demo json event
  cases event with
  | signal => exact serving.cancelled_disconnectCurrent id
  | readerEnded reader cancelling =>
      cases cancelling with
      | true => exact cancelled_readerEnded demo json serving reader id
      | false =>
          rw [hmoves.cancelled_eq (by simp) (by simp) (by simp)]
          simp [cancels]
  | driven error =>
      cases error with
      | none => exact cancelled_driven demo json serving id
      | some error =>
          rw [hmoves.cancelled_eq (by simp) (by simp) (by simp)]
          simp [cancels]
  | _ =>
      rw [hmoves.cancelled_eq (by simp) (by simp) (by simp)]
      simp [cancels]

/-! ## Reader tasks -/

/-- A reader task belongs to the connection that is being handled or to one that is over. -/
def ReadersPlaced (serving : Serving crypto) : Prop :=
  ∀ id, serving.readers id = true →
    (serving.stage.inSession = true ∧ serving.sessions = id) ∨ serving.Over id

/-- A reader task that runs behind the end of one was running before. -/
theorem readers_endReader {serving : Serving crypto} {reader id : ℕ} {cancelling : Bool}
    (h : (serving.endReader reader cancelling).readers id = true) :
    serving.readers id = true := by
  by_cases hsame : id = reader
  · simp [endReader, hsame] at h
  · simpa [endReader, hsame] using h

/-- A reader task is spawned for the connection that is being handled. -/
theorem Moves.readers_or_on {event : ServingEvent crypto} {after : Serving crypto} {id : ℕ}
    (hmoves : serving.Moves demo json event after) (hreads : after.readers id = true) :
    serving.readers id = true ∨ (after.stage.inSession = true ∧ after.sessions = id) := by
  cases hmoves with
  | booted process => cases hreads
  | signal =>
      refine Or.inl ?_
      unfold disconnectCurrent at hreads
      split at hreads <;> exact hreads
  | handshake peer name event unix error =>
      rw [shake, (serving.updateIf_spec _).2.2.2] at hreads
      exact Or.inl hreads
  | reading peer name hstage =>
      by_cases hsame : id = serving.sessions
      · exact Or.inr ⟨rfl, hsame.symm⟩
      · exact Or.inl (by simpa [read, hsame] using hreads)
  | readerEnded reader cancelling => exact Or.inl (readers_endReader hreads)
  | driven peer name => exact Or.inl (@readers_endReader _ serving serving.sessions id true hreads)
  | _ => exact Or.inl hreads

/-- A step keeps the reader tasks placed. -/
theorem Moves.readersPlaced {event : ServingEvent crypto} {after : Serving crypto}
    (hmoves : serving.Moves demo json event after) (h : serving.ReadersPlaced) :
    after.ReadersPlaced := by
  intro id hreads
  rcases hmoves.readers_or_on hreads with hbefore | hon
  · rcases h id hbefore with ⟨hsession, rfl⟩ | hover
    · exact hmoves.over_or_on hsession
    · exact Or.inr (hmoves.over hover)
  · exact Or.inl hon

/-- A token is cancelled on its own while its connection is handled, or afterwards. -/
theorem placed_of_cancels (hslotted : serving.Slotted) (hreaders : serving.ReadersPlaced)
    {event : ServingEvent crypto} {id : ℕ} (h : serving.cancels demo event = some id) :
    (serving.stage.inSession = true ∧ serving.sessions = id) ∨ serving.Over id := by
  unfold cancels at h
  split at h
  next => exact Or.inl (hslotted.of_current h)
  next reader =>
    split at h
    next hruns =>
      obtain rfl := Option.some.inj h
      exact hreaders reader (Bool.and_eq_true_iff.mp hruns).1
    next => cases h
  next =>
    split at h
    next hends =>
      refine Or.inl ⟨?_, Option.some.inj h⟩
      unfold loopEnds at hends
      split at hends
      next hstage =>
        rw [hstage]
        rfl
      next => cases hends
    next => cases h
  next => cases h

/-! ## Whole runs -/

/-- The slot is right in every run. -/
theorem slotted_run (demo : Bool) (json : LiveJson) (start : Serving crypto)
    (hstart : start.Slotted) (events : List (ServingEvent crypto)) :
    (run (step demo json) start events).Slotted :=
  invariant_of_step (step demo json) Slotted
    (fun serving event h => (serving.moves_step demo json event).slotted h) hstart events

/-- The reader tasks are placed in every run. -/
theorem readersPlaced_run (demo : Bool) (json : LiveJson) (files : Inodes Published.Name UInt8)
    (events : List (ServingEvent crypto)) :
    (run (step demo json) (start files) events).ReadersPlaced :=
  invariant_of_step (step demo json) ReadersPlaced
    (fun serving event h => (serving.moves_step demo json event).readersPlaced h)
    (fun id hreads => by cases hreads) events

/-- A session that is over stays over. -/
theorem over_run (demo : Bool) (json : LiveJson) {serving : Serving crypto} {id : ℕ}
    (h : serving.Over id) (events : List (ServingEvent crypto)) :
    (run (step demo json) serving events).Over id :=
  invariant_of_step (step demo json) (Over id)
    (fun serving event h => (serving.moves_step demo json event).over h) h events

/-- A token is cancelled on its own by the events that cancel it. -/
theorem cancelled_run (demo : Bool) (json : LiveJson) (start : Serving crypto)
    (hstart : ∀ id, start.cancelled id = false) (events : List (ServingEvent crypto)) (id : ℕ) :
    (run (step demo json) start events).cancelled id = true ↔
      ∃ front event, front ++ [event] <+: events ∧
        (run (step demo json) start front).cancels demo event = some id := by
  induction events using List.reverseRecOn with
  | nil => simp [hstart id]
  | append_singleton events last ih =>
      rw [run_append_singleton, cancelled_step, ih]
      constructor
      · rintro (⟨front, event, hfront, hcancels⟩ | hcancels)
        · exact ⟨front, event, hfront.trans (List.prefix_append _ _), hcancels⟩
        · exact ⟨events, last, List.prefix_rfl, hcancels⟩
      · rintro ⟨front, event, hfront, hcancels⟩
        rcases List.prefix_concat_iff.mp hfront with hwhole | hbefore
        · obtain ⟨rfl, hlast⟩ := List.append_inj' hwhole rfl
          obtain rfl := (List.cons.inj hlast).1
          exact Or.inr hcancels
        · exact Or.inl ⟨front, event, hbefore, hcancels⟩

/-- From a point in a session on, it is on without a break or over for good. -/
theorem on_or_over_run (demo : Bool) (json : LiveJson) {serving : Serving crypto}
    (hsession : serving.stage.inSession = true) (events : List (ServingEvent crypto)) :
    (∀ front, front <+: events →
      (run (step demo json) serving front).stage.inSession = true ∧
        (run (step demo json) serving front).sessions = serving.sessions) ∨
      (run (step demo json) serving events).Over serving.sessions := by
  induction events using List.reverseRecOn with
  | nil =>
      refine Or.inl fun front hfront => ?_
      rw [List.prefix_nil.mp hfront]
      exact ⟨hsession, rfl⟩
  | append_singleton events event ih =>
      have hmoves := moves_step demo json (run (step demo json) serving events) event
      rw [run_append_singleton]
      rcases ih with hon | hover
      · obtain ⟨hnow, hsame⟩ := hon events List.prefix_rfl
        rcases hmoves.over_or_on hnow with hnext | hover
        · refine Or.inl fun front hfront => ?_
          rcases List.prefix_concat_iff.mp hfront with hwhole | hbefore
          · rw [hwhole, run_append_singleton]
            exact ⟨hnext.1, hnext.2.trans hsame⟩
          · exact hon front hbefore
        · exact Or.inr (hsame ▸ hover)
      · exact Or.inr (hmoves.over hover)

/-- A signal cancels the token of the connection that is being handled, and no other one; a
token is otherwise cancelled by the reader task of its connection and at the end of its loop
only. Where the token of the connection that is being handled is cancelled, the host is shut
down, or one of the three cancelled it while this connection was handled, which it has been
ever since. -/
theorem disconnect_hits_current (demo : Bool) (json : LiveJson)
    (files : Inodes Published.Name UInt8) (events : List (ServingEvent crypto)) :
    let serving := run (step demo json) (start files) events
    (∀ id, (serving.step demo json .signal).cancelled id = true ↔
      serving.cancelled id = true ∨ serving.current = some id) ∧
    serving.current = (if serving.stage.inSession then some serving.sessions else none) ∧
    (∀ id, serving.cancelled id = true ↔
      ∃ front event, front ++ [event] <+: events ∧
        (run (step demo json) (start files) front).cancels demo event = some id) ∧
    (serving.stage.inSession = true → serving.tokenCancelled = true → serving.shutdown = false →
      ∃ front event back, events = front ++ event :: back ∧
        (run (step demo json) (start files) front).cancels demo event = some serving.sessions ∧
        ∀ middle, middle <+: event :: back →
          (run (step demo json) (start files) (front ++ middle)).current =
            some serving.sessions) := by
  intro serving
  have hcancelled := cancelled_run demo json (start files) (fun _ => rfl) events
  have hslotted : serving.Slotted := slotted_run demo json (start files) rfl events
  refine ⟨serving.cancelled_disconnectCurrent, hslotted, hcancelled,
    fun hsession htoken hrunning => ?_⟩
  have hcurrent : serving.current = some serving.sessions := by
    rw [hslotted, if_pos hsession]
  have hown : serving.cancelled serving.sessions = true := by
    rwa [tokenCancelled, hrunning, hcurrent, Bool.false_or, Option.any_some] at htoken
  obtain ⟨front, event, ⟨back, hevents⟩, hcancels⟩ := (hcancelled _).mp hown
  rw [List.append_assoc, List.singleton_append] at hevents
  have hend : run (step demo json) (run (step demo json) (start files) front) (event :: back) =
      serving := by
    rw [← run_append, hevents]
  have hnotOver : ¬ serving.Over serving.sessions := fun hover =>
    Nat.lt_irrefl _ (hover.lt_of_inSession hsession)
  refine ⟨front, event, back, hevents.symm, hcancels, fun middle hmiddle => ?_⟩
  have hplaced := placed_of_cancels (slotted_run demo json (start files) rfl front)
    (readersPlaced_run demo json files front) hcancels
  rcases hplaced with ⟨hbefore, hsame⟩ | hover
  · rcases on_or_over_run demo json hbefore (event :: back) with hon | hover
    · obtain ⟨hnow, hkept⟩ := hon middle hmiddle
      have hstill := slotted_run demo json (start files) rfl (front ++ middle)
      rw [← run_append] at hnow hkept
      rw [hstill, if_pos hnow, hkept, hsame]
    · rw [hend, hsame] at hover
      exact absurd hover hnotOver
  · have hlater := over_run demo json hover (event :: back)
    rw [hend] at hlater
    exact absurd hlater hnotOver

end Serving

end OmarchyConnect.Host
