/-
# Waiting on the inbox

`recv`, `publish` and `close` of a `FrameInbox` in their atomic steps: the section that
holds the lock of the slots, the load or store of the closed flag, and the calls on the
`Notify`. A `Notify` keeps one permit for `notify_one`; `notify_waiters` reaches the
`Notified` futures that exist and keeps nothing.

One receiver calls `recv` again and again. Of the calls of the other side only those
that still have to notify are kept, by their number.
-/

import OmarchyConnect.Host.FrameInbox

namespace OmarchyConnect.Host

open OmarchyConnect.Library.Runs OmarchyConnect.Library.Slots

/-- Where the receiver is: before the call, before each of its steps, with a `Notified`
that was not polled yet, waiting, or woken. `released` says that `notify_waiters` has
been called since the `Notified` was created. -/
inductive ReceiverAt
  | idle
  | slots
  | closed
  | notified
  | created (released : Bool)
  | parked
  | woken
  deriving DecidableEq

/-- The inbox, its `Notify`, and the calls that are going on. -/
structure Waiting where
  inbox : FrameInbox := {}
  permit : Bool := false
  receiver : ReceiverAt := .idle
  publishing : ℕ := 0
  closing : ℕ := 0

/-- The atomic steps. `receive` is the next step of the receiver, whichever it is. -/
inductive WaitingEvent
  | receive
  | publishSlots (frame : RawFrame)
  | notifyOne
  | closeStore
  | notifyWaiters

namespace Waiting

/-- The receiver's next step: the loop of `recv`, and the poll of its `Notified`. -/
def receive (state : Waiting) : Waiting :=
  match state.receiver with
  | .idle => { state with receiver := .slots }
  | .slots =>
      match state.inbox.slots.getLast? with
      | some _ =>
          { state with
            inbox := { state.inbox with slots := state.inbox.slots.dropLast }
            receiver := .idle }
      | none => { state with receiver := .closed }
  | .closed => { state with receiver := if state.inbox.closed then .idle else .notified }
  | .notified => { state with receiver := .created false }
  | .created released =>
      if state.permit then { state with permit := false, receiver := .slots }
      else { state with receiver := if released then .slots else .parked }
  | .parked => state
  | .woken => { state with receiver := .slots }

/-- `notify_one`: wake the receiver where it waits, or keep a permit. -/
def notifyOne (state : Waiting) : Waiting :=
  if state.receiver = .parked then { state with receiver := .woken }
  else { state with permit := true }

/-- `notify_waiters`: wake the receiver where it waits, and release its `Notified`. -/
def notifyWaiters (state : Waiting) : Waiting :=
  match state.receiver with
  | .parked => { state with receiver := .woken }
  | .created _ => { state with receiver := .created true }
  | _ => state

/-- One event. -/
def step (state : Waiting) : WaitingEvent → Waiting
  | .receive => state.receive
  | .publishSlots frame =>
      { state with inbox := state.inbox.publish frame, publishing := state.publishing + 1 }
  | .notifyOne =>
      if state.publishing = 0 then state
      else { state with publishing := state.publishing - 1 }.notifyOne
  | .closeStore => { state with inbox := state.inbox.close, closing := state.closing + 1 }
  | .notifyWaiters =>
      if state.closing = 0 then state
      else { state with closing := state.closing - 1 }.notifyWaiters

/-- The receiver waits for a notification that no call is going to send, while there is
something to receive. -/
def LostWakeup (state : Waiting) : Prop :=
  state.receiver = .parked ∧ state.permit = false ∧ state.publishing = 0 ∧ state.closing = 0 ∧
    (state.inbox.slots ≠ [] ∨ state.inbox.closed = true)

/-- A `close` notifies between the receiver's look at the flag and its `notified()`,
and no `publish` has left or is about to leave a permit. -/
def Missed (state : Waiting) : WaitingEvent → Prop
  | .notifyWaiters =>
      state.closing ≠ 0 ∧ state.receiver = .notified ∧ state.permit = false ∧ state.publishing = 0
  | _ => False

/-! ## What holds at all times -/

/-- The receiver has found the slots empty and was not notified since. -/
def PastSlots : ReceiverAt → Prop
  | .closed | .notified | .created false | .parked => True
  | _ => False

/-- The receiver has found the inbox open and was not notified since. -/
def PastClosed : ReceiverAt → Prop
  | .notified | .created false | .parked => True
  | _ => False

/-- What the receiver has missed, a notification is going to tell it. -/
structure Inv (state : Waiting) : Prop where
  slots : PastSlots state.receiver → state.inbox.slots ≠ [] →
    state.permit = true ∨ state.publishing ≠ 0
  closed : PastClosed state.receiver → state.inbox.closed = true →
    state.permit = true ∨ state.publishing ≠ 0 ∨ state.closing ≠ 0
  closing : state.closing ≠ 0 → state.inbox.closed = true

/-- At first nobody waits. -/
theorem inv_start : Inv {} := ⟨False.elim, False.elim, fun h => absurd rfl h⟩

/-- The invariant leaves no lost wakeup. -/
theorem Inv.not_lost {state : Waiting} (h : Inv state) : ¬ state.LostWakeup := by
  intro hlost
  obtain ⟨hparked, hpermit, hpublishing, hclosing, hmissed⟩ := hlost
  have hslots := h.slots (by rw [hparked]; trivial)
  have hclosed := h.closed (by rw [hparked]; trivial)
  simp only [hpermit, hpublishing, hclosing] at hslots hclosed
  simp_all

/-- A receiver that looks keeps the invariant. -/
theorem Inv.receive {state : Waiting} (h : Inv state) : Inv state.receive := by
  unfold Waiting.receive
  cases hat : state.receiver with
  | idle => exact ⟨False.elim, False.elim, h.closing⟩
  | slots =>
      cases hlast : state.inbox.slots.getLast? with
      | some frame => exact ⟨False.elim, False.elim, h.closing⟩
      | none =>
          have hnil := List.getLast?_eq_none_iff.mp hlast
          exact ⟨fun _ hne => absurd hnil hne, False.elim, h.closing⟩
  | closed =>
      have hslots := h.slots (by rw [hat]; trivial)
      cases hclosed : state.inbox.closed with
      | true => exact ⟨False.elim, False.elim, fun _ => hclosed⟩
      | false =>
          refine ⟨fun _ => hslots, fun _ hnow => ?_, h.closing⟩
          exact absurd (hclosed.symm.trans hnow) (by simp)
  | notified =>
      have hslots := h.slots (by rw [hat]; trivial)
      have hclosed := h.closed (by rw [hat]; trivial)
      exact ⟨fun _ => hslots, fun _ => hclosed, h.closing⟩
  | created released =>
      cases hpermit : state.permit with
      | true => exact ⟨False.elim, False.elim, h.closing⟩
      | false =>
          cases released with
          | true => exact ⟨False.elim, False.elim, h.closing⟩
          | false =>
              have hslots := h.slots (by rw [hat]; trivial)
              have hclosed := h.closed (by rw [hat]; trivial)
              rw [hpermit] at hslots hclosed
              exact ⟨fun _ => hslots, fun _ => hclosed, h.closing⟩
  | parked => exact h
  | woken => exact ⟨False.elim, False.elim, h.closing⟩

/-- A `notify_one` that a publication owes makes up for what the receiver missed. -/
theorem Inv.notifyOne {state : Waiting} (h : Inv state) :
    Inv ({ state with publishing := state.publishing - 1 }.notifyOne) := by
  by_cases hparked : state.receiver = .parked
  · simp only [Waiting.notifyOne, if_pos hparked]
    exact ⟨False.elim, False.elim, h.closing⟩
  · simp only [Waiting.notifyOne, if_neg hparked]
    exact ⟨fun _ _ => Or.inl rfl, fun _ _ => Or.inl rfl, h.closing⟩

/-- So does a `notify_waiters` that is not missed. -/
theorem Inv.notifyWaiters {state : Waiting} (h : Inv state) (hclosing : state.closing ≠ 0)
    (hgood : ¬ state.Missed .notifyWaiters) :
    Inv ({ state with closing := state.closing - 1 }.notifyWaiters) := by
  have hclosed := h.closing hclosing
  unfold Waiting.notifyWaiters
  cases hat : state.receiver with
  | parked => exact ⟨False.elim, False.elim, fun _ => hclosed⟩
  | created released => exact ⟨False.elim, False.elim, fun _ => hclosed⟩
  | notified =>
      have hkept : state.permit = true ∨ state.publishing ≠ 0 := by
        by_contra hnone
        simp only [not_or, Bool.not_eq_true, not_not] at hnone
        exact hgood ⟨hclosing, hat, hnone.1, hnone.2⟩
      refine ⟨fun _ _ => hkept, fun _ _ => ?_, fun _ => hclosed⟩
      exact hkept.imp_right Or.inl
  | closed =>
      have hslots := h.slots (by rw [hat]; trivial)
      exact ⟨fun _ => hslots, False.elim, fun _ => hclosed⟩
  | idle => exact ⟨False.elim, False.elim, fun _ => hclosed⟩
  | slots => exact ⟨False.elim, False.elim, fun _ => hclosed⟩
  | woken => exact ⟨False.elim, False.elim, fun _ => hclosed⟩

/-- A step that misses nothing keeps the invariant. -/
theorem Inv.step {state : Waiting} (h : Inv state) {event : WaitingEvent}
    (hgood : ¬ state.Missed event) : Inv (state.step event) := by
  cases event with
  | receive => exact h.receive
  | publishSlots frame =>
      have howed : state.publishing + 1 ≠ 0 := Nat.succ_ne_zero _
      exact ⟨fun _ _ => Or.inr howed, fun _ _ => Or.inr (Or.inl howed), h.closing⟩
  | notifyOne =>
      simp only [Waiting.step]
      split_ifs with hnone
      · exact h
      · exact h.notifyOne
  | closeStore =>
      exact ⟨h.slots, fun _ _ => Or.inr (Or.inr (Nat.succ_ne_zero _)), fun _ => rfl⟩
  | notifyWaiters =>
      simp only [Waiting.step]
      split_ifs with hnone
      · exact h
      · exact h.notifyWaiters hnone hgood

/-! ## The way into a lost wakeup -/

/-- The other `close` calls notify in the same gap, without effect. -/
theorem run_notifyWaiters {state : Waiting} (hat : state.receiver = .notified) (count : ℕ)
    (hcount : state.closing = count) :
    run step state (List.replicate count .notifyWaiters) = { state with closing := 0 } := by
  induction count generalizing state with
  | zero =>
      have hsame : { state with closing := 0 } = state := by rw [← hcount]
      rw [hsame]
      rfl
  | succ count ih =>
      have hstep : state.step .notifyWaiters = { state with closing := count } := by
        simp [step, notifyWaiters, hat, hcount]
      have hrest := @ih { state with closing := count } hat rfl
      rw [List.replicate_succ, run_cons, hstep, hrest]

/-- After a missed notification the receiver can park for good. -/
theorem lost_of_missed {state : Waiting} (h : Inv state) {event : WaitingEvent}
    (hmissed : state.Missed event) :
    ∃ more, (run step state (event :: more)).LostWakeup := by
  cases event with
  | notifyWaiters =>
      obtain ⟨hclosing, hat, hpermit, hpublishing⟩ := hmissed
      have hclosed := h.closing hclosing
      refine ⟨List.replicate (state.closing - 1) .notifyWaiters ++ [.receive, .receive], ?_⟩
      have hstep : state.step .notifyWaiters = { state with closing := state.closing - 1 } := by
        simp [step, notifyWaiters, hat, hclosing]
      have hrest := @run_notifyWaiters { state with closing := state.closing - 1 } hat
        (state.closing - 1) rfl
      rw [run_cons, hstep, run_append, hrest]
      simp [step, receive, hat, hpermit, LostWakeup, hpublishing, hclosed]
  | receive => exact absurd hmissed id
  | publishSlots frame => exact absurd hmissed id
  | notifyOne => exact absurd hmissed id
  | closeStore => exact absurd hmissed id

/-- No wakeup is lost in a run without a missed notification, and from the end of such a
run there is behind every missed notification a way on that loses the wakeup. -/
theorem wakeups_kept (events : List WaitingEvent)
    (halong : Along step (fun state event => ¬ state.Missed event) {} events) :
    ¬ (run step {} events).LostWakeup ∧
      ∀ event, (run step {} events).Missed event →
        ∃ more, (run step {} (events ++ event :: more)).LostWakeup := by
  have hinv : Inv (run step {} events) :=
    invariant_run step Inv (fun _ _ h hgood => h.step hgood) inv_start halong
  refine ⟨hinv.not_lost, ?_⟩
  intro event hmissed
  obtain ⟨more, hlost⟩ := lost_of_missed hinv hmissed
  exact ⟨more, by rw [run_append]; exact hlost⟩

/-- The inbox is closed while the receiver waits: it wakes. -/
theorem wakeups_kept_closeWhileParked :
    ¬ (run step {} [.receive, .receive, .receive, .receive, .receive, .closeStore,
        .notifyWaiters]).LostWakeup ∧
      ∀ event, (run step {} [.receive, .receive, .receive, .receive, .receive, .closeStore,
          .notifyWaiters]).Missed event →
        ∃ more, (run step {} ([.receive, .receive, .receive, .receive, .receive, .closeStore,
          .notifyWaiters] ++ event :: more)).LostWakeup :=
  wakeups_kept _ (by simp [Along, step, receive, Missed])

/-- The capture ends while the receiver is between its look at the flag and `notified()`:
the receiver waits for good on a closed inbox. -/
theorem close_missed :
    (run step {} [.receive, .receive, .receive, .closeStore, .notifyWaiters, .receive,
      .receive]).LostWakeup := by
  refine ⟨rfl, rfl, rfl, rfl, Or.inr rfl⟩

end Waiting

end OmarchyConnect.Host
