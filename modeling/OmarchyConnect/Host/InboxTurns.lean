/-
# Whose turn it is in the inbox

`recv` takes the last slot and `publish` puts a monitor without a pending frame at the
end, so a pending frame waits for all slots behind it, also for those that come later.
The slots behind it are counted: every `recv` takes one of them, every monitor that comes
in anew adds one.
-/

import OmarchyConnect.Host.FrameInbox

namespace OmarchyConnect.Host

open OmarchyConnect.Library.Runs OmarchyConnect.Library.Slots

namespace FrameInbox

/-- The inbox after a call. -/
def after (inbox : FrameInbox) : InboxCall → FrameInbox
  | .publish frame => inbox.publish frame
  | .close => inbox.close
  | .recv => inbox.recv.2

/-- The frame that a call returns. -/
def returns (inbox : FrameInbox) : InboxCall → List RawFrame
  | .recv => (inbox.recv.1.join).toList
  | _ => []

/-- The frames that the calls return, in order. -/
def frames (inbox : FrameInbox) : List InboxCall → List RawFrame
  | [] => []
  | call :: calls => inbox.returns call ++ (inbox.after call).frames calls

/-- The displays with a pending frame, in the order of their slots. -/
def displayIds (inbox : FrameInbox) : List UInt32 := inbox.slots.map RawFrame.displayId

/-- How many slots stand behind the slot of a display. -/
def behind (inbox : FrameInbox) (display : UInt32) : ℕ :=
  (inbox.displayIds.reverse.takeWhile fun id => id ≠ display).length

/-- How many of the calls publish a frame of a display without a pending one. -/
def arrivals (inbox : FrameInbox) : List InboxCall → ℕ
  | [] => 0
  | .publish frame :: calls =>
      (if frame.displayId ∈ inbox.displayIds then 0 else 1) +
        (inbox.publish frame).arrivals calls
  | call :: calls => (inbox.after call).arrivals calls

/-- How many of the calls are a `recv`. -/
def recvs : List InboxCall → ℕ
  | [] => 0
  | .recv :: calls => recvs calls + 1
  | _ :: calls => recvs calls

/-- The frames of calls one after another. -/
theorem frames_append (inbox : FrameInbox) (first second : List InboxCall) :
    inbox.frames (first ++ second) =
      inbox.frames first ++ (run after inbox first).frames second := by
  induction first generalizing inbox with
  | nil => rfl
  | cons call first ih => rw [List.cons_append, frames, frames, ih, run_cons, List.append_assoc]

/-- The run of an inbox returns these frames. -/
theorem results_run (state : InboxRun) (calls : List InboxCall) :
    (run InboxRun.step state calls).inbox = run after state.inbox calls ∧
      (run InboxRun.step state calls).results.filterMap id =
        state.results.filterMap id ++ state.inbox.frames calls := by
  induction calls generalizing state with
  | nil => simp [frames]
  | cons call calls ih =>
      have hstep : (state.step call).inbox = state.inbox.after call ∧
          (state.step call).results.filterMap id =
            state.results.filterMap id ++ state.inbox.returns call := by
        cases call with
        | publish frame => simp [InboxRun.step, after, returns]
        | close => simp [InboxRun.step, after, returns]
        | recv =>
            simp only [InboxRun.step, after, returns]
            cases state.inbox.recv with
            | mk result inbox =>
                cases result with
                | none => simp
                | some frame => cases frame <;> simp
      obtain ⟨hinbox, hframes⟩ := ih (state.step call)
      rw [run_cons, run_cons, hinbox, hframes, hstep.1, hstep.2, frames, List.append_assoc]
      exact ⟨rfl, rfl⟩

/-! ## One call -/

/-- A frame of a new display is put at the end. -/
theorem displayIds_publish (inbox : FrameInbox) (frame : RawFrame) :
    (inbox.publish frame).displayIds =
      if frame.displayId ∈ inbox.displayIds then inbox.displayIds
      else inbox.displayIds ++ [frame.displayId] :=
  keys_put RawFrame.displayId inbox.slots frame

/-- A `recv` on pending frames returns the last one. -/
theorem recv_of_slots {inbox : FrameInbox} {slots : List RawFrame} {last : RawFrame}
    (hslots : inbox.slots = slots ++ [last]) :
    inbox.returns .recv = [last] ∧ (inbox.after .recv).displayIds =
      slots.map RawFrame.displayId := by
  simp [returns, after, recv, displayIds, hslots]

/-- Where something is pending there is a last slot. -/
theorem exists_last {inbox : FrameInbox} {display : UInt32} (h : display ∈ inbox.displayIds) :
    ∃ slots last, inbox.slots = slots ++ [last] := by
  have hne : inbox.slots ≠ [] := by
    intro hnil
    rw [displayIds, hnil] at h
    exact absurd h List.not_mem_nil
  exact ⟨inbox.slots.dropLast, inbox.slots.getLast hne, (List.dropLast_append_getLast hne).symm⟩

/-- A `recv` returns a frame where one is pending, and no call returns more. -/
theorem length_returns (inbox : FrameInbox) (call : InboxCall) :
    (inbox.returns call).length ≤ recvs [call] ∧
      (inbox.displayIds ≠ [] → (inbox.returns call).length = recvs [call]) := by
  cases call with
  | publish frame => exact ⟨le_refl _, fun _ => rfl⟩
  | close => exact ⟨le_refl _, fun _ => rfl⟩
  | recv =>
      refine ⟨Option.length_toList_le, fun hpending => ?_⟩
      obtain ⟨display, hdisplay⟩ := List.exists_mem_of_ne_nil _ hpending
      obtain ⟨slots, last, hslots⟩ := exists_last hdisplay
      rw [(recv_of_slots hslots).1]
      rfl

/-- The display at the end of the slots has nothing behind it. -/
theorem behind_of_last {inbox : FrameInbox} {slots : List RawFrame} {last : RawFrame}
    (hslots : inbox.slots = slots ++ [last]) (display : UInt32) :
    inbox.behind display = 0 ↔ last.displayId = display := by
  rw [behind, displayIds, hslots]
  by_cases hlast : last.displayId = display <;> simp [hlast]

/-- While a display is not returned its frame stays pending, and the slots behind it
are counted. -/
theorem behind_step {inbox : FrameInbox} {display : UInt32} (hpending : display ∈ inbox.displayIds)
    {call : InboxCall} (hwaits : ∀ frame ∈ inbox.returns call, frame.displayId ≠ display) :
    display ∈ (inbox.after call).displayIds ∧
      (inbox.after call).behind display + recvs [call] =
        inbox.behind display + inbox.arrivals [call] := by
  cases call with
  | publish frame =>
      by_cases hold : frame.displayId ∈ inbox.displayIds
      · have hids : (inbox.publish frame).displayIds = inbox.displayIds := by
          rw [displayIds_publish, if_pos hold]
        simp [after, recvs, arrivals, behind, hids, hold, hpending]
      · have hids : (inbox.publish frame).displayIds = inbox.displayIds ++ [frame.displayId] := by
          rw [displayIds_publish, if_neg hold]
        have hne : frame.displayId ≠ display := by
          intro heq
          rw [heq] at hold
          exact hold hpending
        simp [after, recvs, arrivals, behind, hids, hold, hpending, hne]
  | close => exact ⟨hpending, rfl⟩
  | recv =>
      obtain ⟨slots, last, hslots⟩ := exists_last hpending
      obtain ⟨hreturns, hids⟩ := recv_of_slots hslots
      have hne : last.displayId ≠ display := hwaits last (by simp [hreturns])
      rw [displayIds, hslots, List.map_append, List.mem_append] at hpending
      have hstays : display ∈ slots.map RawFrame.displayId :=
        hpending.resolve_right (by simpa [eq_comm] using hne)
      refine ⟨by rw [hids]; exact hstays, ?_⟩
      rw [behind, hids, behind, displayIds, hslots]
      simp [arrivals, recvs, hne]

/-! ## A list of calls -/

/-- The calls of `recv` are counted one by one. -/
theorem recvs_cons (call : InboxCall) (calls : List InboxCall) :
    recvs (call :: calls) = recvs [call] + recvs calls := by
  cases call <;> simp [recvs, Nat.add_comm]

/-- No more frames come than `recv` is called. -/
theorem length_frames_le (inbox : FrameInbox) (calls : List InboxCall) :
    (inbox.frames calls).length ≤ recvs calls := by
  induction calls generalizing inbox with
  | nil => exact le_refl _
  | cons call calls ih =>
      rw [frames, List.length_append, recvs_cons]
      exact Nat.add_le_add (inbox.length_returns call).1 (ih _)

/-- The arrivals are counted one by one. -/
theorem arrivals_cons (inbox : FrameInbox) (call : InboxCall) (calls : List InboxCall) :
    inbox.arrivals (call :: calls) = inbox.arrivals [call] + (inbox.after call).arrivals calls := by
  cases call <;> simp [arrivals, after]

/-- As long as a display is not returned, every `recv` returns a frame and takes a slot
from behind it. -/
theorem behind_run {inbox : FrameInbox} {display : UInt32} (hpending : display ∈ inbox.displayIds)
    {calls : List InboxCall} (hwaits : ∀ frame ∈ inbox.frames calls, frame.displayId ≠ display) :
    display ∈ (run after inbox calls).displayIds ∧
      (inbox.frames calls).length = recvs calls ∧
      (run after inbox calls).behind display + recvs calls =
        inbox.behind display + inbox.arrivals calls := by
  induction calls generalizing inbox with
  | nil => exact ⟨hpending, rfl, rfl⟩
  | cons call calls ih =>
      rw [frames] at hwaits
      obtain ⟨hstays, hcount⟩ := behind_step hpending fun frame hframe =>
        hwaits frame (List.mem_append_left _ hframe)
      obtain ⟨hends, hreturned, hrest⟩ := ih hstays fun frame hframe =>
        hwaits frame (List.mem_append_right _ hframe)
      have hreturns := (inbox.length_returns call).2 (List.ne_nil_of_mem hpending)
      refine ⟨hends, ?_, ?_⟩
      · rw [frames, List.length_append, recvs_cons, hreturns, hreturned]
      · rw [run_cons, recvs_cons, arrivals_cons]
        omega

/-- The first call that returns a frame of a display. -/
theorem exists_first {inbox : FrameInbox} {display : UInt32} {calls : List InboxCall}
    (h : ∃ frame ∈ inbox.frames calls, frame.displayId = display) :
    ∃ front back, calls = front ++ .recv :: back ∧
      (∀ frame ∈ inbox.frames front, frame.displayId ≠ display) ∧
      ∃ frame ∈ (run after inbox front).returns .recv, frame.displayId = display := by
  induction calls generalizing inbox with
  | nil => simp [frames] at h
  | cons call calls ih =>
      by_cases hfirst : ∃ frame ∈ inbox.returns call, frame.displayId = display
      · obtain ⟨frame, hframe, hdisplay⟩ := hfirst
        cases call with
        | recv => exact ⟨[], calls, rfl, by simp [frames], frame, hframe, hdisplay⟩
        | publish other => simp [returns] at hframe
        | close => simp [returns] at hframe
      · obtain ⟨frame, hframe, hdisplay⟩ := h
        rw [frames, List.mem_append] at hframe
        have hlater := hframe.resolve_left fun hnow => hfirst ⟨frame, hnow, hdisplay⟩
        obtain ⟨front, back, hsplit, hwaits, hturn⟩ := ih ⟨frame, hlater, hdisplay⟩
        refine ⟨call :: front, back, by rw [hsplit, List.cons_append], ?_, hturn⟩
        intro other hother hsame
        rw [frames, List.mem_append] at hother
        cases hother with
        | inl hnow => exact hfirst ⟨other, hnow, hsame⟩
        | inr hlater => exact hwaits other hlater hsame

/-- Among the first `count` frames that the calls return there is one of the display,
if they return that many. -/
def Served (inbox : FrameInbox) (display : UInt32) (count : ℕ) (calls : List InboxCall) : Prop :=
  count ≤ (inbox.frames calls).length →
    ∃ frame ∈ (inbox.frames calls).take count, frame.displayId = display

/-- A monitor with a pending frame is served within the next `count` frames exactly
when, before one of those calls, `recv` was called at least as often as there were slots
behind it at first and as monitors came in behind it since. -/
theorem served_iff {inbox : FrameInbox} {display : UInt32}
    (hpending : display ∈ inbox.displayIds) (count : ℕ) (calls : List InboxCall) :
    inbox.Served display count calls ↔
      (count ≤ (inbox.frames calls).length →
        ∃ front back, calls = front ++ .recv :: back ∧ recvs front < count ∧
          inbox.behind display + inbox.arrivals front ≤ recvs front) := by
  apply imp_congr_right
  intro hcount
  constructor
  · intro hserved
    obtain ⟨frame, hframe, hdisplay⟩ := hserved
    obtain ⟨front, back, rfl, hwaits, last, hlast, hturn⟩ :=
      exists_first ⟨frame, List.mem_of_mem_take hframe, hdisplay⟩
    obtain ⟨hstays, hreturned, hbehind⟩ := behind_run hpending hwaits
    obtain ⟨slots, other, hslots⟩ := exists_last hstays
    have hother : other = last := by
      rw [(recv_of_slots hslots).1, List.mem_singleton] at hlast
      exact hlast.symm
    have hzero : (run after inbox front).behind display = 0 := by
      rw [behind_of_last hslots, hother]
      exact hturn
    refine ⟨front, back, rfl, ?_, by omega⟩
    -- The display is not among the frames of `front`, so it is found behind them.
    by_contra hlong
    rw [← hreturned, not_lt] at hlong
    rw [frames_append, List.take_append_of_le_length hlong] at hframe
    exact hwaits frame (List.mem_of_mem_take hframe) hdisplay
  · intro hturn
    obtain ⟨front, back, rfl, hshort, henough⟩ := hturn
    have hfew : (inbox.frames front).length < count :=
      (inbox.length_frames_le front).trans_lt hshort
    by_cases hearly : ∃ frame ∈ inbox.frames front, frame.displayId = display
    · obtain ⟨frame, hframe, hdisplay⟩ := hearly
      refine ⟨frame, ?_, hdisplay⟩
      rw [frames_append, List.take_append, List.take_of_length_le hfew.le]
      exact List.mem_append_left _ hframe
    · have hwaits : ∀ frame ∈ inbox.frames front, frame.displayId ≠ display :=
        fun frame hframe hdisplay => hearly ⟨frame, hframe, hdisplay⟩
      obtain ⟨hstays, -, hbehind⟩ := behind_run hpending hwaits
      obtain ⟨slots, last, hslots⟩ := exists_last hstays
      have hlast : last.displayId = display := by
        rw [← behind_of_last hslots]
        omega
      refine ⟨last, ?_, hlast⟩
      have hposition : count - (inbox.frames front).length ≠ 0 := by omega
      rw [frames_append, frames, (recv_of_slots hslots).1, List.take_append]
      apply List.mem_append_right
      rw [List.cons_append, List.take_cons (Nat.pos_of_ne_zero hposition)]
      exact List.mem_cons_self

/-! ## Two monitors -/

/-- A black picture of four pixels. -/
def blackFrame (displayId : UInt32) : RawFrame :=
  { displayId, width := 2, height := 2, i420 := [16, 16, 16, 16, 128, 128] }

/-- Both monitors have a pending frame. -/
def twoPending : FrameInbox :=
  run after {} [.publish (blackFrame 0), .publish (blackFrame 1)]

/-- Two monitors with a pending frame. -/
theorem served_iff_twoPending :
    twoPending.Served 0 2 [.recv, .recv] ↔
      (2 ≤ (twoPending.frames [.recv, .recv]).length →
        ∃ front back, [InboxCall.recv, .recv] = front ++ .recv :: back ∧ recvs front < 2 ∧
          twoPending.behind 0 + twoPending.arrivals front ≤ recvs front) :=
  served_iff (by decide) 2 [.recv, .recv]

/-- Monitor 1 publishes between the two calls, and both return a frame of it. -/
def busyMonitor : List InboxCall := [.recv, .publish (blackFrame 1), .recv]

/-- One monitor is busy, and the other one is not served. -/
theorem busyMonitor_starves :
    twoPending = run after {} [.publish (blackFrame 0), .publish (blackFrame 1)] ∧
      0 ∈ twoPending.displayIds ∧ 2 ≤ (twoPending.frames busyMonitor).length ∧
      ¬ twoPending.Served 0 2 busyMonitor := by
  have hframes : twoPending.frames busyMonitor = [blackFrame 1, blackFrame 1] := rfl
  refine ⟨rfl, by decide, by rw [hframes]; decide, ?_⟩
  intro hserved
  rw [Served, hframes] at hserved
  obtain ⟨frame, hframe, hdisplay⟩ := hserved (le_refl 2)
  have hsame : frame = blackFrame 1 := by simpa using hframe
  rw [hsame] at hdisplay
  exact absurd hdisplay (by decide)

end FrameInbox

end OmarchyConnect.Host
