/-
# The inbox between capture and encoder

A `FrameInbox` has one slot for each monitor. The capture thread publishes frames,
the session receives them, and each call here is one atomic step; what can happen
between the steps of a call is the subject of `InboxWakeup`.

To say which frame a call returned, a ledger stamps each frame with the place of its
publication and follows the same calls. What holds of the ledger at all times is one
invariant, and the guarantees of the inbox are read off it.
-/

import OmarchyConnect.Host.Session
import OmarchyConnect.Library.Slots

namespace OmarchyConnect.Host

open OmarchyConnect.Library.Runs OmarchyConnect.Library.Slots

/-- `FrameInbox`. -/
structure FrameInbox where
  slots : List RawFrame := []
  closed : Bool := false

namespace FrameInbox

/-- `FrameInbox::close`. -/
def close (inbox : FrameInbox) : FrameInbox := { inbox with closed := true }

/-- `FrameInbox::publish`. -/
def publish (inbox : FrameInbox) (frame : RawFrame) : FrameInbox :=
  { inbox with slots := put RawFrame.displayId inbox.slots frame }

/-- What a call of `recv` returns, or `none` while it has to wait. -/
def recv (inbox : FrameInbox) : Option (Option RawFrame) × FrameInbox :=
  match inbox.slots.getLast? with
  | some frame => (some (some frame), { inbox with slots := inbox.slots.dropLast })
  | none => if inbox.closed then (some none, inbox) else (none, inbox)

end FrameInbox

/-- The calls on an inbox. -/
inductive InboxCall
  | publish (frame : RawFrame)
  | close
  | recv

/-- An inbox with what its completed calls of `recv` returned. -/
structure InboxRun where
  inbox : FrameInbox := {}
  results : List (Option RawFrame) := []

/-- A call of the inbox; `recv` is one that completes, or waits. -/
def InboxRun.step (state : InboxRun) : InboxCall → InboxRun
  | .publish frame => { state with inbox := state.inbox.publish frame }
  | .close => { state with inbox := state.inbox.close }
  | .recv =>
      match state.inbox.recv with
      | (none, inbox) => { state with inbox }
      | (some result, inbox) => { inbox, results := state.results ++ [result] }

/-! ## The ledger -/

/-- A frame with the place of its publication. -/
structure Stamped where
  stamp : ℕ
  frame : RawFrame

/-- The display of a stamped frame. -/
def Stamped.displayId (item : Stamped) : UInt32 := item.frame.displayId

/-- What is remembered of an inbox: each frame with the number of its publication. -/
structure Ledger where
  slots : List Stamped := []
  closed : Bool := false
  published : List RawFrame := []
  results : List (Option Stamped) := []

namespace Ledger

/-- A call, with what it is to remember. -/
def step (ledger : Ledger) : InboxCall → Ledger
  | .publish frame =>
      { ledger with
        slots := put Stamped.displayId ledger.slots ⟨ledger.published.length, frame⟩
        published := ledger.published ++ [frame] }
  | .close => { ledger with closed := true }
  | .recv =>
      match ledger.slots.getLast? with
      | some item =>
          { ledger with
            slots := ledger.slots.dropLast
            results := ledger.results ++ [some item] }
      | none =>
          if ledger.closed then { ledger with results := ledger.results ++ [none] } else ledger

/-- The inbox without the stamps. -/
def view (ledger : Ledger) : InboxRun where
  inbox := { slots := ledger.slots.map Stamped.frame, closed := ledger.closed }
  results := ledger.results.map fun result => result.map Stamped.frame

/-- The ledger follows the inbox call by call. -/
theorem view_step (ledger : Ledger) (call : InboxCall) :
    (ledger.step call).view = ledger.view.step call := by
  cases call with
  | publish frame =>
      have hput := map_put RawFrame.displayId Stamped.frame ledger.slots
        ⟨ledger.published.length, frame⟩
      exact congrArg (fun slots => InboxRun.mk ⟨slots, ledger.closed⟩ ledger.view.results) hput
  | close => rfl
  | recv =>
      rw [step, InboxRun.step, FrameInbox.recv]
      cases hlast : ledger.slots.getLast? with
      | some item => simp [view, hlast, List.map_dropLast]
      | none => cases hclosed : ledger.closed <;> simp [view, hlast, hclosed]

/-- The frames that were received, with their stamps. -/
def received (ledger : Ledger) : List Stamped := ledger.results.filterMap id

/-! ## What holds at all times -/

/-- What the remembered frames say of each other. -/
structure Inv (ledger : Ledger) : Prop where
  distinct : Distinct Stamped.displayId ledger.slots
  pending : ∀ item ∈ ledger.slots, ledger.published[item.stamp]? = some item.frame
  newest : ∀ item ∈ ledger.slots, ∀ stamp frame, ledger.published[stamp]? = some frame →
    frame.displayId = item.displayId → stamp ≤ item.stamp
  received : ∀ item ∈ ledger.received, ledger.published[item.stamp]? = some item.frame
  before : ∀ item ∈ ledger.slots, ∀ old ∈ ledger.received,
    old.displayId = item.displayId → old.stamp < item.stamp
  later : ledger.received.Pairwise fun old item =>
    old.displayId = item.displayId → old.stamp < item.stamp

/-- At first nothing was published. -/
theorem inv_start : Inv {} := by
  constructor
  case distinct => exact List.nodup_nil
  case later => exact List.Pairwise.nil
  all_goals simp [received]

/-- A publication stays where it is. -/
theorem getElem?_append_of_some {published : List RawFrame} {stamp : ℕ} {frame : RawFrame}
    (h : published[stamp]? = some frame) (more : List RawFrame) :
    (published ++ more)[stamp]? = some frame := by
  rw [List.getElem?_append_left (List.getElem?_eq_some_iff.mp h).1, h]

/-- Behind a publication its frame is pending, and of the others those of other displays. -/
theorem mem_publish {ledger : Ledger} (h : Distinct Stamped.displayId ledger.slots)
    (frame : RawFrame) (item : Stamped) :
    item ∈ (ledger.step (.publish frame)).slots ↔
      item = ⟨ledger.published.length, frame⟩ ∨
        (item ∈ ledger.slots ∧ item.displayId ≠ frame.displayId) :=
  mem_put Stamped.displayId h

/-- A publication keeps the invariant: its frame is the newest of its display. -/
theorem Inv.publish {ledger : Ledger} (h : Inv ledger) (frame : RawFrame) :
    Inv (ledger.step (.publish frame)) := by
  have hslots := mem_publish h.distinct frame
  constructor
  case distinct => exact h.distinct.put Stamped.displayId _
  case pending =>
    intro item hitem
    obtain rfl | ⟨hold, -⟩ := (hslots item).mp hitem
    · simp [step]
    · exact getElem?_append_of_some (h.pending item hold) [frame]
  case newest =>
    intro item hitem stamp other hother hsame
    simp only [step] at hother
    have hle : stamp ≤ ledger.published.length := by
      have hlt := (List.getElem?_eq_some_iff.mp hother).1
      rw [List.length_append, List.length_singleton] at hlt
      omega
    obtain rfl | ⟨hold, hne⟩ := (hslots item).mp hitem
    · exact hle
    · by_cases hlast : stamp = ledger.published.length
      · rw [hlast, List.getElem?_concat_length] at hother
        cases hother
        exact absurd hsame.symm hne
      · rw [List.getElem?_append_left (by omega)] at hother
        exact h.newest item hold stamp other hother hsame
  case received =>
    intro item hitem
    exact getElem?_append_of_some (h.received item hitem) [frame]
  case before =>
    intro item hitem old hreceived hsame
    obtain rfl | ⟨hold, -⟩ := (hslots item).mp hitem
    · exact (List.getElem?_eq_some_iff.mp (h.received old hreceived)).1
    · exact h.before item hold old hreceived hsame
  case later => exact h.later

/-- What a `recv` does: take the last slot, say that the capture has ended, or wait. -/
theorem recv_cases (ledger : Ledger) :
    (∃ slots item, ledger.slots = slots ++ [item] ∧
      ledger.step .recv = { ledger with slots, results := ledger.results ++ [some item] }) ∨
    (ledger.slots = [] ∧ ledger.closed = true ∧
      ledger.step .recv = { ledger with results := ledger.results ++ [none] }) ∨
    (ledger.slots = [] ∧ ledger.closed = false ∧ ledger.step .recv = ledger) := by
  rw [step]
  cases hlast : ledger.slots.getLast? with
  | some item =>
      obtain ⟨slots, hslots⟩ := List.getLast?_eq_some_iff.mp hlast
      exact Or.inl ⟨slots, item, hslots, by rw [hslots, List.dropLast_concat]⟩
  | none =>
      have hnil := List.getLast?_eq_none_iff.mp hlast
      cases hclosed : ledger.closed with
      | true => exact Or.inr (Or.inl ⟨hnil, rfl, rfl⟩)
      | false => exact Or.inr (Or.inr ⟨hnil, rfl, rfl⟩)

/-- Receiving moves the last slot behind what was received before. -/
theorem Inv.recv {ledger : Ledger} (h : Inv ledger) : Inv (ledger.step .recv) := by
  obtain ⟨slots, item, hslots, hstep⟩ | ⟨-, -, hstep⟩ | ⟨-, -, hstep⟩ := recv_cases ledger
  · have hmem : ∀ other ∈ slots, other ∈ ledger.slots := by
      intro other hother
      rw [hslots]
      exact List.mem_append_left _ hother
    have hitem : item ∈ ledger.slots := by simp [hslots]
    have hreceived : (ledger.step .recv).received = ledger.received ++ [item] := by
      rw [hstep]
      simp [Ledger.received]
    have hdistinct := h.distinct
    rw [hslots, Distinct, List.map_append, List.nodup_append] at hdistinct
    constructor
    case distinct =>
      rw [hstep]
      exact hdistinct.1
    case pending =>
      rw [hstep]
      exact fun other hother => h.pending other (hmem other hother)
    case newest =>
      rw [hstep]
      exact fun other hother => h.newest other (hmem other hother)
    case received =>
      intro other hother
      rw [hreceived, List.mem_append, List.mem_singleton] at hother
      rw [hstep]
      obtain hother | rfl := hother
      · exact h.received other hother
      · exact h.pending other hitem
    case before =>
      intro other hother old hold hsame
      rw [hreceived, List.mem_append, List.mem_singleton] at hold
      rw [hstep] at hother
      obtain hold | rfl := hold
      · exact h.before other (hmem other hother) old hold hsame
      · have hne := hdistinct.2.2 other.displayId (List.mem_map_of_mem hother) old.displayId
          (by simp)
        exact absurd hsame.symm hne
    case later =>
      rw [hreceived, List.pairwise_append]
      refine ⟨h.later, List.pairwise_singleton _ _, ?_⟩
      intro old hold other hother hsame
      rw [List.mem_singleton] at hother
      rw [hother] at hsame ⊢
      exact h.before item hitem old hold hsame
  · have hreceived : (ledger.step .recv).received = ledger.received := by
      rw [hstep]
      simp [Ledger.received]
    rw [hstep] at hreceived ⊢
    exact ⟨h.distinct, h.pending, h.newest, by rw [hreceived]; exact h.received,
      by rw [hreceived]; exact h.before, by rw [hreceived]; exact h.later⟩
  · rw [hstep]
    exact h

/-- A call keeps what is remembered right. -/
theorem Inv.step {ledger : Ledger} (h : Inv ledger) (call : InboxCall) :
    Inv (ledger.step call) := by
  cases call with
  | publish frame => exact h.publish frame
  | close => exact ⟨h.distinct, h.pending, h.newest, h.received, h.before, h.later⟩
  | recv => exact h.recv

/-- What is remembered is right in every run. -/
theorem inv_run (calls : List InboxCall) : Inv (run step {} calls) :=
  invariant_of_step step Inv (fun _ call h => h.step call) inv_start calls

/-! ## What the inbox guarantees -/

/-- Receiving until nothing is left takes the slots from the end. -/
theorem drain (ledger : Ledger) {slots : List Stamped} (hslots : ledger.slots = slots) :
    run step ledger (List.replicate slots.length .recv) =
      { ledger with slots := [], results := ledger.results ++ slots.reverse.map some } := by
  induction slots using List.reverseRecOn generalizing ledger with
  | nil =>
      have hsame : { ledger with slots := [] } = ledger := by rw [← hslots]
      simpa using hsame.symm
  | append_singleton slots item ih =>
      have hstep : ledger.step .recv =
          { ledger with slots, results := ledger.results ++ [some item] } := by
        rw [step, hslots]
        simp
      rw [List.length_append, List.length_singleton, List.replicate_succ, run_cons, hstep, ih _ rfl]
      simp

/-- The guarantees of the inbox over a list of calls, told with the stamps of the
frames: `view` says that the stamped run is the run of the inbox. -/
structure Keeps (calls : List InboxCall) : Prop where
  view : (run step {} calls).view = run InboxRun.step {} calls
  onePerDisplay : Distinct Stamped.displayId (run step {} calls).slots
  received : ∀ item ∈ (run step {} calls).received,
    (run step {} calls).published[item.stamp]? = some item.frame
  later : ∀ display, (((run step {} calls).received.filter fun item =>
    item.displayId = display).map Stamped.stamp).Pairwise (· < ·)
  published : ∀ front frame back, calls = front ++ .publish frame :: back →
    ⟨(run step {} front).published.length, frame⟩ ∈
      ((run step {} front).step (.publish frame)).slots
  dropped : ∀ front call back, calls = front ++ call :: back →
    ∀ item ∈ (run step {} front).slots, item ∉ ((run step {} front).step call).slots →
      (call = .recv ∧ ((run step {} front).step call).results =
        (run step {} front).results ++ [some item]) ∨
      ∃ frame, call = .publish frame ∧ frame.displayId = item.displayId
  ended : ∀ front back, calls = front ++ .recv :: back →
    ((run step {} front).step .recv).results = (run step {} front).results ++ [none] →
      .close ∈ front ∧ (run step {} front).slots = []
  newest : ∀ item ∈ (run step {} calls).slots,
    (run step {} calls).published[item.stamp]? = some item.frame ∧
      ∀ stamp frame, (run step {} calls).published[stamp]? = some frame →
        frame.displayId = item.displayId → stamp ≤ item.stamp
  drained : ∀ pending, (run step {} calls).slots = pending →
    (run step {} (calls ++ List.replicate pending.length .recv)).results =
      (run step {} calls).results ++ pending.reverse.map some

/-- Only `close` closes the inbox. -/
theorem closed_run (calls : List InboxCall) (h : (run step {} calls).closed = true) :
    .close ∈ calls := by
  induction calls using List.reverseRecOn with
  | nil => cases h
  | append_singleton calls call ih =>
      rw [run_append_singleton] at h
      cases call with
      | close => simp
      | publish frame => exact List.mem_append_left _ (ih h)
      | recv =>
          obtain ⟨slots, item, -, hstep⟩ | ⟨-, hclosed, -⟩ | ⟨-, -, hstep⟩ :=
            recv_cases (run step {} calls)
          · rw [hstep] at h
            exact List.mem_append_left _ (ih h)
          · exact List.mem_append_left _ (ih hclosed)
          · rw [hstep] at h
            exact List.mem_append_left _ (ih h)

/-- The inbox keeps the newest picture of each monitor and never repeats one. -/
theorem keeps (calls : List InboxCall) : Keeps calls := by
  have hinv := inv_run calls
  constructor
  case view => exact run_map step view view_step {} calls
  case onePerDisplay => exact hinv.distinct
  case received => exact hinv.received
  case later =>
    intro display
    rw [List.pairwise_map, List.pairwise_filter]
    apply hinv.later.imp
    intro old item hlater hold hitem
    simp only [decide_eq_true_eq] at hold hitem
    exact hlater (hold.trans hitem.symm)
  case published =>
    intro front frame back _
    exact (mem_publish (inv_run front).distinct frame _).mpr (Or.inl rfl)
  case dropped =>
    intro front call back _ item hitem hgone
    cases call with
    | publish frame =>
        by_cases hsame : frame.displayId = item.displayId
        · exact Or.inr ⟨frame, rfl, hsame⟩
        · have hother : item.displayId ≠ frame.displayId := fun heq => hsame heq.symm
          have hkept := mem_publish (inv_run front).distinct frame item
          exact absurd (hkept.mpr (Or.inr ⟨hitem, hother⟩)) hgone
    | close => exact absurd hitem hgone
    | recv =>
        obtain ⟨slots, last, hslots, hstep⟩ | ⟨hnil, -, -⟩ | ⟨hnil, -, -⟩ :=
          recv_cases (run step {} front)
        · rw [hslots, List.mem_append, List.mem_singleton] at hitem
          rw [hstep] at hgone ⊢
          obtain hitem | rfl := hitem
          · exact absurd hitem hgone
          · exact Or.inl ⟨rfl, rfl⟩
        · rw [hnil] at hitem
          exact absurd hitem List.not_mem_nil
        · rw [hnil] at hitem
          exact absurd hitem List.not_mem_nil
  case ended =>
    intro front back _ hresults
    obtain ⟨slots, last, -, hstep⟩ | ⟨hnil, hclosed, -⟩ | ⟨-, -, hstep⟩ :=
      recv_cases (run step {} front)
    · rw [hstep] at hresults
      simp at hresults
    · exact ⟨closed_run front hclosed, hnil⟩
    · rw [hstep] at hresults
      simp at hresults
  case newest => exact fun item hitem => ⟨hinv.pending item hitem, hinv.newest item hitem⟩
  case drained =>
    intro pending hpending
    rw [run_append, drain _ hpending]

end Ledger

end OmarchyConnect.Host
