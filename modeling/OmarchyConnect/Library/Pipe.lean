/-
# A bounded queue in front of a bounded wire

Items wait at a producer, then in a queue that holds at most `capacity` of them, then at
a writer that holds one, and then on a wire that holds at most `room`. Whatever waits at
a full place stays where it is.
-/

import Mathlib.Data.List.Basic

namespace OmarchyConnect.Library

/-- Where items wait, from the producer to the wire. -/
structure Pipe (α : Type) where
  sends : List α := []
  queue : List α := []
  writing : Option α := none
  wire : List α := []

namespace Pipe

variable {α : Type} (pipe : Pipe α)

/-- The producer puts its next item into the queue. -/
def send (capacity : ℕ) : Pipe α :=
  match pipe.sends with
  | [] => pipe
  | item :: rest =>
      if pipe.queue.length < capacity then
        { pipe with sends := rest, queue := pipe.queue ++ [item] }
      else pipe

/-- The writer takes the next item out of the queue. -/
def poll : Pipe α :=
  match pipe.writing, pipe.queue with
  | none, item :: rest => { pipe with queue := rest, writing := some item }
  | _, _ => pipe

/-- The writer puts its item on the wire. -/
def wrote (room : ℕ) : Pipe α :=
  match pipe.writing with
  | none => pipe
  | some item =>
      if pipe.wire.length < room then
        { pipe with writing := none, wire := pipe.wire ++ [item] }
      else pipe

/-- What has left the producer and was not taken off the wire. -/
def sent : List α := pipe.wire ++ pipe.writing.toList ++ pipe.queue

/-- All items in their order, with those that the producer still has. -/
def content : List α := pipe.sent ++ pipe.sends

/-- Nothing is in it. -/
def Empty : Prop := pipe.sends = [] ∧ pipe.sent = []

/-- `P` holds of what is to be written and `Q` of what is written. -/
structure Holds (P Q : α → Prop) : Prop where
  queued : ∀ item ∈ pipe.sends ++ pipe.queue, P item
  written : ∀ item ∈ pipe.wire ++ pipe.writing.toList, Q item

/-- Nothing moves in it. -/
structure Stuck (capacity room : ℕ) : Prop where
  send : pipe.send capacity = pipe
  poll : pipe.poll = pipe
  wrote : pipe.wrote room = pipe

variable {pipe}

/-! ## Moves -/

/-- The producer is done, waits, or has put an item at the end of what was sent. -/
theorem send_cases (pipe : Pipe α) (capacity : ℕ) :
    (pipe.send capacity = pipe ∧ (pipe.sends = [] ∨ capacity ≤ pipe.queue.length)) ∨
      ∃ item rest, pipe.sends = item :: rest ∧ pipe.queue.length < capacity ∧
        pipe.send capacity = { pipe with sends := rest, queue := pipe.queue ++ [item] } := by
  unfold send
  cases hsends : pipe.sends with
  | nil => exact Or.inl ⟨rfl, Or.inl rfl⟩
  | cons item rest =>
      by_cases hroom : pipe.queue.length < capacity
      · exact Or.inr ⟨item, rest, rfl, hroom, if_pos hroom⟩
      · exact Or.inl ⟨if_neg hroom, Or.inr (Nat.le_of_not_lt hroom)⟩

/-- An item that moves into the queue is one more sent. -/
theorem sent_append_queue (pipe : Pipe α) (rest : List α) (item : α) :
    sent { pipe with sends := rest, queue := pipe.queue ++ [item] } = pipe.sent ++ [item] :=
  (List.append_assoc _ _ _).symm

/-- Polling the writer leaves the producer alone. -/
@[simp]
theorem sends_poll (pipe : Pipe α) : pipe.poll.sends = pipe.sends := by
  unfold poll
  split <;> rfl

/-- Writing leaves the producer alone. -/
@[simp]
theorem sends_wrote (pipe : Pipe α) (room : ℕ) : (pipe.wrote room).sends = pipe.sends := by
  unfold wrote
  split
  next => rfl
  next => split_ifs <;> rfl

/-- The writer keeps what was sent in its order. -/
@[simp]
theorem sent_poll (pipe : Pipe α) : pipe.poll.sent = pipe.sent := by
  unfold poll
  split
  next hwriting hqueue => simp [sent, hwriting, hqueue]
  next => rfl

/-- Writing moves an item on and sends none. -/
@[simp]
theorem sent_wrote (pipe : Pipe α) (room : ℕ) : (pipe.wrote room).sent = pipe.sent := by
  unfold wrote
  split
  next => rfl
  next hwriting =>
    split_ifs
    · simp [sent, hwriting]
    · rfl

/-- Nothing is lost, doubled or overtaken. -/
theorem content_send (pipe : Pipe α) (capacity : ℕ) :
    (pipe.send capacity).content = pipe.content := by
  cases pipe.send_cases capacity with
  | inl hkept => rw [hkept.1]
  | inr hmoved =>
      obtain ⟨item, rest, hsends, -, hsend⟩ := hmoved
      rw [hsend, content, sent_append_queue, content, hsends, List.append_assoc,
        List.singleton_append]

/-- Polling the writer keeps the items and their order. -/
theorem content_poll (pipe : Pipe α) : pipe.poll.content = pipe.content := by
  rw [content, sent_poll, sends_poll, content]

/-- Writing keeps the items and their order. -/
theorem content_wrote (pipe : Pipe α) (room : ℕ) : (pipe.wrote room).content = pipe.content := by
  rw [content, sent_wrote, sends_wrote, content]

section

variable {P Q : α → Prop}

/-- Sending keeps what holds of the items. -/
theorem Holds.send (h : pipe.Holds P Q) (capacity : ℕ) : (pipe.send capacity).Holds P Q := by
  cases pipe.send_cases capacity with
  | inl hkept => rwa [hkept.1]
  | inr hmoved =>
      obtain ⟨item, rest, hsends, -, hsend⟩ := hmoved
      rw [hsend]
      refine ⟨fun other hother => h.queued other ?_, h.written⟩
      rw [hsends]
      simp only [List.mem_append, List.mem_cons, List.not_mem_nil, or_false] at hother ⊢
      tauto

/-- Polling the writer keeps what holds of the items, as one that moves on holds less. -/
theorem Holds.poll (h : pipe.Holds P Q) (hpq : ∀ item, P item → Q item) :
    pipe.poll.Holds P Q := by
  unfold Pipe.poll
  split
  next item rest hwriting hqueue =>
    have hqueued := h.queued
    have hwritten := h.written
    rw [hqueue] at hqueued
    rw [hwriting] at hwritten
    constructor
    · intro other hother
      refine hqueued other ?_
      simp only [List.mem_append, List.mem_cons] at hother ⊢
      tauto
    · intro other hother
      rcases List.mem_append.mp hother with hwire | hnew
      · exact hwritten other (List.mem_append_left _ hwire)
      · obtain rfl : other = item := by simpa using hnew
        exact hpq other (hqueued other (by simp))
  next => exact h

/-- Writing keeps what holds of the items. -/
theorem Holds.wrote (h : pipe.Holds P Q) (room : ℕ) : (pipe.wrote room).Holds P Q := by
  unfold Pipe.wrote
  split
  next => exact h
  next item hwriting =>
    split_ifs
    · refine ⟨h.queued, fun other hother => h.written other ?_⟩
      rw [hwriting]
      simpa using hother
    · exact h

end

/-! ## Standstill -/

/-- The producer only waits at a full queue. -/
theorem Stuck.sends_eq_nil {capacity room : ℕ} (hstuck : pipe.Stuck capacity room)
    (hqueue : pipe.queue.length < capacity) : pipe.sends = [] := by
  cases pipe.send_cases capacity with
  | inl hkept => exact hkept.2.resolve_right (Nat.not_le.mpr hqueue)
  | inr hmoved =>
      obtain ⟨item, rest, hsends, -, hsend⟩ := hmoved
      have hsame := congrArg Pipe.sends (hsend.symm.trans hstuck.send)
      rw [hsends] at hsame
      exact absurd hsame.symm (List.cons_ne_self _ _)

/-- A pipe that does not move has something on its wire, or it is empty. -/
theorem Stuck.empty {capacity room : ℕ} (hstuck : pipe.Stuck capacity room)
    (hcapacity : 0 < capacity) (hroom : 0 < room) (hwire : pipe.wire = []) : pipe.Empty := by
  have hwriting : pipe.writing = none := by
    cases hwriting : pipe.writing with
    | none => rfl
    | some item =>
        have hsame := congrArg Pipe.writing hstuck.wrote
        simp [Pipe.wrote, hwriting, hwire, hroom] at hsame
  have hqueue : pipe.queue = [] := by
    cases hitems : pipe.queue with
    | nil => rfl
    | cons item rest =>
        have hsame := congrArg Pipe.writing hstuck.poll
        simp [Pipe.poll, hwriting, hitems] at hsame
  refine ⟨hstuck.sends_eq_nil ?_, ?_⟩
  · rwa [hqueue]
  · simp [sent, hwire, hwriting, hqueue]

end Pipe

end OmarchyConnect.Library
