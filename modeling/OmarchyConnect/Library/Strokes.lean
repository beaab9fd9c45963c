/-
# What is held down

A stroke presses a thing or releases it, and a thing is held when the last stroke of it
pressed it. Where strokes are passed on to a far end and some are dropped, a thing is
stuck that is held there and no longer here. A dropped stroke makes a thing stuck just
when it is the release of something that is held at the far end. Where a change is a
stroke, the strokes hold what was seen last.
-/

import Mathlib.Data.List.Basic

namespace OmarchyConnect.Library.Strokes

/-- A thing is pressed or released. -/
structure Stroke (α : Type) where
  thing : α
  pressed : Bool
  deriving DecidableEq

variable {α : Type} [DecidableEq α] {here there : List (Stroke α)}

/-- The last stroke of a thing pressed it. -/
def held (strokes : List (Stroke α)) (thing : α) : Bool :=
  strokes.foldl (fun held stroke => if stroke.thing = thing then stroke.pressed else held) false

/-- At first nothing is held. -/
@[simp]
theorem held_nil (thing : α) : held [] thing = false := rfl

/-- A stroke is the last one of its thing. -/
theorem held_concat (strokes : List (Stroke α)) (stroke : Stroke α) (thing : α) :
    held (strokes ++ [stroke]) thing =
      if stroke.thing = thing then stroke.pressed else held strokes thing := by
  simp [held]

/-- What is no longer held has been released. -/
theorem release_mem {strokes new : List (Stroke α)} {thing : α} (h : held strokes thing = true)
    (hnew : held (strokes ++ new) thing = false) : ⟨thing, false⟩ ∈ new := by
  induction new generalizing strokes with
  | nil =>
      rw [List.append_nil, h] at hnew
      exact Bool.noConfusion hnew
  | cons stroke new ih =>
      rw [← List.singleton_append, ← List.append_assoc] at hnew
      cases hfirst : held (strokes ++ [stroke]) thing with
      | true => exact List.mem_cons_of_mem stroke (ih hfirst hnew)
      | false =>
          rw [held_concat] at hfirst
          split_ifs at hfirst with heq
          · subst heq
            rw [← hfirst]
            exact List.mem_cons_self
          · exact Bool.noConfusion (h.symm.trans hfirst)

/-- A change is a stroke. -/
def changed (thing : α) (previous now : Bool) : List (Stroke α) :=
  if previous ≠ now then [⟨thing, now⟩] else []

/-- Behind a change the thing is held as it is seen now. -/
theorem held_changed {strokes : List (Stroke α)} {thing : α} {previous : Bool}
    (h : held strokes thing = previous) (now : Bool) (other : α) :
    held (strokes ++ changed thing previous now) other =
      if thing = other then now else held strokes other := by
  unfold changed
  split_ifs with hne heq heq
  · rw [held_concat, if_pos heq]
  · rw [held_concat, if_neg heq]
  · rw [List.append_nil, ← heq, h, not_ne_iff.mp hne]
  · rw [List.append_nil]

/-- Nothing is stuck. -/
def Clear (here there : List (Stroke α)) : Prop :=
  ∀ thing, held there thing = true → held here thing = true

/-- Without strokes nothing is stuck. -/
theorem Clear.nil : Clear ([] : List (Stroke α)) [] := fun _ h => h

/-- A stroke that is passed on makes nothing stuck. -/
theorem Clear.pass (h : Clear here there) (stroke : Stroke α) :
    Clear (here ++ [stroke]) (there ++ [stroke]) := by
  intro thing
  rw [held_concat, held_concat]
  split_ifs
  · exact id
  · exact h thing

/-- Dropping a stroke makes something stuck just when it releases what is held there. -/
theorem Clear.drop_iff (h : Clear here there) (stroke : Stroke α) :
    Clear (here ++ [stroke]) there ↔
      ¬ (stroke.pressed = false ∧ held there stroke.thing = true) := by
  constructor
  · rintro hclear ⟨hreleased, hheld⟩
    have hhere := hclear stroke.thing hheld
    rw [held_concat, if_pos rfl, hreleased] at hhere
    exact Bool.false_ne_true hhere
  · intro hharmless thing hheld
    rw [held_concat]
    split_ifs with heq
    · subst heq
      exact eq_true_of_ne_false fun hreleased => hharmless ⟨hreleased, hheld⟩
    · exact h thing hheld

end OmarchyConnect.Library.Strokes
