/-
# Runs of a deterministic system

A system takes one event after another. `run` is the state after a list of events
and `Along` says that something holds of every step, with the state before it and
the event. An invariant that a step keeps wherever `Along` is known is an
invariant of the whole run.
-/

import Mathlib.Data.List.Basic

namespace OmarchyConnect.Library.Runs

variable {σ ε : Type} (step : σ → ε → σ)

/-- The state after the events. -/
def run (state : σ) (events : List ε) : σ := events.foldl step state

/-- No event changes nothing. -/
@[simp]
theorem run_nil (state : σ) : run step state [] = state := rfl

/-- The first event is taken first. -/
@[simp]
theorem run_cons (state : σ) (event : ε) (events : List ε) :
    run step state (event :: events) = run step (step state event) events := rfl

/-- A run goes on where its first part ended. -/
theorem run_append (state : σ) (first second : List ε) :
    run step state (first ++ second) = run step (run step state first) second := by
  simp [run]

/-- The last event is taken last. -/
theorem run_append_singleton (state : σ) (events : List ε) (event : ε) :
    run step state (events ++ [event]) = step (run step state events) event := by
  simp [run]

/-- `P` holds of every step of the run. -/
def Along (P : σ → ε → Prop) (state : σ) : List ε → Prop
  | [] => True
  | event :: events => P state event ∧ Along P (step state event) events

/-- Nothing is required of no steps. -/
@[simp]
theorem along_nil (P : σ → ε → Prop) (state : σ) : Along step P state [] := trivial

/-- The first step, and then the others. -/
theorem along_cons (P : σ → ε → Prop) (state : σ) (event : ε) (events : List ε) :
    Along step P state (event :: events) ↔
      P state event ∧ Along step P (step state event) events := Iff.rfl

/-- The steps of the first part, and then those of the second. -/
theorem along_append (P : σ → ε → Prop) (state : σ) (first second : List ε) :
    Along step P state (first ++ second) ↔
      Along step P state first ∧ Along step P (run step state first) second := by
  induction first generalizing state with
  | nil => simp
  | cons event first ih => rw [List.cons_append, along_cons, along_cons, ih, run_cons, and_assoc]

/-- The run rule: what every step keeps, wherever `P` holds of it, every run along
which `P` holds keeps. -/
theorem invariant_run (Inv : σ → Prop) {P : σ → ε → Prop}
    (hstep : ∀ s e, Inv s → P s e → Inv (step s e)) {state : σ} (hstart : Inv state)
    {events : List ε} (halong : Along step P state events) : Inv (run step state events) := by
  induction events generalizing state with
  | nil => exact hstart
  | cons event events ih => exact ih (hstep state event hstart halong.1) halong.2

/-- The run rule without a condition on the steps. -/
theorem invariant_of_step (Inv : σ → Prop) (hstep : ∀ s e, Inv s → Inv (step s e))
    {state : σ} (hstart : Inv state) (events : List ε) : Inv (run step state events) := by
  induction events generalizing state with
  | nil => exact hstart
  | cons event events ih => exact ih (hstep state event hstart)

/-- What holds of all events holds along the run. -/
theorem along_of_mem {Ok : ε → Prop} (state : σ) {events : List ε}
    (hok : ∀ event ∈ events, Ok event) : Along step (fun _ event => Ok event) state events := by
  induction events generalizing state with
  | nil => trivial
  | cons event events ih =>
      exact ⟨hok event List.mem_cons_self,
        ih (step state event) fun later hlater => hok later (List.mem_cons_of_mem event hlater)⟩

/-- The run rule with a condition on the events alone. -/
theorem invariant_of_mem (Inv : σ → Prop) (Ok : ε → Prop)
    (hstep : ∀ s e, Inv s → Ok e → Inv (step s e)) {state : σ} (hstart : Inv state)
    {events : List ε} (hok : ∀ event ∈ events, Ok event) : Inv (run step state events) :=
  invariant_run step Inv hstep hstart (along_of_mem step state hok)

/-- What an invariant gives for one step holds along the whole run. -/
theorem along_of_invariant (Inv : σ → Prop) {P : σ → ε → Prop}
    (hstep : ∀ s e, Inv s → Inv (step s e)) (himp : ∀ s e, Inv s → P s e) {state : σ}
    (hstart : Inv state) (events : List ε) : Along step P state events := by
  induction events generalizing state with
  | nil => trivial
  | cons event events ih => exact ⟨himp state event hstart, ih (hstep state event hstart)⟩

/-- What an invariant gives for one step, where `Ok` is known of every step. -/
theorem along_of_along (Inv : σ → Prop) {Ok P : σ → ε → Prop}
    (hstep : ∀ s e, Inv s → Ok s e → Inv (step s e)) (himp : ∀ s e, Inv s → Ok s e → P s e)
    {state : σ} (hstart : Inv state) {events : List ε} (hok : Along step Ok state events) :
    Along step P state events := by
  induction events generalizing state with
  | nil => trivial
  | cons event events ih =>
      exact ⟨himp state event hstart hok.1, ih (hstep state event hstart hok.1) hok.2⟩

/-- When a step that is not bad keeps an invariant that gives `P`, and a bad one leads
to a state without `P`, all states of a run have `P` just when no step of it is bad.
`Ok` is what is known of every step. -/
theorem prefixes_iff_along_of_ok {Inv P : σ → Prop} {Ok Bad : σ → ε → Prop}
    (hkeep : ∀ s e, Inv s → Ok s e → ¬ Bad s e → Inv (step s e)) (hgives : ∀ s, Inv s → P s)
    (hbad : ∀ s e, Inv s → Ok s e → Bad s e → ¬ P (step s e)) {state : σ} (hstart : Inv state)
    {events : List ε} (hok : Along step Ok state events) :
    (∀ front, front <+: events → P (run step state front)) ↔
      Along step (fun s e => ¬ Bad s e) state events := by
  induction events generalizing state with
  | nil => simpa using hgives state hstart
  | cons event events ih =>
      rw [along_cons]
      constructor
      · intro hall
        have hgood : ¬ Bad state event := by
          intro hbadStep
          exact hbad state event hstart hok.1 hbadStep (hall [event] (by simp))
        have hnext := hkeep state event hstart hok.1 hgood
        refine ⟨hgood, (ih hnext hok.2).mp fun front hfront => ?_⟩
        exact hall (event :: front) ((List.prefix_cons_inj event).mpr hfront)
      · intro hall front hfront
        cases front with
        | nil => exact hgives state hstart
        | cons head front =>
            obtain ⟨rfl, hrest⟩ := List.cons_prefix_cons.mp hfront
            exact (ih (hkeep state head hstart hok.1 hall.1) hok.2).mpr hall.2 front hrest

/-- The same where nothing has to be known of the steps. -/
theorem prefixes_iff_along_of_inv {Inv P : σ → Prop} {Bad : σ → ε → Prop}
    (hkeep : ∀ s e, Inv s → ¬ Bad s e → Inv (step s e)) (hgives : ∀ s, Inv s → P s)
    (hbad : ∀ s e, Inv s → Bad s e → ¬ P (step s e)) {state : σ} (hstart : Inv state)
    (events : List ε) :
    (∀ front, front <+: events → P (run step state front)) ↔
      Along step (fun s e => ¬ Bad s e) state events := by
  have hall : Along step (fun _ _ => True) state events :=
    along_of_invariant step (fun _ => True) (fun _ _ _ => trivial) (fun _ _ _ => trivial) trivial
      events
  exact prefixes_iff_along_of_ok step (fun s e h _ => hkeep s e h) hgives
    (fun s e h _ => hbad s e h) hstart hall

/-- When a step from a good state leads to a good state just when it is not bad,
all states of a run are good just when no step of it is bad. -/
theorem prefixes_iff_along {Good : σ → Prop} {Bad : σ → ε → Prop}
    (hstep : ∀ s e, Good s → (Good (step s e) ↔ ¬ Bad s e)) {state : σ} (hstart : Good state)
    (events : List ε) :
    (∀ front, front <+: events → Good (run step state front)) ↔
      Along step (fun s e => ¬ Bad s e) state events :=
  prefixes_iff_along_of_inv step (fun s e hgood => (hstep s e hgood).mpr) (fun _ hgood => hgood)
    (fun s e hgood hbad hnext => (hstep s e hgood).mp hnext hbad) hstart events

/-- Properties of a step that agree wherever an invariant holds agree along runs. -/
theorem along_congr (Inv : σ → Prop) {P Q : σ → ε → Prop}
    (hstep : ∀ s e, Inv s → Inv (step s e)) (hiff : ∀ s e, Inv s → (P s e ↔ Q s e)) {state : σ}
    (hstart : Inv state) (events : List ε) :
    Along step P state events ↔ Along step Q state events := by
  induction events generalizing state with
  | nil => exact Iff.rfl
  | cons event events ih =>
      rw [along_cons, along_cons, hiff state event hstart, ih (hstep state event hstart)]

/-- A run seen through a map that goes in step. -/
theorem run_map {τ : Type} {other : τ → ε → τ} (view : σ → τ)
    (hview : ∀ s e, view (step s e) = other (view s) e) (state : σ) (events : List ε) :
    view (run step state events) = run other (view state) events := by
  induction events generalizing state with
  | nil => rfl
  | cons event events ih => rw [run_cons, run_cons, ih, hview]

end OmarchyConnect.Library.Runs
