/-
# The publisher of the accept loop

Every step of the accept loop is a step of the publisher, or leaves it alone, so the
publisher of a run of the loop has itself made a run.

Where the calls of the updates all succeed, the host is where it would be if an update
took no time: `settledStep` is the loop without the calls, and nothing of it looks at the
files.
-/

import OmarchyConnect.Host.Serving

namespace OmarchyConnect.Host

open OmarchyConnect.Library OmarchyConnect.Library.Wire OmarchyConnect.Library.Runs
open OmarchyConnect.Protocol

variable {crypto : PinCrypto} {demo : Bool} {json : LiveJson}

/-- The process lives on, and the calls of the publisher succeed. -/
def ServingEvent.Succeeds : ServingEvent crypto → Prop
  | .died => False
  | .stopped _ => False
  | .call .fail => False
  | _ => True

namespace Serving

variable {serving : Serving crypto}

/-! ## The publisher -/

/-- A step of the loop is a step of the publisher, or leaves it alone. -/
def Publishes (json : LiveJson) (event : ServingEvent crypto) (serving after : Serving crypto) :
    Prop :=
  after.publisher = serving.publisher ∨
    ∃ made, after.publisher = serving.publisher.step json.toVecPretty 0 made ∧
      (event.Succeeds → made.Succeeds)

/-- A change to the state in memory is a step of the publisher, if there is one. -/
theorem publishes_updateIf (event : ServingEvent crypto) (serving : Serving crypto)
    (change : Option (LiveState → LiveState)) :
    Publishes json event serving (serving.updateIf change) := by
  cases change with
  | none => exact Or.inl rfl
  | some change =>
      exact Or.inr ⟨.change (change serving.publisher.memory), rfl, fun _ => trivial⟩

/-- What each move is to the publisher. -/
theorem Moves.publishes {event : ServingEvent crypto} {after : Serving crypto}
    (h : serving.Moves demo json event after) : Publishes json event serving after := by
  cases h with
  | booted process => exact Or.inr ⟨.change _, rfl, fun _ => trivial⟩
  | died => exact Or.inr ⟨.died, rfl, False.elim⟩
  | signal =>
      refine Or.inl ?_
      unfold disconnectCurrent
      split <;> rfl
  | handshake peer name event unix error =>
      exact publishes_updateIf _ serving (serving.shakeChange demo peer name event unix)
  | opened => exact Or.inr ⟨.change _, rfl, fun _ => trivial⟩
  | reported => exact Or.inr ⟨.change _, rfl, fun _ => trivial⟩
  | stopped removed =>
      cases removed with
      | true => exact Or.inr ⟨.call .remove, rfl, False.elim⟩
      | false => exact Or.inl rfl
  | call call hcall =>
      refine Or.inr ⟨.call call, rfl, fun hok => ?_⟩
      cases call with
      | remove => exact absurd rfl hcall
      | fail => exact hok.elim
      | _ => trivial
  | _ => exact Or.inl rfl

/-- The publisher of a run of the loop has itself made a run. -/
theorem publisher_run (demo : Bool) (json : LiveJson) (serving : Serving crypto)
    (events : List (ServingEvent crypto)) :
    ∃ made, (run (step demo json) serving events).publisher =
        run (Published.step json.toVecPretty 0) serving.publisher made ∧
      ((∀ event ∈ events, event.Succeeds) → ∀ event ∈ made, Published.Event.Succeeds event) := by
  induction events generalizing serving with
  | nil => exact ⟨[], rfl, by simp⟩
  | cons event events ih =>
      obtain ⟨made, hrun, hmade⟩ := ih (serving.step demo json event)
      rcases (serving.moves_step demo json event).publishes with hsame | ⟨first, hfirst, hok⟩
      · refine ⟨made, ?_, fun hall => hmade fun later hlater => hall later (by simp [hlater])⟩
        rw [run_cons, hrun, hsame]
      · refine ⟨first :: made, ?_, fun hall other hother => ?_⟩
        · rw [run_cons, hrun, hfirst, run_cons]
        · rcases List.mem_cons.mp hother with rfl | hlater
          · exact hok (hall event (by simp))
          · exact hmade (fun later hlater => hall later (by simp [hlater])) other hlater

/-! ## Updates that are written out -/

/-- The calls of the update that is under way. -/
def publishing (json : LiveJson) (serving : Serving crypto) : List (ServingEvent crypto) :=
  match serving.publisher.writer with
  | .changed => (Published.calls json.toVecPretty serving.publisher.memory).map .call
  | _ => []

/-- Events with the calls of the updates that they make, all of which succeed. -/
def writtenOut (demo : Bool) (json : LiveJson) :
    Serving crypto → List (ServingEvent crypto) → List (ServingEvent crypto)
  | _, [] => []
  | serving, event :: events =>
      let after := serving.step demo json event
      event :: (after.publishing json ++
        writtenOut demo json (run (step demo json) after (after.publishing json)) events)

/-- The host with other files. -/
def withFiles (serving : Serving crypto) (files : Inodes Published.Name UInt8)
    (shown : List LiveState) : Serving crypto :=
  { serving with publisher := { serving.publisher with files, shown } }

/-- The host with nothing left to be written. -/
def settled (serving : Serving crypto) : Serving crypto :=
  { serving with publisher := { serving.publisher with writer := .idle } }

/-- A step whose update takes no time. -/
def settledStep (demo : Bool) (json : LiveJson) (serving : Serving crypto)
    (event : ServingEvent crypto) : Serving crypto :=
  (serving.step demo json event).settled

end Serving

/-- The event is none of the publisher's own. -/
def ServingEvent.plain : ServingEvent crypto → Bool
  | .call _ => false
  | .stopped _ => false
  | _ => true

namespace Serving

variable {serving : Serving crypto}

/-- A handshake sees nothing of the state file. -/
theorem shake_withFiles (demo : Bool) (serving : Serving crypto) (peer name : String)
    (event : HostEvent crypto) (unix : ℕ) (error : String)
    (files : Inodes Published.Name UInt8) (shown : List LiveState) :
    (serving.withFiles files shown).shake demo peer name event unix error =
      (serving.shake demo peer name event unix error).withFiles files shown := by
  have hchange : (serving.withFiles files shown).shakeChange demo peer name event unix =
      serving.shakeChange demo peer name event unix := rfl
  unfold shake
  rw [hchange]
  cases serving.shakeChange demo peer name event unix <;> rfl

/-- The loop does not look at the files, but at its end. -/
theorem stepLoop_withFiles (demo : Bool) (json : LiveJson) (serving : Serving crypto)
    {event : ServingEvent crypto} (hplain : event.plain = true)
    (files : Inodes Published.Name UInt8) (shown : List LiveState) :
    (serving.withFiles files shown).stepLoop demo json event =
      (serving.stepLoop demo json event).withFiles files shown := by
  have hstage : (serving.withFiles files shown).stage = serving.stage := rfl
  have htoken : (serving.withFiles files shown).tokenCancelled = serving.tokenCancelled := rfl
  unfold stepLoop
  rw [hstage, htoken]
  split
  case h_6 => exact shake_withFiles demo serving _ _ _ _ _ files shown
  case h_18 => exact absurd hplain Bool.false_ne_true
  all_goals first | rfl | (split <;> rfl)

/-- No step but those of the writer task sees the state file. -/
theorem step_withFiles (demo : Bool) (json : LiveJson) (serving : Serving crypto)
    {event : ServingEvent crypto} (hplain : event.plain = true)
    (files : Inodes Published.Name UInt8) (shown : List LiveState) :
    (serving.withFiles files shown).step demo json event =
      (serving.step demo json event).withFiles files shown := by
  have hcurrent : (serving.withFiles files shown).current = serving.current := rfl
  have hquiet : (serving.withFiles files shown).quiet = serving.quiet := rfl
  have hruns : ∀ id, (serving.withFiles files shown).readerRuns id = serving.readerRuns id :=
    fun _ => rfl
  unfold step
  split
  next => rfl
  next =>
    unfold disconnectCurrent
    rw [hcurrent]
    cases serving.current <;> rfl
  next => rfl
  next id cancels =>
    rw [hruns]
    split <;> rfl
  next => exact absurd hplain Bool.false_ne_true
  next => exact absurd hplain Bool.false_ne_true
  next =>
    rw [hquiet]
    split
    next => exact stepLoop_withFiles demo json serving hplain files shown
    next => rfl

/-- Between two events nothing is under way that was not begun by the last. -/
theorem writer_step (demo : Bool) (json : LiveJson) (event : ServingEvent crypto)
    (hidle : serving.publisher.writer = .idle) :
    (serving.step demo json event).publisher.writer = .idle ∨
      (serving.step demo json event).publisher.writer = .changed := by
  rcases (serving.moves_step demo json event).publishes with hsame | ⟨made, hmade, -⟩
  · rw [hsame]
    exact Or.inl hidle
  · rw [hmade]
    cases made with
    | change value => exact Or.inr rfl
    | died => exact Or.inl rfl
    | call call => exact Or.inl (Published.writer_stepCall_of_idle hidle call)

/-- The calls of an update touch nothing but the files. -/
theorem run_publishing (demo : Bool) (json : LiveJson) (serving : Serving crypto)
    (hwriter : serving.publisher.writer = .idle ∨ serving.publisher.writer = .changed) :
    ∃ files shown, run (step demo json) serving (serving.publishing json) =
      serving.settled.withFiles files shown := by
  rcases hwriter with hidle | hchanged
  · refine ⟨serving.publisher.files, serving.publisher.shown, ?_⟩
    rw [publishing, hidle, run_nil]
    show serving = { serving with publisher := { serving.publisher with writer := .idle } }
    rw [← hidle]
  · obtain ⟨files, shown, hrun⟩ := Published.run_calls json.toVecPretty 0 hchanged
    refine ⟨files, shown, ?_⟩
    rw [publishing, hchanged]
    exact congrArg (fun publisher => { serving with publisher }) hrun

/-- A run without the writer task's steps sees nothing of the state file. -/
theorem run_settledStep_withFiles (demo : Bool) (json : LiveJson) (serving : Serving crypto)
    {events : List (ServingEvent crypto)} (hplain : ∀ event ∈ events, event.plain = true)
    (files : Inodes Published.Name UInt8) (shown : List LiveState) :
    run (settledStep demo json) (serving.withFiles files shown) events =
      (run (settledStep demo json) serving events).withFiles files shown := by
  induction events generalizing serving with
  | nil => rfl
  | cons event events ih =>
      have hstep : settledStep demo json (serving.withFiles files shown) event =
          (settledStep demo json serving event).withFiles files shown :=
        congrArg settled (step_withFiles demo json serving (hplain event (by simp)) files shown)
      rw [run_cons, run_cons, hstep]
      exact ih _ fun later hlater => hplain later (List.mem_cons_of_mem _ hlater)

/-- Updates that are written out leave the host where it would be if they took no time. -/
theorem run_writtenOut (demo : Bool) (json : LiveJson) (serving : Serving crypto)
    {events : List (ServingEvent crypto)} (hplain : ∀ event ∈ events, event.plain = true)
    (hidle : serving.publisher.writer = .idle) :
    ∃ files shown, run (step demo json) serving (writtenOut demo json serving events) =
      (run (settledStep demo json) serving events).withFiles files shown := by
  induction events generalizing serving with
  | nil => exact ⟨serving.publisher.files, serving.publisher.shown, rfl⟩
  | cons event events ih =>
      have hlater : ∀ later ∈ events, later.plain = true := fun later hmem =>
        hplain later (List.mem_cons_of_mem _ hmem)
      obtain ⟨files, shown, hcalls⟩ := run_publishing demo json (serving.step demo json event)
        (writer_step demo json event hidle)
      obtain ⟨files', shown', hrest⟩ :=
        ih ((settledStep demo json serving event).withFiles files shown) hlater rfl
      refine ⟨files', shown', ?_⟩
      rw [writtenOut, run_cons, run_append, hcalls]
      refine hrest.trans ?_
      rw [run_settledStep_withFiles demo json _ hlater]
      rfl

/-- To write a state out takes calls that succeed and nothing else. -/
theorem mem_publishing {event : ServingEvent crypto} (h : event ∈ serving.publishing json) :
    ∃ call, event = .call call ∧ event.Succeeds := by
  unfold publishing at h
  split at h
  next =>
    simp only [Published.calls, List.map_cons, List.map_nil, List.mem_cons, List.not_mem_nil,
      or_false] at h
    rcases h with rfl | rfl | rfl <;> exact ⟨_, rfl, trivial⟩
  next => cases h

/-- What is written out are the events and calls of the publisher. -/
theorem mem_writtenOut {events : List (ServingEvent crypto)} {event : ServingEvent crypto}
    (h : event ∈ writtenOut demo json serving events) :
    event ∈ events ∨ ∃ call, event = .call call := by
  induction events generalizing serving with
  | nil => cases h
  | cons first events ih =>
      rcases List.mem_cons.mp h with rfl | hrest
      · exact Or.inl (List.mem_cons_self)
      · rcases List.mem_append.mp hrest with hcall | hlater
        · obtain ⟨call, hcall, -⟩ := mem_publishing hcall
          exact Or.inr ⟨call, hcall⟩
        · exact (ih hlater).imp_left (List.mem_cons_of_mem _)

end Serving

end OmarchyConnect.Host
