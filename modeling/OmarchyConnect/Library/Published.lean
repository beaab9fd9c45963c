/-
# A value published in a file

One writer keeps a value in memory. After each change it writes the whole value to a temp
file and moves that over the published file, one call of the system after another. Any
call may fail, and the writer may die between two calls and start again with another
value. Whoever opens the published file finds a whole value in it, and reads that one to
its end whatever is published meanwhile.
-/

import OmarchyConnect.Library.Inodes
import OmarchyConnect.Library.Runs

namespace OmarchyConnect.Library

open OmarchyConnect.Library.Runs

namespace Published

/-- The published file and its temp file. -/
inductive Name
  | file
  | temp
  deriving DecidableEq

/-- Where the writer is: the value has been changed, or some of its text is written
through a handle. -/
inductive Writer (β : Type)
  | idle
  | changed
  | writing (inode offset : ℕ) (rest : List β)

/-- A call of the writer. A `write` takes at least one item of those that are left, and as
many as the system likes. -/
inductive Call
  | openTemp
  | write (count : ℕ)
  | rename
  | fail
  | remove
  deriving DecidableEq

/-- What happens to the writer. A writer that starts again has another value. -/
inductive Event (α : Type)
  | change (value : α)
  | call (call : Call)
  | died

end Published

/-- The files and the writer. `history` remembers the values that memory has had, the
current one last, and `shown` those that were moved over the published file. -/
structure Published (α β : Type) where
  memory : α
  history : List α
  shown : List α := []
  files : Inodes Published.Name β
  writer : Published.Writer β := .idle

namespace Published

variable {α β : Type} (encode : α → List β) (fill : β)

/-- Put another value into memory. It is to be published next. -/
def change (published : Published α β) (value : α) : Published α β :=
  { published with
    memory := value, history := published.history ++ [value], writer := .changed }

/-- Open the temp file, and cut it down to nothing. -/
def openTemp (published : Published α β) : Published α β :=
  let (inode, files) := published.files.openTruncate .temp
  { published with files, writer := .writing inode 0 (encode published.memory) }

/-- One call. A call that does not fit where the writer is does nothing. -/
def stepCall (published : Published α β) (call : Call) : Published α β :=
  match call, published.writer with
  | .openTemp, .changed => published.openTemp encode
  | .write count, .writing inode offset rest =>
      let data := rest.take (count + 1)
      { published with
        files := published.files.writeAt fill inode offset data
        writer := .writing inode (offset + data.length) (rest.drop (count + 1)) }
  | .rename, .writing _ _ [] =>
      { published with
        files := (published.files.rename .temp .file).getD published.files, writer := .idle
        shown := published.shown ++ [published.memory] }
  | .fail, _ => { published with writer := .idle }
  | .remove, .idle => { published with files := published.files.unlink .file }
  | _, _ => published

/-- A change, a call, or the end of the writer. -/
def step (published : Published α β) : Event α → Published α β
  | .change value => published.change value
  | .call call => published.stepCall encode fill call
  | .died => { published with writer := .idle }

/-! ## What the writer keeps -/

/-- A writer at work has the temp file open behind what it has written. -/
structure AtWork (published : Published α β) (inode offset : ℕ) (rest : List β) : Prop where
  name : published.files.names .temp = some inode
  offset : (published.files.content inode).length = offset
  text : published.files.content inode ++ rest = encode published.memory

/-- The published file holds what was moved over it last, or still what stood there at
the start. Values are shown in the order in which they were put into memory; what memory
had at the start is not shown. -/
structure Sound (start : Option (List β)) (published : Published α β) : Prop where
  atWork : ∀ inode offset rest, published.writer = .writing inode offset rest →
    published.AtWork encode inode offset rest
  file : ∀ bytes, published.files.read .file = some bytes →
    (published.shown = [] ∧ start = some bytes) ∨
      ∃ value, published.shown.getLast? = some value ∧ bytes = encode value
  order : ∃ before, published.history = before ++ [published.memory] ∧
    published.shown.Sublist published.history.tail ∧
      (published.writer ≠ .idle → before ≠ [] ∧ published.shown.Sublist before.tail)

/-- Nothing is under way, and the published file holds the value in memory. -/
def UpToDate (published : Published α β) : Prop :=
  published.writer = .idle → published.files.read .file = some (encode published.memory)

/-- Nobody writes to the file any more: it is neither the temp file nor open in the
writer. -/
structure Settled (inode : ℕ) (content : List β) (published : Published α β) : Prop where
  old : inode < published.files.fresh
  content : published.files.content inode = content
  name : published.files.names .temp ≠ some inode
  writer : ∀ offset rest, published.writer ≠ .writing inode offset rest

variable {encode : α → List β} {fill : β} {start : Option (List β)} {published : Published α β}

/-- A writer that is idle is not writing. -/
theorem writer_ne_of_idle {inode offset : ℕ} {rest : List β} :
    (Writer.idle : Writer β) ≠ .writing inode offset rest := by
  intro hsame
  cases hsame

/-- A writer that has only changed the value is not writing. -/
theorem writer_ne_of_changed {inode offset : ℕ} {rest : List β} :
    (Writer.changed : Writer β) ≠ .writing inode offset rest := by
  intro hsame
  cases hsame

/-- When nothing is left to write, the file holds the whole text. -/
theorem AtWork.read {inode offset : ℕ} (h : published.AtWork encode inode offset []) :
    published.files.content inode = encode published.memory := by
  have htext := h.text
  rwa [List.append_nil] at htext

/-- Another value leaves the files alone. -/
theorem Sound.change (h : published.Sound encode start) (value : α) :
    (published.change value).Sound encode start := by
  obtain ⟨before, hhistory, hshown, -⟩ := h.order
  have hne : published.history ≠ [] := by
    rw [hhistory]
    exact List.append_ne_nil_of_right_ne_nil _ (List.cons_ne_nil _ _)
  refine ⟨fun inode offset rest hwriting => ?_, h.file, published.history, rfl, ?_, ?_⟩
  · exact absurd hwriting writer_ne_of_changed
  · show published.shown.Sublist (published.history ++ [value]).tail
    rw [List.tail_append_of_ne_nil hne]
    exact hshown.trans (List.sublist_append_left _ _)
  · exact fun _ => ⟨hne, hshown⟩

/-- A writer that gives up leaves the files as they are. -/
theorem Sound.idle (h : published.Sound encode start) :
    Sound encode start { published with writer := .idle } := by
  obtain ⟨before, hhistory, hshown, -⟩ := h.order
  refine ⟨fun inode offset rest hwriting => ?_, h.file, before, hhistory, hshown, ?_⟩
  · exact absurd hwriting writer_ne_of_idle
  · exact fun hbusy => absurd rfl hbusy

/-- Behind the opening of the temp file the whole text is to be written. -/
theorem AtWork.openTemp (encode : α → List β) (published : Published α β) :
    AtWork encode { published with files := (published.files.openTruncate .temp).2 }
      (published.files.openTruncate .temp).1 0 (encode published.memory) := by
  obtain ⟨hname, hempty⟩ := published.files.openTruncate_spec Name.temp
  exact ⟨hname, by rw [hempty, List.length_nil], by rw [hempty, List.nil_append]⟩

/-- A write moves the handle on by what it has written. -/
theorem AtWork.write {inode offset : ℕ} {rest : List β}
    (h : published.AtWork encode inode offset rest) (fill : β) (count : ℕ) :
    AtWork encode
      { published with
        files := published.files.writeAt fill inode offset (rest.take (count + 1)) }
      inode (offset + (rest.take (count + 1)).length) (rest.drop (count + 1)) := by
  have hcontent : (published.files.writeAt fill inode offset (rest.take (count + 1))).content
      inode = published.files.content inode ++ rest.take (count + 1) := by
    rw [Inodes.writeAt, Inodes.content_setContent, ← h.offset, Inodes.overwrite_end]
  refine ⟨h.name, ?_, ?_⟩
  · rw [hcontent, List.length_append, h.offset]
  · rw [hcontent, List.append_assoc, List.take_append_drop, h.text]

/-- The temp file is never the published one. -/
theorem AtWork.read_writeAt {inode offset : ℕ} {rest : List β}
    (h : published.AtWork encode inode offset rest) (data : List β) :
    (published.files.writeAt fill inode offset data).read .file = published.files.read .file := by
  refine published.files.read_setContent_of_ne _ fun hfile => ?_
  have hsame := published.files.distinct .file .temp inode hfile h.name
  cases hsame

/-- What was written is moved over the published file in one call. -/
theorem AtWork.rename {inode offset : ℕ} (h : published.AtWork encode inode offset []) :
    ((published.files.rename .temp .file).getD published.files).read .file =
      some (encode published.memory) := by
  obtain ⟨after, hrename, hread⟩ := published.files.rename_of_name .file h.name
  rw [hrename, Option.getD_some, hread, h.read]

/-- No call breaks the invariant, whether it succeeds or not. -/
theorem Sound.stepCall (h : published.Sound encode start) (call : Call) :
    (published.stepCall encode fill call).Sound encode start := by
  obtain ⟨before, hhistory, hshown, hbusy⟩ := h.order
  unfold Published.stepCall
  split
  next hwriter =>
    -- The temp file is opened, and it is another one than the published.
    refine ⟨?_, fun bytes hread => ?_, before, hhistory, hshown, fun _ => ?_⟩
    · intro inode offset rest hwriting
      cases hwriting
      have hwork := AtWork.openTemp encode published
      exact ⟨hwork.name, hwork.offset, hwork.text⟩
    · refine h.file bytes (Eq.trans ?_ hread)
      exact (published.files.read_openTruncate_of_ne (by decide)).symm
    · exact hbusy (by simp [hwriter])
  next count inode offset rest hwriter =>
    have hwork := h.atWork inode offset rest hwriter
    refine ⟨?_, fun bytes hread => ?_, before, hhistory, hshown, fun _ => ?_⟩
    · intro inode offset rest hwriting
      cases hwriting
      have hwrite := hwork.write fill count
      exact ⟨hwrite.name, hwrite.offset, hwrite.text⟩
    · exact h.file bytes ((hwork.read_writeAt _).symm.trans hread)
    · exact hbusy (by simp [hwriter])
  next inode offset hwriter =>
    have hwork := h.atWork inode offset [] hwriter
    refine ⟨fun inode offset rest hwriting => ?_, fun bytes hread => Or.inr ?_, before, hhistory,
      ?_, fun hidle => absurd rfl hidle⟩
    · exact absurd hwriting writer_ne_of_idle
    · refine ⟨published.memory, List.getLast?_concat, ?_⟩
      exact Option.some.inj (hread.symm.trans hwork.rename)
    · obtain ⟨hne, hshown⟩ := hbusy (by simp [hwriter])
      rw [hhistory, List.tail_append_of_ne_nil hne]
      exact hshown.append_right _
  next => exact h.idle
  next hwriter =>
    refine ⟨fun inode offset rest hwriting => ?_, fun bytes hread => ?_, before, hhistory,
      hshown, fun hidle => absurd hwriter hidle⟩
    · cases hwriter.symm.trans hwriting
    · rw [published.files.read_unlink] at hread
      cases hread
  next => exact h

/-- No step breaks the invariant. -/
theorem Sound.step (h : published.Sound encode start) (event : Event α) :
    (published.step encode fill event).Sound encode start := by
  cases event with
  | change value => exact h.change value
  | call call => exact h.stepCall call
  | died => exact h.idle

/-- Every call that is made succeeds, and nobody takes the file away. -/
def Event.Succeeds : Event α → Prop
  | .call .fail => False
  | .call .remove => False
  | .died => False
  | _ => True

/-- A changed value is on its way. -/
theorem UpToDate.change (published : Published α β) (value : α) :
    (published.change value).UpToDate encode := by
  intro hidle
  cases hidle

/-- While the calls succeed the file has the value or it is on its way. -/
theorem UpToDate.step (hsound : published.Sound encode start) (h : published.UpToDate encode)
    {event : Event α} (hok : event.Succeeds) :
    (published.step encode fill event).UpToDate encode := by
  cases event with
  | change value => exact UpToDate.change published value
  | call call =>
      show UpToDate encode (published.stepCall encode fill call)
      unfold Published.stepCall
      split
      next =>
        intro hidle
        cases hidle
      next =>
        intro hidle
        cases hidle
      next inode offset hwriter => exact fun _ => (hsound.atWork inode offset [] hwriter).rename
      next => exact hok.elim
      next => exact hok.elim
      next => exact h
  | died => exact hok.elim

/-- The calls of the writer are about the files only. -/
theorem memory_stepCall (encode : α → List β) (fill : β) (published : Published α β)
    (call : Call) :
    (published.stepCall encode fill call).memory = published.memory ∧
      (published.stepCall encode fill call).history = published.history := by
  unfold stepCall
  split <;> exact ⟨rfl, rfl⟩

/-! ## Open files -/

/-- The published file is not written to. -/
theorem Sound.settled (h : published.Sound encode start) {inode : ℕ}
    (hfile : published.files.names .file = some inode) :
    published.Settled inode (published.files.content inode) := by
  have hother : published.files.names .temp ≠ some inode := by
    intro htemp
    have hsame := published.files.distinct .file .temp inode hfile htemp
    cases hsame
  refine ⟨published.files.bounded .file inode hfile, rfl, hother, fun offset rest hwriting => ?_⟩
  exact hother (h.atWork inode offset rest hwriting).name

/-- A change leaves a settled file alone. -/
theorem Settled.change {inode : ℕ} {content : List β} (h : published.Settled inode content)
    (value : α) : (published.change value).Settled inode content :=
  ⟨h.old, h.content, h.name, fun _ _ => writer_ne_of_changed⟩

/-- No call touches a settled file. -/
theorem Settled.stepCall {inode : ℕ} {content : List β} (h : published.Settled inode content)
    (call : Call) : (published.stepCall encode fill call).Settled inode content := by
  unfold Published.stepCall
  split
  next =>
    refine ⟨?_, ?_, fun hname => ?_, fun offset rest hwriting => ?_⟩
    · exact Nat.lt_of_lt_of_le h.old (published.files.fresh_le_openTruncate _)
    · exact (published.files.content_openTruncate_of_ne h.old h.name).trans h.content
    · have hopened := (published.files.openTruncate_spec Name.temp).1
      exact published.files.openTruncate_ne h.old h.name
        (Option.some.inj (hopened.symm.trans hname))
    · have hopened := (Writer.writing.inj hwriting).1
      exact published.files.openTruncate_ne h.old h.name hopened
  next count other offset rest hwriter =>
    have hne : inode ≠ other := by
      rintro rfl
      exact h.writer offset rest hwriter
    refine ⟨h.old, ?_, h.name, fun offset rest hwriting => ?_⟩
    · exact (Function.update_of_ne hne _ _).trans h.content
    · exact hne (Writer.writing.inj hwriting).1.symm
  next other offset hwriter =>
    have hidle : ∀ offset rest, (Writer.idle : Writer β) ≠ .writing inode offset rest :=
      fun _ _ => writer_ne_of_idle
    cases htemp : published.files.names .temp with
    | none =>
        have hrename : published.files.rename .temp Name.file = none := by
          unfold Inodes.rename
          split
          next => rfl
          next found hfound => cases htemp.symm.trans hfound
        refine ⟨?_, ?_, ?_, hidle⟩ <;> rw [hrename, Option.getD_none]
        · exact h.old
        · exact h.content
        · exact h.name
    | some found =>
        obtain ⟨after, hrename, hafter, hcontent, hfresh⟩ :=
          published.files.rename_spec Name.file htemp
        refine ⟨?_, ?_, ?_, hidle⟩ <;> rw [hrename, Option.getD_some]
        · rw [hfresh]
          exact h.old
        · rw [hcontent]
          exact h.content
        · rw [hafter]
          simp
  next => exact ⟨h.old, h.content, h.name, fun _ _ => writer_ne_of_idle⟩
  next hwriter =>
    refine ⟨h.old, h.content, fun hname => h.name ?_, h.writer⟩
    exact (published.files.names_unlink_of_ne (by decide)).symm.trans hname
  next => exact h

/-- No step touches a settled file. -/
theorem Settled.step {inode : ℕ} {content : List β} (h : published.Settled inode content)
    (event : Event α) : (published.step encode fill event).Settled inode content := by
  cases event with
  | change value => exact h.change value
  | call call => exact h.stepCall call
  | died => exact ⟨h.old, h.content, h.name, fun _ _ => writer_ne_of_idle⟩

/-! ## Whole runs -/

/-- Whoever opens the published file at one time and reads it at a later one finds what
stood there at the start, or a value whole, one that was put into memory before the file
was opened. -/
theorem opened_read (h : published.Sound encode start) {inode : ℕ}
    (hfile : published.files.names .file = some inode) (events : List (Event α)) :
    (published.shown = [] ∧
        start = some ((run (step encode fill) published events).files.content inode)) ∨
      ∃ value, published.shown.getLast? = some value ∧ value ∈ published.history.tail ∧
        (run (step encode fill) published events).files.content inode = encode value := by
  have hsettled : (run (step encode fill) published events).Settled inode
      (published.files.content inode) :=
    invariant_of_step _ (Settled inode (published.files.content inode))
      (fun _ event hkept => hkept.step event) (h.settled hfile) events
  rw [hsettled.content]
  obtain ⟨before, -, hshown, -⟩ := h.order
  rcases h.file _ (published.files.read_of_name hfile) with hstart | ⟨value, hlast, htext⟩
  · exact Or.inl hstart
  · exact Or.inr ⟨value, hlast, hshown.subset (List.mem_of_getLast? hlast), htext⟩

/-- What a step adds to the history was put into memory by it. -/
theorem mem_history_step {event : Event α} {value : α}
    (h : value ∈ (published.step encode fill event).history.tail) :
    value ∈ published.history.tail ∨
      ((published.step encode fill event).memory = value ∧
        (published.step encode fill event).writer = .changed) := by
  cases event with
  | change other =>
      change value ∈ (published.history ++ [other]).tail at h
      cases hhistory : published.history with
      | nil =>
          rw [hhistory] at h
          cases h
      | cons first rest =>
          rw [hhistory, List.cons_append, List.tail_cons] at h
          rcases List.mem_append.mp h with hold | hnew
          · exact Or.inl hold
          · exact Or.inr ⟨(List.mem_singleton.mp hnew).symm, rfl⟩
  | call call => exact Or.inl ((memory_stepCall encode fill published call).2 ▸ h)
  | died => exact Or.inl h

/-- An update whose calls all succeed ends with the new value published, however often the
calls of earlier ones have failed. -/
theorem upToDate_run (hsound : published.Sound encode start) (h : published.UpToDate encode)
    {events : List (Event α)} (hok : ∀ event ∈ events, Event.Succeeds event) :
    (run (step encode fill) published events).UpToDate encode :=
  (invariant_of_mem (step encode fill)
    (fun published => published.Sound encode start ∧ published.UpToDate encode) Event.Succeeds
    (fun _ event hkept hevent => ⟨hkept.1.step event, UpToDate.step hkept.1 hkept.2 hevent⟩)
    ⟨hsound, h⟩ hok).2

/-- The calls of one update. -/
def calls (encode : α → List β) (value : α) : List Call :=
  [.openTemp, .write (encode value).length, .rename]

/-- An update that nothing interrupts is done after its calls, which touch nothing but the
files. -/
theorem run_calls (encode : α → List β) (fill : β) {published : Published α β}
    (hchanged : published.writer = .changed) :
    ∃ files shown,
      run (step encode fill) published ((calls encode published.memory).map .call) =
        { published with files, shown, writer := .idle } := by
  have hdone : (encode published.memory).drop ((encode published.memory).length + 1) = [] :=
    List.drop_eq_nil_of_le (Nat.le_succ _)
  let after := run (step encode fill) published ((calls encode published.memory).map .call)
  refine ⟨after.files, after.shown, ?_⟩
  simp only [after, calls, List.map_cons, List.map_nil, run_cons, run_nil, step, stepCall,
    hchanged, openTemp, hdone]

/-- A writer that does nothing takes no call. -/
theorem writer_stepCall_of_idle (hidle : published.writer = .idle) (call : Call) :
    (published.stepCall encode fill call).writer = .idle := by
  unfold stepCall
  split
  next hwriter => cases hidle.symm.trans hwriter
  next hwriter => cases hidle.symm.trans hwriter
  next hwriter => cases hidle.symm.trans hwriter
  next => rfl
  next => exact hidle
  next => exact hidle

end Published

end OmarchyConnect.Library
