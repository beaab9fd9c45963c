/-
# The task that reads the connection

A `read_message` that is dropped loses the bytes that it has taken, so the loop of a session
does not read itself. A task of its own does, and hands over one message at a time through a
channel of one place. Bytes come in pieces, the task takes as many of them as the system
likes, and the loop takes a message when it gets to it. What it gets is what
`readMessages` returns where all bytes are there at once.
-/

import OmarchyConnect.Library.Runs
import OmarchyConnect.Protocol.StreamReading

namespace OmarchyConnect.Client

open OmarchyConnect.Library.Wire OmarchyConnect.Library.Runs OmarchyConnect.Protocol

/-- What has come through the connection, the task with its current `read_message`, and the
channel. `arrived` remembers all bytes, `taken` the messages that the loop took, and `broke`
the error that it took. -/
structure ReaderTask where
  arrived : Bytes := []
  stream : Bytes := []
  ended : Bool := false
  got : Bytes := []
  held : Option (Except ProtocolError Message) := none
  up : Bool := true
  queue : Option (Except ProtocolError Message) := none
  taken : List Message := []
  broke : Option ProtocolError := none
  deriving DecidableEq

/-- What happens to the stream, in the task and in the loop. -/
inductive ReadEvent
  | arrive (data : Bytes)
  | hangUp
  | read (count : ℕ)
  | handOver
  | take
  | abort
  deriving DecidableEq

namespace ReaderTask

variable (task : ReaderTask)

/-- Bytes arrive at the end of the stream, until the host has hung up. -/
def arrive (data : Bytes) : ReaderTask :=
  if task.ended then task
  else { task with arrived := task.arrived ++ data, stream := task.stream ++ data }

/-- The current `read_message` has taken a chunk and waits for more. -/
def wait (chunk : Bytes) : ReaderTask :=
  { task with stream := task.stream.drop chunk.length, got := task.got ++ chunk }

/-- The current `read_message` has taken a chunk and returns. -/
def finishRead (chunk : Bytes) (result : Except ProtocolError Message) : ReaderTask :=
  { task with stream := task.stream.drop chunk.length, got := [], held := some result }

/-- The task polls its `read_message`, which takes at least one byte of those that are there
and no more than it asks for. -/
def read (count : ℕ) : ReaderTask :=
  match task.up, task.held with
  | true, none =>
      match task.stream.take (min (count + 1) (wanted task.got)) with
      | [] =>
          if task.ended && task.stream.isEmpty then
            task.finishRead [] (.error (endOutcome task.got))
          else task
      | byte :: chunk =>
          match readOutcome (task.got ++ byte :: chunk) with
          | none => task.wait (byte :: chunk)
          | some result => task.finishRead (byte :: chunk) result
  | _, _ => task

/-- The task puts its message into the channel, and ends after an error. -/
def handOver : ReaderTask :=
  match task.up, task.held, task.queue with
  | true, some (.ok msg), none => { task with held := none, queue := some (.ok msg) }
  | true, some (.error err), none =>
      { task with held := none, queue := some (.error err), up := false }
  | _, _, _ => task

/-- The loop takes what is in the channel. -/
def take : ReaderTask :=
  match task.queue with
  | none => task
  | some (.ok msg) => { task with queue := none, taken := task.taken ++ [msg] }
  | some (.error err) => { task with queue := none, broke := some err }

/-- One event. -/
def step : ReadEvent → ReaderTask
  | .arrive data => task.arrive data
  | .hangUp => { task with ended := true }
  | .read count => task.read count
  | .handOver => task.handOver
  | .take => task.take
  | .abort => { task with up := false }

/-- What the calls of `read_message` returned, with what is still on its way to the loop. -/
def results : List (Except ProtocolError Message) :=
  task.taken.map .ok ++ (task.broke.map .error).toList ++ task.queue.toList ++ task.held.toList

/-! ## What is on its way -/

/-- Every call returned what it returns where the bytes are there at once, and while there was
no error the bytes behind the last message are with the task or in front of it. -/
structure Reads : Prop where
  whole : ∀ future, (task.ended = true → future = []) →
    readMessages task.results.length (task.arrived ++ future) = task.results
  going : task.up = true → (∀ err, task.held ≠ some (.error err)) →
    ∃ consumed, Consumes task.results consumed ∧
      task.arrived = consumed ++ task.got ++ task.stream ∧ readOutcome task.got = none
  failed : ∀ err, task.queue = some (.error err) → task.up = false ∧ task.held = none
  broken : ∀ err, task.broke = some err →
    task.up = false ∧ task.queue = none ∧ task.held = none

variable {task}

/-- At first nothing was read. -/
theorem Reads.start : Reads {} where
  whole := fun _ _ => rfl
  going := fun _ _ => ⟨[], Consumes.nil, rfl, rfl⟩
  failed := fun _ h => nomatch h
  broken := fun _ h => nomatch h

/-- Arriving bytes keep the books of the task right. -/
theorem Reads.arrive (h : task.Reads) (data : Bytes) : (task.arrive data).Reads := by
  unfold ReaderTask.arrive
  split_ifs with hended
  · exact h
  · refine ⟨fun future _ => ?_, fun hup hheld => ?_, h.failed, h.broken⟩
    · rw [List.append_assoc]
      exact h.whole (data ++ future) fun hends => absurd hends hended
    · obtain ⟨consumed, hconsumes, harrived, hgot⟩ := h.going hup hheld
      refine ⟨consumed, hconsumes, ?_, hgot⟩
      dsimp only
      rw [harrived, List.append_assoc]

/-- The end of the stream keeps the books right. -/
theorem Reads.hangUp (h : task.Reads) : Reads { task with ended := true } where
  whole := fun _ hfuture => h.whole _ fun _ => hfuture rfl
  going := h.going
  failed := h.failed
  broken := h.broken

/-- Aborting the task keeps the books right. -/
theorem Reads.abort (h : task.Reads) : Reads { task with up := false } where
  whole := h.whole
  going := fun hup => nomatch hup
  failed := fun err hqueue => ⟨rfl, (h.failed err hqueue).2⟩
  broken := fun err hbroke => ⟨rfl, (h.broken err hbroke).2⟩

/-- A task at work has seen no error. -/
theorem Reads.no_error (h : task.Reads) (hup : task.up = true) (err : ProtocolError) :
    task.queue ≠ some (.error err) ∧ task.broke ≠ some err :=
  ⟨fun hqueue => Bool.noConfusion (hup.symm.trans (h.failed err hqueue).1),
    fun hbroke => Bool.noConfusion (hup.symm.trans (h.broken err hbroke).1)⟩

/-- A call that returns is the next one. -/
theorem results_finishRead (hheld : task.held = none) (chunk : Bytes)
    (result : Except ProtocolError Message) :
    (task.finishRead chunk result).results = task.results ++ [result] := by
  simp [results, finishRead, hheld]

/-- A chunk holds the next bytes, and not more than the task asked for. -/
theorem chunk_spec (task : ReaderTask) (count : ℕ) :
    let chunk := task.stream.take (min (count + 1) (wanted task.got))
    chunk.length ≤ wanted task.got ∧ task.stream = chunk ++ task.stream.drop chunk.length := by
  intro chunk
  refine ⟨(List.length_take_le _ _).trans (Nat.min_le_right _ _), ?_⟩
  exact (List.prefix_iff_eq_append.mp (List.take_prefix _ _)).symm

/-- A read that waits has only moved bytes into its buffer. -/
theorem Reads.wait (h : task.Reads) {chunk : Bytes}
    (hstream : task.stream = chunk ++ task.stream.drop chunk.length)
    (houtcome : readOutcome (task.got ++ chunk) = none) : (task.wait chunk).Reads where
  whole := h.whole
  going := fun hup hheld => by
    obtain ⟨consumed, hconsumes, harrived, -⟩ := h.going hup hheld
    refine ⟨consumed, hconsumes, ?_, houtcome⟩
    show task.arrived = consumed ++ (task.got ++ chunk) ++ task.stream.drop chunk.length
    rw [harrived, ← List.append_assoc, List.append_assoc _ chunk, ← hstream]
  failed := h.failed
  broken := h.broken

/-- A read that ends has taken the bytes of its result. -/
theorem Reads.finishRead (h : task.Reads) (hup : task.up = true) (hheld : task.held = none)
    {chunk : Bytes} {result : Except ProtocolError Message}
    (hstream : task.stream = chunk ++ task.stream.drop chunk.length)
    (hwanted : chunk.length ≤ wanted task.got)
    (houtcome : readOutcome (task.got ++ chunk) = some result) :
    (task.finishRead chunk result).Reads := by
  obtain ⟨consumed, hconsumes, harrived, hgot⟩ :=
    h.going hup fun err herr => nomatch hheld.symm.trans herr
  have hmore := hconsumes.concat (readMessage_of_outcome hgot hwanted houtcome)
  rw [← results_finishRead hheld chunk result] at hmore
  have hbytes : task.arrived =
      consumed ++ (task.got ++ chunk) ++ task.stream.drop chunk.length := by
    rw [harrived, ← List.append_assoc, List.append_assoc _ chunk, ← hstream]
  refine ⟨fun future _ => ?_, fun _ _ => ⟨_, hmore, ?_, rfl⟩, fun err herr => ?_,
    fun err herr => ?_⟩
  · have hcalls := hmore 0 (task.stream.drop chunk.length ++ future)
    rw [Nat.add_zero, ← List.append_assoc, ← hbytes, readMessages, List.append_nil] at hcalls
    exact hcalls
  · show task.arrived = consumed ++ (task.got ++ chunk) ++ [] ++ task.stream.drop chunk.length
    rw [List.append_nil]
    exact hbytes
  · exact absurd herr (h.no_error hup err).1
  · exact absurd herr (h.no_error hup err).2

/-- The end of the stream ends the call that waits there. -/
theorem Reads.finishRead_end (h : task.Reads) (hup : task.up = true) (hheld : task.held = none)
    (hended : task.ended = true) (hstream : task.stream = []) :
    (task.finishRead [] (.error (endOutcome task.got))).Reads := by
  obtain ⟨consumed, hconsumes, harrived, hgot⟩ :=
    h.going hup fun err herr => nomatch hheld.symm.trans herr
  refine ⟨fun future hfuture => ?_, fun _ herr => absurd rfl (herr _), fun err herr => ?_,
    fun err herr => ?_⟩
  · have hcalls := hconsumes 1 task.got
    rw [readMessages_one_of_end hgot] at hcalls
    rw [hfuture hended, results_finishRead hheld, List.length_append, List.append_nil]
    show readMessages _ task.arrived = _
    rw [harrived, hstream, List.append_nil]
    exact hcalls
  · exact absurd herr (h.no_error hup err).1
  · exact absurd herr (h.no_error hup err).2

/-- Reading keeps the books right. -/
theorem Reads.read (h : task.Reads) (count : ℕ) : (task.read count).Reads := by
  obtain ⟨hwanted, hstream⟩ := chunk_spec task count
  unfold ReaderTask.read
  generalize task.stream.take (min (count + 1) (wanted task.got)) = chunk at *
  split
  next hup hheld =>
    cases chunk with
    | nil =>
        dsimp only
        split_ifs with hend
        · obtain ⟨hended, hempty⟩ := Bool.and_eq_true_iff.mp hend
          exact h.finishRead_end hup hheld hended (List.isEmpty_iff.mp hempty)
        · exact h
    | cons byte chunk =>
        dsimp only
        split
        next houtcome => exact h.wait hstream houtcome
        next result houtcome => exact h.finishRead hup hheld hstream hwanted houtcome
  next => exact h

/-- Handing a result over keeps the books right. -/
theorem Reads.handOver (h : task.Reads) : task.handOver.Reads := by
  unfold ReaderTask.handOver
  split
  next msg hup hheld hqueue =>
    have hresults : results { task with held := none, queue := some (.ok msg) } =
        task.results := by simp [results, hheld, hqueue]
    refine ⟨?_, fun _ _ => ?_, fun err herr => ?_, fun err herr => ?_⟩
    · rw [hresults]
      exact h.whole
    · rw [hresults]
      exact h.going hup fun err herr => nomatch hheld.symm.trans herr
    · cases herr
    · exact absurd herr (h.no_error hup err).2
  next err hup hheld hqueue =>
    have hresults : results { task with
        held := none, queue := some (.error err), up := false } = task.results := by
      simp [results, hheld, hqueue]
    refine ⟨?_, fun hdown => ?_, fun _ _ => ⟨rfl, rfl⟩, fun err herr => ?_⟩
    · rw [hresults]
      exact h.whole
    · cases hdown
    · exact absurd herr (h.no_error hup err).2
  next => exact h

/-- Taking a result keeps the books right. -/
theorem Reads.take (h : task.Reads) : task.take.Reads := by
  have hbroke : task.queue ≠ none → task.broke = none := fun hsome => by
    cases hbroke : task.broke with
    | none => rfl
    | some err => exact absurd (h.broken err hbroke).2.1 hsome
  unfold ReaderTask.take
  split
  next => exact h
  next msg hqueue =>
    have hnone := hbroke fun hnone => nomatch hqueue.symm.trans hnone
    have hresults : results { task with queue := none, taken := task.taken ++ [msg] } =
        task.results := by simp [results, hqueue, hnone]
    refine ⟨?_, ?_, fun err herr => ?_, fun err herr => ?_⟩
    · rw [hresults]
      exact h.whole
    · rw [hresults]
      exact h.going
    · cases herr
    · exact nomatch hnone.symm.trans herr
  next err hqueue =>
    obtain ⟨hdown, hheld⟩ := h.failed err hqueue
    have hnone := hbroke fun hnone => nomatch hqueue.symm.trans hnone
    have hresults : results { task with queue := none, broke := some err } = task.results := by
      simp [results, hqueue, hnone, hheld]
    refine ⟨?_, fun hup => ?_, fun err herr => ?_, fun _ _ => ⟨hdown, rfl, hheld⟩⟩
    · rw [hresults]
      exact h.whole
    · exact Bool.noConfusion (hup.symm.trans hdown)
    · cases herr

/-- No event makes the books wrong. -/
theorem Reads.step (h : task.Reads) (event : ReadEvent) : (task.step event).Reads := by
  cases event with
  | arrive data => exact h.arrive data
  | hangUp => exact h.hangUp
  | read count => exact h.read count
  | handOver => exact h.handOver
  | take => exact h.take
  | abort => exact h.abort

/-- Only taking gives the loop a message. -/
theorem taken_step (task : ReaderTask) {event : ReadEvent} (hevent : event ≠ .take) :
    (task.step event).taken = task.taken := by
  cases event with
  | arrive data =>
      show (task.arrive data).taken = task.taken
      unfold ReaderTask.arrive
      split_ifs <;> rfl
  | hangUp => rfl
  | read count =>
      show (task.read count).taken = task.taken
      unfold ReaderTask.read
      split
      · split
        · split_ifs <;> rfl
        · split <;> rfl
      · rfl
  | handOver =>
      show task.handOver.taken = task.taken
      unfold ReaderTask.handOver
      split <;> rfl
  | take => exact absurd rfl hevent
  | abort => rfl

/-- The loop takes the message that waits. -/
theorem taken_take (task : ReaderTask) {msg : Message} (hqueue : task.queue = some (.ok msg)) :
    (task.step .take).taken = task.taken ++ [msg] := by
  rw [ReaderTask.step, ReaderTask.take, hqueue]

/-- An error is no message. -/
theorem taken_take_error (task : ReaderTask) {err : ProtocolError}
    (hqueue : task.queue = some (.error err)) : (task.step .take).taken = task.taken := by
  rw [ReaderTask.step, ReaderTask.take, hqueue]

/-! ## What a host has written -/

/-- The bytes hold these frames whole and then a part of the next one. -/
structure CutBehind (whole cut : List Message) (arrived part : Bytes) : Prop where
  bytes : arrived = whole.flatMap Message.frame ++ part
  next : ∀ msg ∈ cut.head?, part <+: msg.frame ∧ part.length < msg.frame.length
  done : cut = [] → part = []

/-- Nothing is on its way and no byte is left to be read. -/
structure Idle (task : ReaderTask) : Prop where
  up : task.up = true
  held : task.held = none
  queue : task.queue = none
  stream : task.stream = []

/-- What was read of a stream that a host wrote: the messages that the loop took are the first
ones, and where nothing is on its way, or the loop took an error, they are just those whose
frames have come whole. -/
structure FromStream (task : ReaderTask) (msgs : List Message) : Prop where
  taken : task.taken <+: msgs
  idle : task.Idle →
    ∃ cut part, msgs = task.taken ++ cut ∧ CutBehind task.taken cut task.arrived part
  broke : ∀ err, task.broke = some err → ∃ cut part, msgs = task.taken ++ cut ∧
    CutBehind task.taken cut task.arrived part ∧ err = cutError part

/-- A reader that is idle waits behind the last message that it can read. -/
theorem Reads.waits (h : task.Reads) (hidle : task.Idle) :
    ∃ err, readMessages (task.taken.length + 1) task.arrived =
      task.taken.map .ok ++ [.error err] := by
  obtain ⟨consumed, hconsumes, harrived, hgot⟩ :=
    h.going hidle.up fun err herr => nomatch hidle.held.symm.trans herr
  have hbroke : task.broke = none := by
    cases hbroke : task.broke with
    | none => rfl
    | some err => exact absurd hbroke (h.no_error hidle.up err).2
  have hresults : task.results = task.taken.map .ok := by
    simp [results, hidle.held, hidle.queue, hbroke]
  have hcalls := hconsumes 1 task.got
  rw [hresults, List.length_map, readMessages_one_of_end hgot] at hcalls
  refine ⟨endOutcome task.got, ?_⟩
  rw [harrived, hidle.stream, List.append_nil]
  exact hcalls

/-- What the loop takes is the beginning of what the host has written. -/
theorem Reads.fromStream (h : task.Reads) {msgs : List Message} {stream : Bytes}
    (hlimits : ∀ msg ∈ msgs, msg.WithinLimits) (hwritten : Written msgs [] stream)
    (harrived : task.arrived <+: stream) : task.FromStream msgs := by
  obtain ⟨hstream, hlengths⟩ := written_frames hwritten
  rw [hstream, List.nil_append] at harrived
  obtain ⟨whole, cut, part, rfl, hbytes, hnext, hend⟩ := exists_cut harrived
  have hpart : readMessage part = (.error (cutError part), []) := by
    cases cut with
    | nil =>
        rw [hend rfl]
        rfl
    | cons next cut =>
        obtain ⟨hpart, hcut⟩ := hnext next rfl
        exact readMessage_cut (hlengths next (by simp)) hpart hcut
  have hframes : ∀ calls, readMessages calls task.arrived <+:
      whole.map Except.ok ++ Except.error (cutError part) :: readMessages calls [] := by
    intro calls
    have hall := readMessages_frames
      (fun msg hmem => hlimits msg (List.mem_append_left cut hmem))
      (fun msg hmem => hlengths msg (List.mem_append_left cut hmem)) (calls + 1) part
    rw [readMessages, hpart, ← hbytes] at hall
    rw [← hall]
    exact readMessages_mono (by omega) task.arrived
  have hresults : task.results <+: whole.map Except.ok ++
      Except.error (cutError part) :: readMessages task.results.length [] := by
    have hwhole := h.whole [] fun _ => rfl
    have hcalls := hframes task.results.length
    rw [List.append_nil] at hwhole
    rw [hwhole] at hcalls
    exact hcalls
  have htaken : task.taken.map .ok <+: task.results := by
    rw [results, List.append_assoc, List.append_assoc]
    exact List.prefix_append _ _
  refine ⟨(prefix_of_oks (htaken.trans hresults)).trans (List.prefix_append whole cut),
    fun hidle => ?_, fun err herr => ?_⟩
  · obtain ⟨err, hwaits⟩ := h.waits hidle
    obtain ⟨hsame, -⟩ := eq_of_oks_error (hwaits ▸ hframes (task.taken.length + 1))
    exact ⟨cut, part, by rw [hsame], by rw [hsame]; exact ⟨hbytes, hnext, hend⟩⟩
  · obtain ⟨-, hqueue, hheld⟩ := h.broken err herr
    have hbroken : task.results = task.taken.map .ok ++ [.error err] := by
      simp [results, herr, hqueue, hheld]
    obtain ⟨hsame, rfl⟩ := eq_of_oks_error (hbroken ▸ hresults)
    exact ⟨cut, part, by rw [hsame], by rw [hsame]; exact ⟨hbytes, hnext, hend⟩, rfl⟩

end ReaderTask

end OmarchyConnect.Client
