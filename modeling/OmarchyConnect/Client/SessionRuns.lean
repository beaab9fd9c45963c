/-
# What a session makes of its host and its window

The loop takes the messages of the host and the commands of the window one at a time. A
`Turn` says what it has taken in some steps, and what it made of it: the packets went to the
decoders, each ping has its pong, and each input is on its way.
-/

import OmarchyConnect.Client.PictureRuns
import OmarchyConnect.Client.SessionLoop

namespace OmarchyConnect.Client

open OmarchyConnect.Library OmarchyConnect.Library.Wire OmarchyConnect.Library.Files
  OmarchyConnect.Library.Runs OmarchyConnect.Protocol

/-- The nonce of a ping. -/
def pingOf : Message → Option UInt64
  | .ping nonce => some nonce
  | _ => none

/-- The nonce of a pong. -/
def pongOf : Message → Option UInt64
  | .pong nonce => some nonce
  | _ => none

/-- The input that a message carries. -/
def inputOf : Message → Option InputEvent
  | .input event => some event
  | _ => none

/-- The input that a command carries. -/
def ClientCommand.inputOf : ClientCommand → Option InputEvent
  | .input event => some event
  | _ => none

/-- The packet of a monitor. -/
def packetOf (displayId : UInt32) : Message → Option Bytes
  | .video other _ _ data => if other = displayId then some data else none
  | _ => none

namespace ClientSession

variable {h264 : OpenH264} {session middle after : ClientSession h264}

/-- What the loop is to send is with the writer or in front of it, in its order. -/
structure Piped (session : ClientSession h264) : Prop where
  up : session.writerUp = true → session.pipe.content = session.replied
  wire : session.pipe.wire <+: session.replied

/-- What the loop has taken in some steps. -/
structure Takes (session after : ClientSession h264) (msgs : List Message)
    (commands : List ClientCommand) : Prop where
  reads : session.reader.Reads → after.reader.Reads
  taken : after.reader.taken = session.reader.taken ++ msgs
  obeyed : after.obeyed = session.obeyed ++ commands
  order : session.commanded = session.obeyed ++ session.commands →
    after.commanded = after.obeyed ++ after.commands

/-- What the session makes of messages and commands. -/
structure Answers (session after : ClientSession h264) (msgs : List Message)
    (commands : List ClientCommand) : Prop where
  pongs : after.replied.filterMap pongOf =
    session.replied.filterMap pongOf ++ msgs.filterMap pingOf
  inputs : after.replied.filterMap inputOf =
    session.replied.filterMap inputOf ++ commands.filterMap ClientCommand.inputOf
  piped : session.Piped → after.Piped
  pictures : ∃ events, after.pictures = run WatchRun.step session.pictures events ∧
    ∀ who, packetsOf who events = msgs.filterMap (packetOf who)

/-- What a session has taken in some steps, and what it has made of it. -/
structure Turn (session after : ClientSession h264) (msgs : List Message)
    (commands : List ClientCommand) : Prop where
  takes : session.Takes after msgs commands
  answers : session.Answers after msgs commands

variable {first second msgs : List Message} {earlier later commands : List ClientCommand}

/-- What is taken in two turns. -/
theorem Takes.trans (h : session.Takes middle first earlier)
    (h' : middle.Takes after second later) :
    session.Takes after (first ++ second) (earlier ++ later) where
  reads := h'.reads ∘ h.reads
  taken := by rw [h'.taken, h.taken, List.append_assoc]
  obeyed := by rw [h'.obeyed, h.obeyed, List.append_assoc]
  order := h'.order ∘ h.order

/-- The packets of a monitor in two lists. -/
theorem packetsOf_append (who : UInt32) (first second : List PictureEvent) :
    packetsOf who (first ++ second) = packetsOf who first ++ packetsOf who second :=
  List.filterMap_append

/-- What is answered in two turns. -/
theorem Answers.trans (h : session.Answers middle first earlier)
    (h' : middle.Answers after second later) :
    session.Answers after (first ++ second) (earlier ++ later) where
  pongs := by rw [h'.pongs, h.pongs, List.filterMap_append, List.append_assoc]
  inputs := by rw [h'.inputs, h.inputs, List.filterMap_append, List.append_assoc]
  piped := h'.piped ∘ h.piped
  pictures := by
    obtain ⟨events, hevents, hpackets⟩ := h.pictures
    obtain ⟨more, hmore, hothers⟩ := h'.pictures
    refine ⟨events ++ more, ?_, fun who => ?_⟩
    · rw [hmore, hevents, run_append]
    · rw [packetsOf_append, hpackets, hothers, List.filterMap_append]

/-- Two turns one after another. -/
theorem Turn.trans (h : session.Turn middle first earlier) (h' : middle.Turn after second later) :
    session.Turn after (first ++ second) (earlier ++ later) :=
  ⟨h.takes.trans h'.takes, h.answers.trans h'.answers⟩

/-- Behind a turn nothing more happens. -/
theorem Turn.and (h : session.Turn middle msgs commands) (h' : middle.Turn after [] []) :
    session.Turn after msgs commands := by
  have hboth := h.trans h'
  rwa [List.append_nil, List.append_nil] at hboth

/-! ## Parts of a step -/

/-- Nothing is taken where the reader and the commands are the same. -/
theorem Takes.of_same (hreads : session.reader.Reads → after.reader.Reads)
    (htaken : after.reader.taken = session.reader.taken) (hobeyed : after.obeyed = session.obeyed)
    (hcommanded : after.commanded = session.commanded)
    (hcommands : after.commands = session.commands) : session.Takes after [] [] where
  reads := hreads
  taken := htaken.trans (List.append_nil _).symm
  obeyed := hobeyed.trans (List.append_nil _).symm
  order := fun h => by rw [hcommanded, hobeyed, hcommands, h]

/-- Nothing is answered where the replies and the pictures are the same. -/
theorem Answers.of_same (hreplied : after.replied = session.replied)
    (hpictures : after.pictures = session.pictures) (hpiped : session.Piped → after.Piped) :
    session.Answers after [] [] where
  pongs := by rw [hreplied, List.filterMap_nil, List.append_nil]
  inputs := by rw [hreplied, List.filterMap_nil, List.append_nil]
  piped := hpiped
  pictures := ⟨[], hpictures, fun _ => rfl⟩

/-- A session may stay as it is. -/
theorem Turn.refl (session : ClientSession h264) : session.Turn session [] [] :=
  ⟨Takes.of_same id rfl rfl rfl rfl, Answers.of_same rfl rfl id⟩

/-- Telling the window is no answer. -/
theorem turn_emit (session : ClientSession h264) (events : List SinkEvent) :
    session.Turn (session.emit events) [] [] :=
  ⟨Takes.of_same id rfl rfl rfl rfl, Answers.of_same rfl rfl fun h => ⟨h.up, h.wire⟩⟩

/-- Ending the session is no answer. -/
theorem turn_finish (session : ClientSession h264) (config : SessionConfig) (text : String) :
    session.Turn (session.finish config text) [] [] :=
  ⟨Takes.of_same (fun h => h.step .abort) rfl rfl rfl rfl,
    Answers.of_same rfl rfl fun h => ⟨fun hup => (nomatch hup), h.wire⟩⟩

/-- Looking whether enough was seen is no answer. -/
theorem turn_settle (session : ClientSession h264) (config : SessionConfig) :
    session.Turn (session.settle config) [] [] := by
  unfold settle
  split
  · split_ifs
    · exact turn_finish session config _
    · exact Turn.refl session
  · exact Turn.refl session

/-- The writer goes on. -/
theorem Piped.pipe (h : session.Piped) {pipe : Pipe Message}
    (hcontent : pipe.content = session.pipe.content)
    (hwire : session.writerUp = true ∨ pipe.wire = session.pipe.wire) :
    Piped { session with pipe } where
  up := fun hup => hcontent.trans (h.up hup)
  wire := by
    rcases hwire with hup | hsame
    · rw [← h.up hup, ← hcontent, Pipe.content, Pipe.sent, List.append_assoc, List.append_assoc]
      exact List.prefix_append _ _
    · exact hsame ▸ h.wire

/-- Messages for the writer go into an empty place. -/
theorem Piped.reply (h : session.Piped) (hsends : session.pipe.sends = []) (msgs : List Message)
    (gone : WriterGone) : (session.reply msgs gone).Piped where
  up := fun hup => by
    have hcontent := h.up hup
    rw [Pipe.content, hsends, List.append_nil] at hcontent
    show session.pipe.sent ++ msgs = session.replied ++ msgs
    rw [hcontent]
  wire := h.wire.trans (List.prefix_append _ _)

/-- A reply takes nothing. -/
theorem takes_reply (session : ClientSession h264) (msgs : List Message) (gone : WriterGone) :
    session.Takes (session.reply msgs gone) [] [] := Takes.of_same id rfl rfl rfl rfl

/-- Messages about files answer no ping and bring no input. -/
theorem answers_reply_files (session : ClientSession h264)
    (hsends : session.pipe.sends = []) (hfiles : OnlyFiles msgs) (gone : WriterGone) :
    session.Answers (session.reply msgs gone) [] [] where
  pongs := by
    show (session.replied ++ msgs).filterMap pongOf = _
    rw [List.filterMap_append, hfiles.filterMap_eq_nil, List.filterMap_nil]
    intro msg hfile
    cases msg <;> first | rfl | cases hfile
  inputs := by
    show (session.replied ++ msgs).filterMap inputOf = _
    rw [List.filterMap_append, hfiles.filterMap_eq_nil, List.filterMap_nil]
    intro msg hfile
    cases msg <;> first | rfl | cases hfile
  piped := fun h => h.reply hsends msgs gone
  pictures := ⟨[], rfl, fun _ => rfl⟩

/-! ## Messages -/

/-- The reader task takes nothing for the loop. -/
theorem takes_step_reader (session : ClientSession h264) {event : ReadEvent}
    (hevent : event ≠ .take) :
    session.Takes { session with reader := session.reader.step event } [] [] :=
  Takes.of_same (fun h => h.step event) (session.reader.taken_step hevent) rfl rfl rfl

/-- The loop takes the message that waits. -/
theorem takes_take {msg : Message} (hqueue : session.reader.queue = some (.ok msg)) :
    session.Takes { session with reader := session.reader.step .take } [msg] [] where
  reads := fun h => h.step .take
  taken := session.reader.taken_take hqueue
  obeyed := (List.append_nil _).symm
  order := id

/-- A message about a file is answered with messages about files only. -/
theorem turn_handleFile (sha256 : Bytes → Digest) (config : SessionConfig)
    (session : ClientSession h264) (io : Io) (hsends : session.pipe.sends = []) (msg : Message) :
    session.Turn (session.handleFile sha256 config io msg) [] [] := by
  have hfiles := fun replies => @onlyFiles_takeFile sha256 io session.files session.disk
    config.downloadDir msg replies
  unfold handleFile
  split
  next replies files disk htake =>
    refine ⟨Takes.of_same id rfl rfl rfl rfl, ?_⟩
    have hemit : session.Answers ({ session with files, disk }.emit
        (newFileEvents session.files files)) [] [] :=
      Answers.of_same rfl rfl fun h => ⟨h.up, h.wire⟩
    refine hemit.trans (answers_reply_files _ ?_ (hfiles replies (by rw [htake])) .complete)
    exact hsends
  next =>
    exact ⟨Takes.of_same id rfl rfl rfl rfl, Answers.of_same rfl rfl fun h => ⟨h.up, h.wire⟩⟩

/-- Handling a message takes no other one. -/
theorem takes_handle (sha256 : Bytes → Digest) (config : SessionConfig)
    (session : ClientSession h264) (io : Io) (hsends : session.pipe.sends = []) (msg : Message) :
    session.Takes (session.handle sha256 config io msg) [] [] := by
  cases msg with
  | ping nonce => exact takes_reply session _ _
  | pong nonce => exact (Turn.refl session).takes
  | displays displays => exact Takes.of_same id rfl rfl rfl rfl
  | video displayId ptsMs keyframe data => exact Takes.of_same id rfl rfl rfl rfl
  | _ => exact (turn_handleFile sha256 config _ io hsends _).takes

/-- What a message is answered with. -/
theorem answers_handle (sha256 : Bytes → Digest) (config : SessionConfig)
    (session : ClientSession h264) (io : Io) (hsends : session.pipe.sends = []) (msg : Message) :
    session.Answers (session.handle sha256 config io msg) [msg] [] := by
  cases msg with
  | ping nonce =>
      refine ⟨List.filterMap_append, ?_, fun h => h.reply hsends _ _, [], rfl, fun _ => rfl⟩
      show (session.replied ++ [Message.pong nonce]).filterMap inputOf = _
      rw [List.filterMap_append]
      rfl
  | pong nonce =>
      obtain ⟨hpongs, hinputs, hpiped, hpictures⟩ := (Turn.refl session).answers
      exact ⟨hpongs, hinputs, hpiped, hpictures⟩
  | displays displays =>
      exact ⟨(List.append_nil _).symm, (List.append_nil _).symm, fun h => ⟨h.up, h.wire⟩, [], rfl,
        fun _ => rfl⟩
  | video displayId ptsMs keyframe data =>
      refine ⟨(List.append_nil _).symm, (List.append_nil _).symm, fun h => ⟨h.up, h.wire⟩,
        [.packet displayId data], rfl, fun who => ?_⟩
      by_cases hwho : displayId = who
      · simp [packetsOf, packetOf, hwho]
      · simp [packetsOf, packetOf, hwho]
  | _ =>
      obtain ⟨hpongs, hinputs, hpiped, hpictures⟩ :=
        (turn_handleFile sha256 config _ io hsends _).answers
      exact ⟨hpongs, hinputs, hpiped, hpictures⟩

/-- Taking a message is a turn with at most this message. -/
theorem turn_stepTake (sha256 : Bytes → Digest) (config : SessionConfig)
    (session : ClientSession h264) (io : Io) :
    ∃ msgs, session.Turn (session.stepTake sha256 config io) msgs [] := by
  have hfails : ∀ err, session.reader.queue = some (.error err) →
      session.Turn { session with reader := session.reader.step .take } [] [] := by
    intro err hqueue
    refine ⟨Takes.of_same (fun h => h.step .take) ?_ rfl rfl rfl, ?_⟩
    · exact session.reader.taken_take_error hqueue
    · exact Answers.of_same rfl rfl fun h => ⟨h.up, h.wire⟩
  unfold stepTake
  dsimp only
  split
  next msg _ hsends hqueue =>
    have htaken : session.Answers { session with reader := session.reader.step .take } [] [] :=
      Answers.of_same rfl rfl fun h => ⟨h.up, h.wire⟩
    refine ⟨[msg], Turn.and ⟨(takes_take hqueue).trans (takes_handle sha256 config _ io ?_ msg),
      htaken.trans (answers_handle sha256 config _ io ?_ msg)⟩ (turn_settle _ config)⟩
    · exact hsends
    · exact hsends
  next _ _ hqueue => exact ⟨[], (hfails _ hqueue).and (turn_finish _ config _)⟩
  next _ _ hqueue => exact ⟨[], (hfails _ hqueue).and (turn_finish _ config _)⟩
  next =>
    split_ifs
    · exact ⟨[], Turn.refl session⟩
    · exact ⟨[], turn_finish session config _⟩
  next => exact ⟨[], Turn.refl session⟩

/-! ## Commands -/

/-- Sending a file is a turn without a message. -/
theorem turn_sendFile (sha256 : Bytes → Digest) (session : ClientSession h264) (io : Io)
    (hsends : session.pipe.sends = []) (path : Path) :
    session.Turn (session.sendFile sha256 io path) [] [] := by
  have hfiles := fun msgs => @onlyFiles_queueSend sha256 io session.files
    (nextClientId session.nextId) path msgs
  unfold sendFile
  dsimp only
  split
  next =>
    exact ⟨Takes.of_same id rfl rfl rfl rfl, Answers.of_same rfl rfl fun h => ⟨h.up, h.wire⟩⟩
  next msgs files hqueue =>
    refine ⟨Takes.of_same id rfl rfl rfl rfl, ?_⟩
    have hemit : session.Answers ({ session with files, nextId := session.nextId + 1 }.emit
        (newFileEvents session.files files)) [] [] :=
      Answers.of_same rfl rfl fun h => ⟨h.up, h.wire⟩
    refine hemit.trans (answers_reply_files _ ?_ (hfiles msgs (by rw [hqueue])) .status)
    exact hsends

/-- Obeying a command takes nothing. -/
theorem takes_obey (sha256 : Bytes → Digest) (config : SessionConfig)
    (session : ClientSession h264) (io : Io) (hsends : session.pipe.sends = [])
    (command : ClientCommand) :
    session.Takes (session.obey sha256 config io command) [] [] := by
  cases command with
  | input event => exact takes_reply session _ _
  | sendFile path =>
      exact ((turn_sendFile sha256 _ io hsends path).and (turn_settle _ config)).takes
  | disconnect => exact (turn_finish session config _).takes

/-- What a command makes the session send. -/
theorem answers_obey (sha256 : Bytes → Digest) (config : SessionConfig)
    (session : ClientSession h264) (io : Io) (hsends : session.pipe.sends = [])
    (command : ClientCommand) :
    session.Answers (session.obey sha256 config io command) [] [command] := by
  cases command with
  | input event =>
      refine ⟨?_, List.filterMap_append, fun h => h.reply hsends _ _, [], rfl, fun _ => rfl⟩
      show (session.replied ++ [Message.input event]).filterMap pongOf = _
      rw [List.filterMap_append]
      rfl
  | sendFile path =>
      obtain ⟨hpongs, hinputs, hpiped, hpictures⟩ :=
        ((turn_sendFile sha256 _ io hsends path).and (turn_settle _ config)).answers
      exact ⟨hpongs, hinputs, hpiped, hpictures⟩
  | disconnect =>
      obtain ⟨hpongs, hinputs, hpiped, hpictures⟩ :=
        (turn_finish session config "disconnected").answers
      exact ⟨hpongs, hinputs, hpiped, hpictures⟩

/-- Obeying is a turn with at most one command. -/
theorem turn_stepObey (sha256 : Bytes → Digest) (config : SessionConfig)
    (session : ClientSession h264) (io : Io) :
    ∃ commands, session.Turn (session.stepObey sha256 config io) [] commands := by
  unfold stepObey
  split
  next hsends _ _ =>
    split
    next command rest hcommands =>
      have htakes : session.Takes
          { session with commands := rest, obeyed := session.obeyed ++ [command] } [] [command] :=
        ⟨id, (List.append_nil _).symm, rfl, fun h => by simp [h, hcommands]⟩
      have htaken : session.Answers
          { session with commands := rest, obeyed := session.obeyed ++ [command] } [] [] :=
        Answers.of_same rfl rfl fun h => ⟨h.up, h.wire⟩
      refine ⟨[command], htakes.trans (takes_obey sha256 config _ io ?_ command),
        htaken.trans (answers_obey sha256 config _ io ?_ command)⟩
      · exact hsends
      · exact hsends
    next =>
      split_ifs
      · exact ⟨[], Turn.refl session⟩
      · exact ⟨[], turn_finish session config _⟩
  next => exact ⟨[], Turn.refl session⟩

/-! ## The writer -/

/-- What only moves in the pipe is no answer. -/
theorem turn_pipe (session : ClientSession h264) {pipe : Pipe Message}
    (hcontent : pipe.content = session.pipe.content)
    (hwire : session.writerUp = true ∨ pipe.wire = session.pipe.wire) :
    session.Turn { session with pipe } [] [] :=
  ⟨Takes.of_same id rfl rfl rfl rfl, Answers.of_same rfl rfl fun h => h.pipe hcontent hwire⟩

/-- What cannot be sent is dropped when the writer is gone. -/
theorem turn_unsent (hdown : session.writerUp = false) :
    session.Turn session.unsent [] [] :=
  ⟨Takes.of_same id rfl rfl rfl rfl, Answers.of_same rfl rfl fun h =>
    ⟨fun hup => (nomatch hdown.symm.trans hup), h.wire⟩⟩

/-- Moving a message into the channel is a turn with nothing. -/
theorem turn_stepSend (config : SessionConfig) (session : ClientSession h264) :
    session.Turn (session.stepSend config) [] [] := by
  unfold stepSend
  split
  next hup =>
    exact (turn_pipe session (session.pipe.content_send 64) (Or.inl hup)).and
      (turn_settle _ config)
  next hdown =>
    have hunsent := turn_unsent hdown
    split
    · exact hunsent.and (turn_settle _ config)
    · exact hunsent.and (turn_finish _ config _)
    · exact hunsent.and (turn_finish _ config _)
    · exact (hunsent.and (turn_emit _ _)).and (turn_settle _ config)
  next => exact Turn.refl session

/-- The writer's step is a turn with nothing. -/
theorem turn_stepWriter (session : ClientSession h264) {pipe : Pipe Message}
    (hcontent : pipe.content = session.pipe.content) :
    session.Turn (session.stepWriter pipe) [] [] := by
  unfold stepWriter
  split_ifs with hup
  · exact turn_pipe session hcontent (Or.inl hup)
  · exact Turn.refl session

/-! ## Whole runs -/

/-- Every event is a turn. -/
theorem turn_step (sha256 : Bytes → Digest) (config : SessionConfig)
    (session : ClientSession h264) (event : ClientEvent) :
    ∃ msgs commands, session.Turn (session.step sha256 config event) msgs commands := by
  cases event with
  | reader event =>
      cases event with
      | take => exact ⟨[], [], Turn.refl session⟩
      | _ =>
          exact ⟨[], [], takes_step_reader session (by simp),
            Answers.of_same rfl rfl fun h => ⟨h.up, h.wire⟩⟩
  | take io =>
      obtain ⟨msgs, hturn⟩ := turn_stepTake sha256 config session io
      exact ⟨msgs, [], hturn⟩
  | command command =>
      rw [step]
      split_ifs
      · refine ⟨[], [], ⟨id, (List.append_nil _).symm, (List.append_nil _).symm, fun h => ?_⟩,
          Answers.of_same rfl rfl fun h => ⟨h.up, h.wire⟩⟩
        show session.commanded ++ [command] = session.obeyed ++ (session.commands ++ [command])
        rw [h, List.append_assoc]
      · exact ⟨[], [], Turn.refl session⟩
  | closeCommands =>
      exact ⟨[], [], Takes.of_same id rfl rfl rfl rfl,
        Answers.of_same rfl rfl fun h => ⟨h.up, h.wire⟩⟩
  | obey io =>
      obtain ⟨commands, hturn⟩ := turn_stepObey sha256 config session io
      exact ⟨[], commands, hturn⟩
  | send => exact ⟨[], [], turn_stepSend config session⟩
  | writerTakes => exact ⟨[], [], turn_stepWriter session session.pipe.content_poll⟩
  | wrote => exact ⟨[], [], turn_stepWriter session (session.pipe.content_wrote _)⟩
  | writerDied =>
      rw [step]
      split_ifs
      · exact ⟨[], [], Takes.of_same id rfl rfl rfl rfl,
          Answers.of_same rfl rfl fun h => ⟨fun hup => (nomatch hup), h.wire⟩⟩
      · exact ⟨[], [], Turn.refl session⟩
  | paint =>
      exact ⟨[], [], Takes.of_same id rfl rfl rfl rfl,
        (List.append_nil _).symm, (List.append_nil _).symm, fun h => ⟨h.up, h.wire⟩, [.taken], rfl,
        fun _ => rfl⟩

/-- A session that fails takes nothing. -/
theorem turn_fail (session : ClientSession h264) (text : String) :
    session.Turn (session.fail text) [] [] :=
  ⟨Takes.of_same (fun h => h.step .abort) rfl rfl rfl rfl,
    Answers.of_same rfl rfl fun h => ⟨fun hup => (nomatch hup), h.wire⟩⟩

/-- The file of the configuration is queued before anything is taken. -/
theorem turn_queueFirst (sha256 : Bytes → Digest) (config : SessionConfig)
    (session : ClientSession h264) (io : Io) (hsends : session.pipe.sends = []) :
    session.Turn (session.queueFirst sha256 config io) [] [] := by
  have hfiles := fun path msgs => @onlyFiles_queueSend sha256 io session.files
    (nextClientId session.nextId) path msgs
  unfold queueFirst
  split
  next => exact Turn.refl session
  next path _ =>
    dsimp only
    split
    next err files _ =>
      have hfiles : session.Turn { session with files, nextId := session.nextId + 1 } [] [] :=
        ⟨Takes.of_same id rfl rfl rfl rfl, Answers.of_same rfl rfl fun h => ⟨h.up, h.wire⟩⟩
      exact hfiles.and (turn_fail _ _)
    next msgs files hqueue =>
      refine ⟨Takes.of_same id rfl rfl rfl rfl, ?_⟩
      have hemit : session.Answers ({ session with files, nextId := session.nextId + 1 }.emit
          (newFileEvents session.files files)) [] [] :=
        Answers.of_same rfl rfl fun h => ⟨h.up, h.wire⟩
      refine hemit.trans (answers_reply_files _ ?_ (hfiles path msgs (by rw [hqueue])) .status)
      exact hsends

/-- The start of a session takes nothing. -/
theorem turn_start (sha256 : Bytes → Digest) (config : SessionConfig)
    (session : ClientSession h264) (attempt : Attempt) (io : Io)
    (hsends : session.pipe.sends = []) :
    session.Turn (session.start sha256 config attempt io) [] [] := by
  unfold start
  split
  · exact turn_fail session _
  · dsimp only
    split
    · exact (turn_emit session _).and (turn_fail _ _)
    · split
      · exact ((turn_emit session _).and (turn_emit _ _)).and (turn_fail _ _)
      · exact (((turn_emit session _).and (turn_emit _ _)).and (turn_emit _ _)).and
          (turn_queueFirst sha256 config _ io hsends)

/-- What is true between two steps. -/
structure Kept (session : ClientSession h264) : Prop where
  reads : session.reader.Reads
  order : session.commanded = session.obeyed ++ session.commands
  pongs : session.replied.filterMap pongOf = session.reader.taken.filterMap pingOf
  inputs : session.replied.filterMap inputOf = session.obeyed.filterMap ClientCommand.inputOf
  piped : session.Piped
  pictures : ∃ events, session.pictures = run WatchRun.step {} events ∧
    ∀ who, packetsOf who events = session.reader.taken.filterMap (packetOf who)

/-- A turn keeps what the session owes. -/
theorem Kept.turn (h : session.Kept) (hturn : session.Turn after msgs commands) : after.Kept where
  reads := hturn.takes.reads h.reads
  order := hturn.takes.order h.order
  pongs := by rw [hturn.answers.pongs, h.pongs, hturn.takes.taken, List.filterMap_append]
  inputs := by rw [hturn.answers.inputs, h.inputs, hturn.takes.obeyed, List.filterMap_append]
  piped := hturn.answers.piped h.piped
  pictures := by
    obtain ⟨events, hevents, hpackets⟩ := h.pictures
    obtain ⟨more, hmore, hothers⟩ := hturn.answers.pictures
    refine ⟨events ++ more, ?_, fun who => ?_⟩
    · rw [hmore, hevents, run_append]
    · rw [packetsOf_append, hpackets, hothers, hturn.takes.taken, List.filterMap_append]

/-- A session of a program that has sent files before. -/
def fresh (disk : Disk UInt8) (nextId : UInt32) : ClientSession h264 := { disk, nextId }

/-- A fresh session owes nothing. -/
theorem kept_fresh (disk : Disk UInt8) (nextId : UInt32) :
    (fresh disk nextId : ClientSession h264).Kept where
  reads := ReaderTask.Reads.start
  order := rfl
  pongs := rfl
  inputs := rfl
  piped := ⟨fun _ => rfl, List.nil_prefix⟩
  pictures := ⟨[], rfl, fun _ => rfl⟩

/-- A session from its start. -/
def live (sha256 : Bytes → Digest) (config : SessionConfig) (attempt : Attempt) (io : Io)
    (disk : Disk UInt8) (nextId : UInt32) (events : List ClientEvent) : ClientSession h264 :=
  run (fun session event => session.step sha256 config event)
    ((fresh disk nextId).start sha256 config attempt io) events

/-- In every run the session has given what it owes. -/
theorem kept_live (sha256 : Bytes → Digest) (config : SessionConfig) (attempt : Attempt) (io : Io)
    (disk : Disk UInt8) (nextId : UInt32) (events : List ClientEvent) :
    (live sha256 config attempt io disk nextId events : ClientSession h264).Kept :=
  invariant_of_step _ Kept
    (fun session event h => by
      obtain ⟨msgs, commands, hturn⟩ := turn_step sha256 config session event
      exact h.turn hturn)
    ((kept_fresh disk nextId).turn (turn_start sha256 config _ attempt io rfl)) events

end ClientSession

end OmarchyConnect.Client
