/-
# What a step does to the channels

`SessionStep` says all that an event of the session can do to the two channels, and
`WriterStep` all that the writer can do.
-/

import OmarchyConnect.Host.Announcements

namespace OmarchyConnect.Host

open OmarchyConnect.Library.Wire OmarchyConnect.Library.Files OmarchyConnect.Protocol

namespace Channels

/-- The event sends a message on `ctrl`. -/
inductive SendsCtrl (state : Channels) (msg : Message) : SessionEvent → Prop
  | drive {io : Io} {counter : UInt32} {backend : RawFrame → Backend}
      (hmsg : state.session.sendsCtrl = some msg) :
      SendsCtrl state msg (.drive (.sent true io counter backend))
  | reader (hmsg : state.session.readerSends state.pong = some msg) :
      SendsCtrl state msg (.reader (.sent true))

/-- The event is the end of a send that puts nothing into a channel though it could. -/
def Quiet (state : Channels) (event : SessionEvent) : Prop :=
  ∀ ok io counter backend, event = .drive (.sent ok io counter backend) →
    state.closed = true ∨ state.session.sendsCtrl = none ∧ state.session.sendsVideo = none

/-- All that an event of the session can do. -/
inductive SessionStep (sha256 : Bytes → Digest) (state : Channels) (event : SessionEvent) :
    Channels → Prop
  | waits : SessionStep sha256 state event state
  | moves {pong : UInt64} {writerAborted : Bool} (hquiet : state.Quiet event)
      (hopened : ∀ displays, event ≠ .drive (.captureOpened (some displays))) :
      SessionStep sha256 state event { state.advance sha256 event with pong, writerAborted }
  | ctrl {msg : Message} (hsends : state.SendsCtrl msg event) :
      SessionStep sha256 state event
        { state.advance sha256 event with
          ctrl := state.ctrl ++ [msg]
          queued := state.queued ++ [msg] }
  | video {msg : Message} (hopen : state.closed = false)
      (hsends : state.session.sendsVideo = some msg) (hctrl : state.session.sendsCtrl = none)
      (hevent : ∃ io counter backend, event = .drive (.sent true io counter backend)) :
      SessionStep sha256 state event
        { state.advance sha256 event with
          video := some
            { message := msg
              encoder := (displayOf msg).bind state.session.encoders
              announced := lastDisplays state.queued } }

/-- Sending on `ctrl` waits, fails or puts the message in. -/
theorem sessionStep_sendCtrl (sha256 : Bytes → Digest) {state : Channels} {ok : Bool}
    {msg : Message} {event : SessionEvent} (hsends : ok = true → state.SendsCtrl msg event)
    (hopened : ∀ displays, event ≠ .drive (.captureOpened (some displays))) :
    SessionStep sha256 state event (state.sendCtrl sha256 ok msg event) := by
  unfold sendCtrl
  cases ok with
  | true =>
      simp only [if_true]
      split_ifs
      · exact .ctrl (hsends rfl)
      · exact .waits
  | false =>
      simp only [Bool.false_eq_true, if_false]
      split_ifs with hclosed
      · exact .moves (fun _ _ _ _ _ => Or.inl hclosed) hopened
      · exact .waits

/-- What the session does on its own. -/
theorem sessionStep_advance (sha256 : Bytes → Digest) {state : Channels} {event : SessionEvent}
    (hquiet : state.Quiet event)
    (hopened : ∀ displays, event ≠ .drive (.captureOpened (some displays))) :
    SessionStep sha256 state event (state.advance sha256 event) :=
  @SessionStep.moves sha256 state event state.pong state.writerAborted hquiet hopened

/-- An event of `drive_session` that is no end of a send. -/
theorem quiet_of_ne {state : Channels} {event : SessionEvent}
    (h : ∀ ok io counter backend, event ≠ .drive (.sent ok io counter backend)) :
    state.Quiet event :=
  fun ok io counter backend heq => absurd heq (h ok io counter backend)

/-- `stepSession` does nothing else. -/
theorem sessionStep (sha256 : Bytes → Digest) (state : Channels) (event : SessionEvent) :
    SessionStep sha256 state event (state.stepSession sha256 event) := by
  unfold stepSession
  split
  next => exact .waits
  next ok io counter backend =>
      split
      next msg hmsg =>
          refine sessionStep_sendCtrl sha256 (fun hok => ?_) (by rintro _ ⟨⟩)
          rw [hok]
          exact .drive hmsg
      next msg hctrl hmsg =>
          unfold sendVideo
          cases ok with
          | true =>
              simp only [if_true]
              split_ifs with hroom
              · exact .video hroom.1 hmsg hctrl ⟨_, _, _, rfl⟩
              · exact .waits
          | false =>
              simp only [Bool.false_eq_true, if_false]
              split_ifs with hclosed
              · exact sessionStep_advance sha256 (fun _ _ _ _ _ => Or.inl hclosed)
                  (by rintro _ ⟨⟩)
              · exact .waits
      next hctrl hvideo =>
          refine sessionStep_advance sha256 (fun _ _ _ _ _ => Or.inr ⟨hctrl, hvideo⟩) ?_
          rintro _ ⟨⟩
  next driven hopened hsent =>
      refine .moves (quiet_of_ne ?_) ?_
      · rintro ok io counter backend ⟨⟩
        exact hsent ok io counter backend rfl
      · rintro displays ⟨⟩
        exact hopened displays rfl
  next ok =>
      split
      next msg hmsg =>
          refine sessionStep_sendCtrl sha256 (fun hok => ?_) (by rintro _ ⟨⟩)
          rw [hok]
          exact .reader hmsg
      next => exact sessionStep_advance sha256 (quiet_of_ne (by rintro _ _ _ _ ⟨⟩)) (by rintro _ ⟨⟩)
  next => exact .moves (quiet_of_ne (by rintro _ _ _ _ ⟨⟩)) (by rintro _ ⟨⟩)
  next _ _ hdrive _ _ =>
      refine sessionStep_advance sha256 (quiet_of_ne ?_) ?_
      · rintro ok io counter backend rfl
        exact hdrive _ rfl
      · rintro displays rfl
        exact hdrive _ rfl

/-- All that the writer can do. -/
inductive WriterStep (state : Channels) : WriterEvent → Channels → Prop
  | stays {event : WriterEvent} : WriterStep state event state
  | moves {event : WriterEvent} {writer : WriterAt} (hopen : state.closed = false)
      (hwriter : ∀ out, writer ≠ .writing out) : WriterStep state event { state with writer }
  | takesVideo {packet : Packet} (hopen : state.closed = false)
      (hvideo : state.video = some packet) :
      WriterStep state .pollVideo { state with video := none, writer := .writing (.video packet) }
  | takesCtrl {msg : Message} {rest : List Message} (hopen : state.closed = false)
      (hctrl : state.ctrl = msg :: rest) :
      WriterStep state .pollCtrl { state with ctrl := rest, writer := .writing (.ctrl msg) }
  | wrote {out : Outgoing} (hwriter : state.writer = .writing out) :
      WriterStep state (.wrote true)
        { state with wire := state.wire ++ [out], writer := .selecting }

/-- What a step of the writer can do. -/
theorem writerStep (state : Channels) (event : WriterEvent) :
    WriterStep state event (state.stepWriter event) := by
  unfold stepWriter
  split
  next => exact .stays
  next hwriter =>
      refine .moves (by simp [closed, hwriter]) ?_
      split_ifs <;> rintro _ ⟨⟩
  next hwriter =>
      have hopen : state.closed = false := by simp [closed, hwriter]
      split
      next hvideo => exact .takesVideo hopen hvideo
      next =>
          refine .moves hopen ?_
          split_ifs <;> rintro _ ⟨⟩
  next hwriter =>
      have hopen : state.closed = false := by simp [closed, hwriter]
      split
      next hctrl => exact .takesCtrl hopen hctrl
      next =>
          refine .moves hopen ?_
          split_ifs <;> rintro _ ⟨⟩
  next hwriter => exact .wrote hwriter
  next hwriter => exact .moves (by simp [closed, hwriter]) (by rintro _ ⟨⟩)
  next hwriter => exact .moves (by simp [closed, hwriter]) (by rintro _ ⟨⟩)
  next hwriter =>
      split_ifs
      · refine .moves ?_ (by rintro _ ⟨⟩)
        unfold closed
        split
        next hfinished => exact absurd hfinished hwriter
        next => rfl
      · exact .stays
  next => exact .stays

end Channels

end OmarchyConnect.Host
