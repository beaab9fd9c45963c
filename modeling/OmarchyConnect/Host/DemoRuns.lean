/-
# Runs of the demo

The reader moves the pointer while the desktop is drawn. Each tick shows its number and the
pointer where the input that was applied by then has put it, and no monitor shows the same
picture twice before the counter wraps around.
-/

import OmarchyConnect.Host.SyntheticPictures

namespace OmarchyConnect.Host

open OmarchyConnect.Library.Wire OmarchyConnect.Library.Files OmarchyConnect.Library.Loops
open OmarchyConnect.Protocol

/-! ## The pointer -/

/-- `reader_task` with a `MouseMove`. -/
def Cursor.follow (cursor : Cursor) : InputEvent → Cursor
  | .mouseMove displayId x y => { displayId, x, y, visible := true }
  | _ => cursor

/-- Where some input has put the pointer. -/
def pointerAfter (events : List InputEvent) : Cursor := events.foldl Cursor.follow {}

namespace Session

/-- The pointer has followed the input that was applied in between. -/
def Points (session next : Session) : Prop :=
  ∃ more, next.applied = session.applied ++ more ∧
    next.cursor = more.foldl Cursor.follow session.cursor

variable {session next : Session}

/-- What keeps the inputs and the pointer points alike. -/
theorem Points.of_same (happlied : next.applied = session.applied)
    (hcursor : next.cursor = session.cursor) : session.Points next :=
  ⟨[], happlied.trans (List.append_nil _).symm, hcursor⟩

/-- A session may stay as it is. -/
theorem Points.refl (session : Session) : session.Points session := .of_same rfl rfl

/-- Sending frames leaves the pointer alone. -/
theorem cursor_sendFrames (backend : RawFrame → Backend) (ptsStep : UInt64) (session : Session)
    (frames : List RawFrame) :
    (sendFrames backend ptsStep session frames).cursor = session.cursor := by
  induction frames generalizing session with
  | nil => rfl
  | cons frame frames ih =>
      unfold sendFrames
      split
      next => rfl
      next => exact ih _
      next => rfl

/-- Sending frames points alike. -/
theorem points_sendFrames (backend : RawFrame → Backend) (ptsStep : UInt64) (session : Session)
    (frames : List RawFrame) : session.Points (sendFrames backend ptsStep session frames) :=
  .of_same (framesSent backend ptsStep session frames).applied
    (cursor_sendFrames backend ptsStep session frames)

/-- An offer points alike. -/
theorem points_sendOffer (session : Session) (msgs : List Message) :
    session.Points (session.sendOffer msgs) := by
  cases msgs with
  | nil => exact .of_same rfl rfl
  | cons msg msgs => exact .of_same rfl rfl

variable (sha256 : Bytes → Digest)

/-- A step of the frame loop points alike. -/
theorem points_stepDrive (session : Session) (event : DriveEvent) :
    session.Points (session.stepDrive sha256 event) := by
  have hmove := driveMove sha256 session event
  generalize session.stepDrive sha256 event = next at hmove ⊢
  cases hmove with
  | stays => exact .refl session
  | opened => exact .of_same rfl rfl
  | starts => exact points_sendOffer session _
  | offers =>
      obtain ⟨more, happlied, hcursor⟩ := points_sendOffer { session with xfer := _ } _
      exact ⟨more, happlied, hcursor⟩
  | offersMore => exact points_sendOffer session _
  | ticked => exact points_sendFrames _ _ session _
  | framed => exact points_sendFrames _ _ session _
  | resized => exact .of_same rfl rfl
  | updated => exact points_sendFrames _ _ session _
  | packet => exact .of_same rfl rfl
  | frameDone => exact points_sendFrames _ _ session _
  | leaves hleaves =>
      obtain ⟨drive, cancelled, xfer, reader, hnext, -⟩ := hleaves.next_eq
      rw [hnext]
      exact .of_same rfl rfl

/-- Applying an input moves the pointer with it. -/
theorem points_applyInput (session : Session) (msg : Message) :
    session.Points (session.applyInput msg) := by
  cases msg with
  | input event => cases event <;> exact ⟨[_], rfl, rfl⟩
  | _ => exact .refl session

/-- Taking a message moves the pointer with its input. -/
theorem points_takeMessage (session : Session) (io : Io) (reader : Reader) (msg : Message) :
    session.Points (session.takeMessage sha256 io reader msg) := by
  obtain ⟨more, happlied, hcursor⟩ := points_applyInput session msg
  unfold takeMessage
  split
  next => exact .of_same rfl rfl
  next =>
    dsimp only
    split
    next replies _ =>
      cases replies with
      | nil => exact ⟨more, happlied, hcursor⟩
      | cons reply replies => exact ⟨more, happlied, hcursor⟩
    next => exact ⟨more, happlied, hcursor⟩

/-- A step of the reader moves the pointer with the inputs. -/
theorem points_stepReader (session : Session) (reader : Reader) (event : ReaderEvent) :
    session.Points (session.stepReader sha256 reader event) := by
  have hmove := readerMove sha256 session reader event
  generalize session.stepReader sha256 reader event = next at hmove ⊢
  cases hmove with
  | stays => exact .refl session
  | takes => exact points_takeMessage sha256 session _ reader _
  | replied =>
      rename_i replies _ _
      cases replies.tail with
      | nil => exact .of_same rfl rfl
      | cons reply rest => exact .of_same rfl rfl
  | _ => exact .of_same rfl rfl

/-- A step of the session moves the pointer with the inputs. -/
theorem points_step (session : Session) (event : SessionEvent) :
    session.Points (session.step sha256 event) := by
  cases event with
  | drive event => exact points_stepDrive sha256 session event
  | reader event =>
      unfold step
      dsimp only
      split
      next => exact .refl session
      next reader _ => exact points_stepReader sha256 session reader event
  | disconnect =>
      unfold step
      dsimp only
      split
      next => exact .refl session
      next => exact .of_same rfl rfl
  | shutdown => exact .of_same rfl rfl

end Session

/-! ## A tick -/

/-- The frame of a display shows the number of the tick and the pointer. -/
structure FrameShown (number : ℕ) (applied : List InputEvent) (place : DisplayInfo × ℕ)
    (frame : RawFrame) : Prop where
  displayId : frame.displayId = place.1.id
  width : frame.width = place.1.width
  height : frame.height = place.1.height
  picture : (testPicture place.2 (UInt64.ofNat number) place.1.width place.1.name
    (SyntheticDesktop.pointerOn (pointerAfter applied) place.1.id)).Shows
      place.1.width place.1.height frame.i420

/-- All that a tick has drawn. -/
def TickShown (number : ℕ) (applied : List InputEvent) (frames : List RawFrame) : Prop :=
  List.Forall₂ (FrameShown number applied) demoDisplays.zipIdx frames

/-- The desktop is drawn without a panic, with the pointer of the inputs. -/
theorem render_yields (desktop : SyntheticDesktop) (hdisplays : desktop.displays = demoDisplays)
    {number : ℕ} (hframe : desktop.frame = UInt64.ofNat number) (applied : List InputEvent) :
    Yields (desktop.render (pointerAfter applied)) fun (after, frames) =>
      after = { desktop with frame := desktop.frame + 1 } ∧ TickShown number applied frames := by
  have hdraw : ∀ place ∈ desktop.displays.zipIdx,
      Yields (desktop.renderDisplay (pointerAfter applied) place.1 place.2)
        (FrameShown number applied place) := by
    intro place _
    refine (renderI420_yields place.2 desktop.frame place.1.width place.1.height place.1.name
      _).bind fun i420 hi420 => .ok ⟨rfl, rfl, rfl, ?_⟩
    rw [← hframe]
    exact hi420
  refine (mapM_yields (FrameShown number applied) hdraw).bind fun frames hframes => .ok ⟨rfl, ?_⟩
  rw [hdisplays] at hframes
  exact hframes

/-- Each frame of a tick is of one of the displays. -/
theorem TickShown.exists_place {number : ℕ} {applied : List InputEvent} {frames : List RawFrame}
    (h : TickShown number applied frames) {frame : RawFrame} (hframe : frame ∈ frames) :
    ∃ place ∈ demoDisplays.zipIdx, FrameShown number applied place frame := by
  obtain ⟨i, hi, rfl⟩ := List.getElem_of_mem hframe
  have hplace : i < demoDisplays.zipIdx.length := h.length_eq ▸ hi
  exact ⟨_, List.getElem_mem hplace, h.get hplace hi⟩

/-- The two displays have different ids. -/
theorem place_inj : ∀ place ∈ demoDisplays.zipIdx, ∀ other ∈ demoDisplays.zipIdx,
    place.1.id = other.1.id → place = other := by
  decide

/-- Both displays have room for the text. -/
theorem place_wide : ∀ place ∈ demoDisplays.zipIdx,
    24 + (place.1.name.toList.length + 21) * 18 ≤ place.1.width.toNat ∧
      45 ≤ place.1.height.toNat := by
  decide

/-- The frames of a display differ when their numbers do. -/
theorem FrameShown.differs {number number' : ℕ} {applied applied' : List InputEvent}
    {place : DisplayInfo × ℕ} {frame other : RawFrame} (hplace : place ∈ demoDisplays.zipIdx)
    (hframe : FrameShown number applied place frame)
    (hother : FrameShown number' applied' place other)
    (hne : UInt64.ofNat number ≠ UInt64.ofNat number') : frame.i420 ≠ other.i420 := by
  obtain ⟨hwidth, hheight⟩ := place_wide place hplace
  obtain ⟨row, hrow, col, hcol, hdiffer⟩ := testPicture_differs place.2 place.2 hne place.1.name
    hwidth (SyntheticDesktop.pointerOn (pointerAfter applied) place.1.id)
    (SyntheticDesktop.pointerOn (pointerAfter applied') place.1.id)
  intro hsame
  have hfirst := hframe.picture.y row (hrow.trans_le hheight) col hcol
  have hsecond := hother.picture.y row (hrow.trans_le hheight) col hcol
  rw [hsame] at hfirst
  exact hdiffer (hfirst.symm.trans hsecond)

/-- Numbers less than a turn of the counter apart are different. -/
theorem ofNat_ne_ofNat {number number' : ℕ} (hlt : number < number')
    (hnear : number' < number + 2 ^ 64) : UInt64.ofNat number ≠ UInt64.ofNat number' := by
  intro heq
  have hmod : number % 2 ^ 64 = number' % 2 ^ 64 := by
    simpa using congrArg UInt64.toNat heq
  omega

/-! ## Runs -/

namespace DemoSession

variable {sha256 : Bytes → Digest}

/-- What holds in every run. -/
structure Kept (demo : DemoSession) : Prop where
  displays : demo.desktop.displays = demoDisplays
  frame : demo.desktop.frame = UInt64.ofNat demo.rendered.length
  pointer : demo.session.cursor = pointerAfter demo.session.applied
  seen : ∀ tick ∈ demo.rendered, tick.1 <+: demo.session.applied
  ordered : demo.rendered.Pairwise fun earlier later => earlier.1 <+: later.1
  shown : ∀ number tick, demo.rendered[number]? = some tick → TickShown number tick.1 tick.2

/-- At first nothing was drawn. -/
theorem kept_start (config : HostConfig) (disk : Disk UInt8) : (start config disk).Kept where
  displays := rfl
  frame := rfl
  pointer := rfl
  seen := fun _ htick => nomatch htick
  ordered := .nil
  shown := fun _ _ htick => nomatch htick

/-- The session goes on between two ticks. -/
theorem Kept.session {demo : DemoSession} (h : demo.Kept) {next : Session}
    (hpoints : demo.session.Points next) : Kept { demo with session := next } where
  displays := h.displays
  frame := h.frame
  pointer := by
    obtain ⟨more, happlied, hcursor⟩ := hpoints
    show next.cursor = pointerAfter next.applied
    rw [hcursor, happlied, h.pointer, pointerAfter, pointerAfter, List.foldl_append]
  seen := fun tick htick => by
    obtain ⟨more, happlied, -⟩ := hpoints
    show tick.1 <+: next.applied
    rw [happlied]
    exact (h.seen tick htick).trans (List.prefix_append _ _)
  ordered := h.ordered
  shown := h.shown

/-- A tick shows its number. -/
theorem Kept.render {demo : DemoSession} (h : demo.Kept) {frames : List RawFrame}
    (hframes : TickShown demo.rendered.length demo.session.applied frames) :
    Kept
      { demo with
        desktop := { demo.desktop with frame := demo.desktop.frame + 1 }
        rendered := demo.rendered ++ [(demo.session.applied, frames)] } where
  displays := h.displays
  frame := by
    show demo.desktop.frame + 1 = _
    rw [h.frame, List.length_append, List.length_singleton, UInt64.ofNat_add]
    rfl
  pointer := h.pointer
  seen := fun tick htick => by
    rcases List.mem_append.mp htick with hearlier | hlast
    · exact h.seen tick hearlier
    · obtain rfl := List.mem_singleton.mp hlast
      exact List.prefix_rfl
  ordered := by
    refine List.pairwise_append.mpr ⟨h.ordered, List.pairwise_singleton _ _, ?_⟩
    intro earlier hearlier later hlater
    obtain rfl := List.mem_singleton.mp hlater
    exact h.seen earlier hearlier
  shown := fun number tick htick => by
    rcases Nat.lt_or_ge number demo.rendered.length with hearlier | hlast
    · rw [List.getElem?_append_left hearlier] at htick
      exact h.shown number tick htick
    · rw [List.getElem?_append_right hlast] at htick
      obtain ⟨hlength, rfl⟩ : number = demo.rendered.length ∧
          tick = (demo.session.applied, frames) := by
        obtain ⟨hzero, heq⟩ := List.getElem?_eq_some_iff.mp htick
        rw [List.length_singleton] at hzero
        exact ⟨by omega, by rw [← heq, List.getElem_singleton]⟩
      exact hlength ▸ hframes

/-- A step does not panic, and keeps what was shown right. -/
theorem kept_step (demo : DemoSession) (event : DemoEvent) (h : demo.Kept) :
    Yields (demo.step sha256 event) Kept := by
  cases event with
  | tick backend =>
      show Yields (demo.tick sha256 backend) Kept
      unfold tick
      split
      next =>
        rw [h.pointer]
        refine (render_yields demo.desktop h.displays h.frame demo.session.applied).bind
          fun (desktop, frames) ⟨hdesktop, hframes⟩ => .ok ?_
        subst hdesktop
        exact (h.render hframes).session (Session.points_stepDrive sha256 demo.session _)
      next => exact .ok h
  | session event =>
      cases event with
      | drive event =>
          cases event with
          | tick frames backend => exact .ok h
          | _ => exact .ok (h.session (Session.points_step sha256 demo.session _))
      | _ => exact .ok (h.session (Session.points_step sha256 demo.session _))

/-- No run panics, and what was shown is right. -/
theorem kept_run (config : HostConfig) (disk : Disk UInt8) (events : List DemoEvent) :
    Yields (events.foldlM (step sha256) (start config disk)) Kept :=
  foldlM_yields Kept (kept_start config disk) kept_step events

/-- In no run of the demo does a display show the same picture twice within a turn of the
counter of its frames, wherever the pointer is. -/
theorem demo_never_repeats (sha256 : Bytes → Digest) (config : HostConfig) (disk : Disk UInt8)
    (events : List DemoEvent) :
    Yields (events.foldlM (step sha256) (start config disk)) fun demo =>
      ∀ number number' tick tick', number < number' → number' < number + 2 ^ 64 →
        demo.rendered[number]? = some tick → demo.rendered[number']? = some tick' →
          ∀ frame ∈ tick.2, ∀ other ∈ tick'.2, frame.displayId = other.displayId →
            frame.i420 ≠ other.i420 := by
  refine (kept_run config disk events).mono fun demo h => ?_
  intro number number' tick tick' hlt hnear htick htick' frame hframe other hother hid
  obtain ⟨place, hplace, hshown⟩ := (h.shown number tick htick).exists_place hframe
  obtain ⟨place', hplace', hshown'⟩ := (h.shown number' tick' htick').exists_place hother
  obtain rfl := place_inj place hplace place' hplace'
    (hshown.displayId.symm.trans (hid.trans hshown'.displayId))
  exact hshown.differs hplace hshown' (ofNat_ne_ofNat hlt hnear)

end DemoSession

end OmarchyConnect.Host
