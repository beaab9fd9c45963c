/-
# Round trip of the wire format

The documented limits of the format are one predicate on messages,
`Message.WithinLimits`. A message inside them is written by `encode` in a way
that `decode` reads back whole: every layout is the composition of the laws of
its fields, so the proof follows the two functions variant by variant.
-/

import OmarchyConnect.Protocol.Codec

namespace OmarchyConnect.Protocol

open OmarchyConnect.Library.Wire

/-! ## The documented limits -/

/-- A text of at most `maxStringBytes` UTF-8 bytes. -/
def FitsString (text : String) : Prop := (utf8Bytes text).length ≤ maxStringBytes

/-- A byte payload that its length prefix may announce. -/
def FitsFrame (data : Bytes) : Prop := data.length ≤ maxFrameBytes

instance (text : String) : Decidable (FitsString text) := Nat.decLe _ _

instance (data : Bytes) : Decidable (FitsFrame data) := Nat.decLe _ _

/-- A display the decoder accepts: real sizes and a text that fits. -/
structure DisplayInfo.WithinLimits (display : DisplayInfo) : Prop where
  width : display.width ≠ 0
  height : display.height ≠ 0
  scalePercent : display.scalePercent ≠ 0
  name : FitsString display.name

instance (display : DisplayInfo) : Decidable display.WithinLimits :=
  decidable_of_iff
    (display.width ≠ 0 ∧ display.height ≠ 0 ∧ display.scalePercent ≠ 0 ∧ FitsString display.name)
    ⟨fun ⟨hwidth, hheight, hscale, hname⟩ => ⟨hwidth, hheight, hscale, hname⟩,
      fun h => ⟨h.width, h.height, h.scalePercent, h.name⟩⟩

/-- The limits that the wire documentation puts on the fields of a message. -/
def Message.WithinLimits : Message → Prop
  | .hello _ name => FitsString name
  | .displays infos => infos.length ≤ maxDisplays ∧ ∀ display ∈ infos, display.WithinLimits
  | .video _ _ _ data => FitsFrame data
  | .fileOffer _ name _ => FitsString name
  | .fileChunk _ _ data => FitsFrame data
  | .fileCancel _ reason => FitsString reason
  | .auth spake2 => FitsFrame spake2
  | .authDenied _ reason => FitsString reason
  | .helloAck _ | .input _ | .fileAccept _ | .fileAck _ _ | .fileComplete _ _ | .ping _
  | .pong _ | .authConfirm _ => True

instance Message.decidableWithinLimits : (msg : Message) → Decidable msg.WithinLimits
  | .hello _ name | .fileOffer _ name _ => inferInstanceAs (Decidable (FitsString name))
  | .fileCancel _ reason | .authDenied _ reason => inferInstanceAs (Decidable (FitsString reason))
  | .video _ _ _ data | .fileChunk _ _ data | .auth data =>
      inferInstanceAs (Decidable (FitsFrame data))
  | .displays infos =>
      inferInstanceAs (Decidable
        (infos.length ≤ maxDisplays ∧ ∀ display ∈ infos, display.WithinLimits))
  | .helloAck _ | .input _ | .fileAccept _ | .fileAck _ _ | .fileComplete _ _ | .ping _
  | .pong _ | .authConfirm _ => isTrue trivial

/-! ## Records -/

namespace Reader

/-- A display within the limits is read back. -/
theorem reads_display {info : DisplayInfo} (h : info.WithinLimits) :
    Reads display info.encode info := by
  have haccept : ¬ (info.width = 0 ∨ info.height = 0 ∨ info.scalePercent = 0) := by
    simp [h.width, h.height, h.scalePercent]
  apply (reads_u32 info.id).bind
  apply (reads_i32 info.x).bind
  apply (reads_i32 info.y).bind
  apply (reads_u32 info.width).bind
  apply (reads_u32 info.height).bind
  apply (reads_u16 info.scalePercent).bind
  apply (reads_str h.name).bind_last
  rw [if_neg haccept]
  exact Reads.pure info

/-- Displays within the limits are read back. -/
theorem reads_displays {infos : List DisplayInfo} (hcount : infos.length ≤ maxDisplays)
    (hinfos : ∀ info ∈ infos, info.WithinLimits) :
    Reads displays (putU16 (UInt16.ofNat infos.length) ++ infos.flatMap DisplayInfo.encode)
      infos := by
  have hlen : (UInt16.ofNat infos.length).toNat = infos.length := by
    rw [UInt16.toNat_ofNat']
    exact Nat.mod_eq_of_lt (by unfold maxDisplays at hcount; omega)
  apply (reads_u16 _).bind
  rw [hlen, if_neg (by omega)]
  exact reads_times infos fun info hmem => reads_display (hinfos info hmem)

/-- An input event is read back. -/
theorem reads_inputEvent (event : InputEvent) : Reads inputEvent event.encode event := by
  cases event with
  | mouseMove displayId x y =>
      apply (reads_u8 iMove).bind
      apply (reads_u32 displayId).bind
      apply (reads_u32 x).bind
      exact (reads_u32 y).bind_pure rfl
  | mouseButton displayId button held =>
      apply (reads_u8 iButton).bind
      apply (reads_u32 displayId).bind
      apply (reads_u8 button).bind
      exact (reads_pressed held).bind_pure rfl
  | mouseWheel displayId dx dy =>
      apply (reads_u8 iWheel).bind
      apply (reads_u32 displayId).bind
      apply (reads_i32 dx).bind
      exact (reads_i32 dy).bind_pure rfl
  | key code held =>
      apply (reads_u8 iKey).bind
      apply (reads_u16 code).bind
      exact (reads_pressed held).bind_pure rfl

/-- The reader of a message takes exactly its encoding. -/
theorem reads_message {msg : Message} (h : msg.WithinLimits) :
    Reads message msg.encode msg := by
  cases msg with
  | hello version name =>
      apply (reads_u8 tHello).bind
      apply (reads_u16 version).bind
      exact (reads_str h).bind_pure rfl
  | helloAck version =>
      apply (reads_u8 tHelloAck).bind
      exact (reads_u16 version).bind_pure rfl
  | displays infos =>
      apply (reads_u8 tDisplays).bind
      exact (reads_displays h.1 h.2).bind_pure rfl
  | video displayId ptsMs keyframe data =>
      apply (reads_u8 tVideo).bind
      apply (reads_u32 displayId).bind
      apply (reads_u32 ptsMs).bind
      apply (reads_u8 _).bind
      apply (reads_bytes h).bind_pure
      cases keyframe <;> rfl
  | input event =>
      apply (reads_u8 tInput).bind
      exact (reads_inputEvent event).bind_pure rfl
  | fileOffer id name size =>
      apply (reads_u8 tFileOffer).bind
      apply (reads_u32 id).bind
      apply (reads_u64 size).bind
      exact (reads_str h).bind_pure rfl
  | fileAccept id =>
      apply (reads_u8 tFileAccept).bind
      exact (reads_u32 id).bind_pure rfl
  | fileChunk id offset data =>
      apply (reads_u8 tFileChunk).bind
      apply (reads_u32 id).bind
      apply (reads_u64 offset).bind
      exact (reads_bytes h).bind_pure rfl
  | fileAck id offset =>
      apply (reads_u8 tFileAck).bind
      apply (reads_u32 id).bind
      exact (reads_u64 offset).bind_pure rfl
  | fileComplete id sha256 =>
      apply (reads_u8 tFileComplete).bind
      apply (reads_u32 id).bind
      exact (reads_digest sha256).bind_pure rfl
  | fileCancel id reason =>
      apply (reads_u8 tFileCancel).bind
      apply (reads_u32 id).bind
      exact (reads_str h).bind_pure rfl
  | ping nonce =>
      apply (reads_u8 tPing).bind
      exact (reads_u64 nonce).bind_pure rfl
  | pong nonce =>
      apply (reads_u8 tPong).bind
      exact (reads_u64 nonce).bind_pure rfl
  | auth spake2 =>
      apply (reads_u8 tAuth).bind
      exact (reads_bytes h).bind_pure rfl
  | authConfirm mac =>
      apply (reads_u8 tAuthConfirm).bind
      exact (reads_digest mac).bind_pure rfl
  | authDenied retryAfterSecs reason =>
      apply (reads_u8 tAuthDenied).bind
      apply (reads_u32 retryAfterSecs).bind
      exact (reads_str h).bind_pure rfl

end Reader

/-! ## The whole message -/

/-- Within the documented limits a message survives the wire: the reader stops
at the end of its encoding and the decoder returns the message. -/
theorem decode_encode (msg : Message) (h : msg.WithinLimits) :
    Reader.message.run msg.encode = .ok (msg, []) ∧ Message.decode msg.encode = .ok msg := by
  have hrun := (Reader.reads_message h).run_eq
  refine ⟨hrun, ?_⟩
  rw [Message.decode, hrun]
  rfl

/-- Two displays, one left of the origin, in one session description. -/
def twoDisplays : Message :=
  .displays
    [{ id := 0, x := 0, y := 0, width := 960, height := 540, scalePercent := 100, name := "eDP-1" },
      { id := 1, x := -960, y := -40, width := 1920, height := 1080, scalePercent := 150,
        name := "HDMI-A-1" }]

/-- Two displays. -/
theorem decode_encode_twoDisplays :
    twoDisplays.WithinLimits ∧ Reader.message.run twoDisplays.encode = .ok (twoDisplays, []) ∧
      Message.decode twoDisplays.encode = .ok twoDisplays := by
  have hlimits : twoDisplays.WithinLimits := by decide
  exact ⟨hlimits, decode_encode twoDisplays hlimits⟩

end OmarchyConnect.Protocol
