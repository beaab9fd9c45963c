/-
# The decoder accepts canonical bodies only

A body that `Message.decode` accepts is the encoding of the message it returns,
and the message is within the documented limits. The one freedom is the flags byte
of a Video message, of which the decoder reads bit 0 only.

Each field reader comes with what it accepts, beside the law of `Codec` that says
what it reads back; the body of each type is the composition of its fields.
-/

import OmarchyConnect.Protocol.RoundTrip

namespace OmarchyConnect.Protocol

open OmarchyConnect.Library.Wire

/-! ## Field readers -/

namespace Reader

/-- An error accepts nothing. -/
theorem accepts_fail {α : Type} (error : ProtocolError) (P : Bytes → α → Prop) :
    Accepts (fail error) P := Accepts.error error P

/-- What is taken is returned, with its length. -/
theorem accepts_taken (n : ℕ) :
    Accepts (take n) fun taken value => taken = value ∧ value.length = n :=
  accepts_take ProtocolError.truncated n

/-- A byte is accepted as itself. -/
theorem accepts_u8 : Accepts u8 fun taken value => taken = [value] ∧ True := by
  apply (accepts_taken 1).bind
  intro taken bytes htaken
  obtain ⟨rfl, hlength⟩ := htaken
  obtain ⟨byte, rfl⟩ := List.length_eq_one_iff.mp hlength
  exact Accepts.pure ⟨rfl, trivial⟩

/-- The little-endian numbers, of any width. -/
theorem accepts_number {α : Type} {width : ℕ} {ofNat : ℕ → α} {put : α → Bytes}
    (hput : ∀ number, number < 256 ^ width → put (ofNat number) = leBytes width number) :
    Accepts (do return ofNat (ofLeBytes (← take width)))
      fun taken value => taken = put value ∧ True := by
  apply (accepts_taken width).bind
  intro taken bytes htaken
  obtain ⟨rfl, hlength⟩ := htaken
  have hlt := ofLeBytes_lt taken
  rw [hlength] at hlt
  apply Accepts.pure
  rw [List.append_nil, hput _ hlt, ← hlength, leBytes_ofLeBytes]
  exact ⟨rfl, trivial⟩

/-- Two bytes are accepted as the number that is written in them. -/
theorem accepts_u16 : Accepts u16 fun taken value => taken = putU16 value ∧ True :=
  accepts_number fun _ hlt => by rw [putU16, UInt16.toNat_ofNat_of_lt' hlt]

/-- Four bytes are accepted as the number that is written in them. -/
theorem accepts_u32 : Accepts u32 fun taken value => taken = putU32 value ∧ True :=
  accepts_number fun _ hlt => by rw [putU32, UInt32.toNat_ofNat_of_lt' hlt]

/-- Eight bytes are accepted as the number that is written in them. -/
theorem accepts_u64 : Accepts u64 fun taken value => taken = putU64 value ∧ True :=
  accepts_number fun _ hlt => by rw [putU64, UInt64.toNat_ofNat_of_lt' hlt]

/-- Four bytes are accepted as the signed number that is written in them. -/
theorem accepts_i32 : Accepts i32 fun taken value => taken = putI32 value ∧ True := by
  apply accepts_u32.field_last
  intro value _
  exact ⟨by rw [putI32, UInt32.toUInt32_toInt32], trivial⟩

/-- A byte string is accepted with its length in front, and only up to the limit. -/
theorem accepts_bytes :
    Accepts bytes fun taken value => taken = putBytes value ∧ FitsFrame value := by
  apply accepts_u32.field
  intro len _
  split_ifs with hlong
  · exact accepts_fail _ _
  · apply (accepts_taken len.toNat).mono
    intro taken value htaken
    obtain ⟨rfl, hlength⟩ := htaken
    exact ⟨by rw [putBytes, hlength, UInt32.ofNat_toNat], by rw [FitsFrame, hlength]; omega⟩

/-- A text is accepted as its UTF-8 bytes with their length, and only up to the limit. -/
theorem accepts_str : Accepts str fun taken value => taken = putStr value ∧ FitsString value := by
  apply accepts_u16.field
  intro len _
  split_ifs with hlong
  · exact accepts_fail _ _
  · apply (accepts_taken len.toNat).bind
    intro taken raw htaken
    obtain ⟨rfl, hlength⟩ := htaken
    cases htext : String.fromUTF8? taken.toByteArray with
    | none => exact accepts_fail _ _
    | some text =>
        have hbytes : utf8Bytes text = taken := by
          simp only [String.fromUTF8?] at htext
          split_ifs at htext with hvalid
          cases htext
          simp [utf8Bytes, String.fromUTF8]
        have hfits : FitsString text := by
          rw [FitsString, hbytes, hlength]
          omega
        apply Accepts.pure
        rw [putStr_of_le hfits, hbytes, hlength, UInt16.ofNat_toNat, List.append_nil]
        exact ⟨rfl, hfits⟩

/-- A hash is accepted as its bytes. -/
theorem accepts_digest : Accepts digest fun taken value => taken = value.toList ∧ True := by
  apply (accepts_taken 32).bind
  intro taken raw htaken
  obtain ⟨rfl, hlength⟩ := htaken
  apply Accepts.pure
  refine ⟨?_, trivial⟩
  rw [List.append_nil]
  apply List.ext_getElem
  · simp [hlength]
  · intro i hleft hright
    simp [hleft]

/-- A flag is accepted only as 0 or 1. -/
theorem accepts_pressed : Accepts pressed fun taken value => taken = [value.toUInt8] ∧ True := by
  apply accepts_u8.field
  intro flag _
  split_ifs with hup hdown
  · exact Accepts.pure ⟨by rw [hup]; rfl, trivial⟩
  · exact Accepts.pure ⟨by rw [hdown]; rfl, trivial⟩
  · exact accepts_fail _ _

/-! ## Records -/

/-- A display is accepted as it is written, within the limits. -/
theorem accepts_display :
    Accepts display fun taken value => taken = value.encode ∧ value.WithinLimits := by
  apply accepts_u32.field
  intro id _
  apply accepts_i32.field
  intro x _
  apply accepts_i32.field
  intro y _
  apply accepts_u32.field
  intro width _
  apply accepts_u32.field
  intro height _
  apply accepts_u16.field
  intro scalePercent _
  apply accepts_str.field
  intro name hname
  split_ifs with hzero
  · exact accepts_fail _ _
  · simp only [not_or] at hzero
    apply Accepts.pure
    rw [List.append_nil]
    exact ⟨rfl, hzero.1, hzero.2.1, hzero.2.2, hname⟩

/-- Displays are accepted with their number in front, and only up to the limit. -/
theorem accepts_displays :
    Accepts displays fun taken infos =>
      taken = putU16 (UInt16.ofNat infos.length) ++ infos.flatMap DisplayInfo.encode ∧
        infos.length ≤ maxDisplays ∧ ∀ info ∈ infos, info.WithinLimits := by
  apply accepts_u16.field
  intro count _
  split_ifs with hmany
  · exact accepts_fail _ _
  · apply (accepts_times accepts_display count.toNat).mono
    intro taken infos htaken
    obtain ⟨rfl, hlength, hall⟩ := htaken
    refine ⟨by rw [hlength, UInt16.ofNat_toNat], ?_, hall⟩
    omega

/-- An input event is accepted as it is written. -/
theorem accepts_inputEvent :
    Accepts inputEvent fun taken event => taken = event.encode ∧ True := by
  apply accepts_u8.field
  intro inputKind _
  apply Accepts.ite
  · intro hmove
    subst hmove
    apply accepts_u32.field
    intro displayId _
    apply accepts_u32.field
    intro x _
    apply accepts_u32.field_last
    intro y _
    exact ⟨rfl, trivial⟩
  intro _
  apply Accepts.ite
  · intro hbutton
    subst hbutton
    apply accepts_u32.field
    intro displayId _
    apply accepts_u8.field
    intro button _
    apply accepts_pressed.field_last
    intro held _
    exact ⟨rfl, trivial⟩
  intro _
  apply Accepts.ite
  · intro hwheel
    subst hwheel
    apply accepts_u32.field
    intro displayId _
    apply accepts_i32.field
    intro dx _
    apply accepts_i32.field_last
    intro dy _
    exact ⟨rfl, trivial⟩
  intro _
  apply Accepts.ite
  · intro hkey
    subst hkey
    apply accepts_u16.field
    intro code _
    apply accepts_pressed.field_last
    intro held _
    exact ⟨rfl, trivial⟩
  intro _
  exact accepts_fail _ _

end Reader

/-! ## The whole body -/

/-- The body of a Video message whose flags byte may have any bits. -/
def videoBody (displayId ptsMs : UInt32) (flags : UInt8) (data : Bytes) : Bytes :=
  [tVideo] ++ (putU32 displayId ++ (putU32 ptsMs ++ ([flags] ++ putBytes data)))

/-- The bodies that stand for a message: its encoding and, for a Video message, also
the ones with other ignored flag bits. -/
inductive BodyOf : Bytes → Message → Prop
  | encoded (msg : Message) : msg.WithinLimits → BodyOf msg.encode msg
  | video (displayId ptsMs : UInt32) (flags : UInt8) (data : Bytes) : FitsFrame data →
      BodyOf (videoBody displayId ptsMs flags data)
        (.video displayId ptsMs (flags &&& 1 == 1) data)

namespace Reader

/-- Behind each kind the rest of the message is accepted in its one form. -/
theorem accepts_body (kind : UInt8) :
    Accepts (body kind) fun taken msg => BodyOf ([kind] ++ taken) msg := by
  unfold body
  apply Accepts.ite
  · intro hhello
    subst hhello
    apply accepts_u16.field
    intro version _
    apply accepts_str.field_last
    intro name hname
    exact BodyOf.encoded (.hello version name) hname
  intro _
  apply Accepts.ite
  · intro hhelloAck
    subst hhelloAck
    apply accepts_u16.field_last
    intro version _
    exact BodyOf.encoded (.helloAck version) trivial
  intro _
  apply Accepts.ite
  · intro hdisplays
    subst hdisplays
    apply accepts_displays.field_last
    intro infos hinfos
    exact BodyOf.encoded (.displays infos) hinfos
  intro _
  apply Accepts.ite
  · intro hvideo
    subst hvideo
    apply accepts_u32.field
    intro displayId _
    apply accepts_u32.field
    intro ptsMs _
    apply accepts_u8.field
    intro flags _
    apply accepts_bytes.field_last
    intro data hdata
    exact BodyOf.video displayId ptsMs flags data hdata
  intro _
  apply Accepts.ite
  · intro hinput
    subst hinput
    apply accepts_inputEvent.field_last
    intro event _
    exact BodyOf.encoded (.input event) trivial
  intro _
  apply Accepts.ite
  · intro hfileOffer
    subst hfileOffer
    apply accepts_u32.field
    intro id _
    apply accepts_u64.field
    intro size _
    apply accepts_str.field_last
    intro name hname
    exact BodyOf.encoded (.fileOffer id name size) hname
  intro _
  apply Accepts.ite
  · intro hfileAccept
    subst hfileAccept
    apply accepts_u32.field_last
    intro id _
    exact BodyOf.encoded (.fileAccept id) trivial
  intro _
  apply Accepts.ite
  · intro hfileChunk
    subst hfileChunk
    apply accepts_u32.field
    intro id _
    apply accepts_u64.field
    intro offset _
    apply accepts_bytes.field_last
    intro data hdata
    exact BodyOf.encoded (.fileChunk id offset data) hdata
  intro _
  apply Accepts.ite
  · intro hfileAck
    subst hfileAck
    apply accepts_u32.field
    intro id _
    apply accepts_u64.field_last
    intro offset _
    exact BodyOf.encoded (.fileAck id offset) trivial
  intro _
  apply Accepts.ite
  · intro hfileComplete
    subst hfileComplete
    apply accepts_u32.field
    intro id _
    apply accepts_digest.field_last
    intro sha256 _
    exact BodyOf.encoded (.fileComplete id sha256) trivial
  intro _
  apply Accepts.ite
  · intro hfileCancel
    subst hfileCancel
    apply accepts_u32.field
    intro id _
    apply accepts_str.field_last
    intro reason hreason
    exact BodyOf.encoded (.fileCancel id reason) hreason
  intro _
  apply Accepts.ite
  · intro hping
    subst hping
    apply accepts_u64.field_last
    intro nonce _
    exact BodyOf.encoded (.ping nonce) trivial
  intro _
  apply Accepts.ite
  · intro hpong
    subst hpong
    apply accepts_u64.field_last
    intro nonce _
    exact BodyOf.encoded (.pong nonce) trivial
  intro _
  apply Accepts.ite
  · intro hauth
    subst hauth
    apply accepts_bytes.field_last
    intro spake2 hspake2
    exact BodyOf.encoded (.auth spake2) hspake2
  intro _
  apply Accepts.ite
  · intro hauthConfirm
    subst hauthConfirm
    apply accepts_digest.field_last
    intro mac _
    exact BodyOf.encoded (.authConfirm mac) trivial
  intro _
  apply Accepts.ite
  · intro hauthDenied
    subst hauthDenied
    apply accepts_u32.field
    intro retryAfterSecs _
    apply accepts_str.field_last
    intro reason hreason
    exact BodyOf.encoded (.authDenied retryAfterSecs reason) hreason
  intro _
  exact accepts_fail _ _

/-- A message is accepted in its one form, up to the flags that are ignored. -/
theorem accepts_message : Accepts message BodyOf :=
  accepts_u8.field fun kind _ => accepts_body kind

end Reader

/-- What is accepted is a body of the message that is returned. -/
theorem bodyOf_of_decode {buf : Bytes} {msg : Message} (h : Message.decode buf = .ok msg) :
    BodyOf buf msg := by
  rw [Message.decode] at h
  cases hrun : Reader.message.run buf with
  | error err =>
      rw [hrun] at h
      cases h
  | ok pair =>
      obtain ⟨result, rest⟩ := pair
      obtain ⟨taken, hbuf, hbody⟩ := Reader.accepts_message buf result rest hrun
      rw [hrun] at h
      cases rest with
      | nil =>
          cases h
          rw [hbuf, List.append_nil]
          exact hbody
      | cons byte rest => cases h

/-- A Video body with the ignored bits of its flags byte, which stands behind the
type, the display and the time, cleared. Other bodies stay as they are. -/
def clearIgnoredFlags (body : Bytes) : Bytes :=
  if body.head? = some tVideo then body.modify 9 (· &&& 1) else body

/-- Clearing the ignored flags of a video body leaves the one of the keyframe. -/
theorem clearIgnoredFlags_videoBody (displayId ptsMs : UInt32) (flags : UInt8) (data : Bytes) :
    clearIgnoredFlags (videoBody displayId ptsMs flags data) =
      videoBody displayId ptsMs (flags &&& 1) data := by
  rw [clearIgnoredFlags, if_pos (by rfl)]
  simp [videoBody, putU32, leBytes]

/-- The flag of the keyframe is the lowest bit. -/
theorem toUInt8_and_one (flags : UInt8) : (flags &&& 1 == 1).toUInt8 = flags &&& 1 := by
  have hbit : (flags &&& 1).toNat = flags.toNat % 2 := by
    rw [UInt8.toNat_and]
    exact Nat.and_one_is_mod flags.toNat
  cases Nat.mod_two_eq_zero_or_one flags.toNat with
  | inl hzero =>
      have hflag : flags &&& 1 = 0 := UInt8.toNat_inj.mp (hbit.trans hzero)
      rw [hflag]
      rfl
  | inr hone =>
      have hflag : flags &&& 1 = 1 := UInt8.toNat_inj.mp (hbit.trans hone)
      rw [hflag]
      rfl

/-- Only the encodings of Video messages are touched, and those keep their flags. -/
theorem clearIgnoredFlags_encode (msg : Message) : clearIgnoredFlags msg.encode = msg.encode := by
  cases msg with
  | video displayId ptsMs keyframe data =>
      have hflags : keyframe.toUInt8 &&& 1 = keyframe.toUInt8 := by cases keyframe <;> rfl
      have hclear := clearIgnoredFlags_videoBody displayId ptsMs keyframe.toUInt8 data
      rw [hflags] at hclear
      exact hclear
  | _ => exact if_neg (by simp [Message.encode]; decide)

/-- A body of a message is its encoding up to the ignored flag bits. -/
theorem BodyOf.encode_eq {buf : Bytes} {msg : Message} (h : BodyOf buf msg) :
    msg.encode = clearIgnoredFlags buf ∧ msg.WithinLimits := by
  cases h with
  | encoded msg hlimits => exact ⟨(clearIgnoredFlags_encode msg).symm, hlimits⟩
  | video displayId ptsMs flags data hdata =>
      have hencode : (Message.video displayId ptsMs (flags &&& 1 == 1) data).encode =
          videoBody displayId ptsMs (flags &&& 1 == 1).toUInt8 data := rfl
      rw [clearIgnoredFlags_videoBody, hencode, toUInt8_and_one]
      exact ⟨rfl, hdata⟩

/-- The bodies of a Video message differ in the ignored flag bits only. -/
theorem BodyOf.eq_videoBody {buf data : Bytes} {displayId ptsMs : UInt32} {keyframe : Bool}
    (h : BodyOf buf (.video displayId ptsMs keyframe data)) :
    ∃ flags, buf = videoBody displayId ptsMs flags data ∧ flags &&& 1 = keyframe.toUInt8 := by
  generalize hmsg : Message.video displayId ptsMs keyframe data = msg at h
  cases h with
  | encoded msg hlimits =>
      rw [← hmsg]
      exact ⟨keyframe.toUInt8, rfl, by cases keyframe <;> rfl⟩
  | video otherDisplay otherPts flags otherData hdata =>
      cases hmsg
      exact ⟨flags, rfl, (toUInt8_and_one flags).symm⟩

/-- A message of any other type has one body. -/
theorem BodyOf.eq_encode {buf : Bytes} {msg : Message} (h : BodyOf buf msg)
    (hvideo : ∀ displayId ptsMs keyframe data, msg ≠ .video displayId ptsMs keyframe data) :
    buf = msg.encode := by
  cases h with
  | encoded msg hlimits => rfl
  | video displayId ptsMs flags data hdata => exact absurd rfl (hvideo displayId ptsMs _ data)

/-- The decoder accepts canonical bodies only: the message encodes to the body with
the ignored flag bits of a Video cleared and is within the documented limits, and
another body of the same message differs in those bits alone. -/
theorem decode_canonical (buf : Bytes) (msg : Message) (h : Message.decode buf = .ok msg) :
    msg.encode = clearIgnoredFlags buf ∧ msg.WithinLimits ∧
      ∀ other, Message.decode other = .ok msg → other ≠ buf →
        ∃ displayId ptsMs flags otherFlags data,
          buf = videoBody displayId ptsMs flags data ∧
            other = videoBody displayId ptsMs otherFlags data ∧
              flags &&& 1 = otherFlags &&& 1 := by
  have hbody := bodyOf_of_decode h
  refine ⟨hbody.encode_eq.1, hbody.encode_eq.2, ?_⟩
  intro other hother hne
  have hotherBody := bodyOf_of_decode hother
  cases msg with
  | video displayId ptsMs keyframe data =>
      obtain ⟨flags, hbuf, hbit⟩ := hbody.eq_videoBody
      obtain ⟨otherFlags, hotherBuf, hotherBit⟩ := hotherBody.eq_videoBody
      exact ⟨displayId, ptsMs, flags, otherFlags, data, hbuf, hotherBuf,
        hbit.trans hotherBit.symm⟩
  | _ =>
      have hsame := hbody.eq_encode (by simp)
      rw [← hotherBody.eq_encode (by simp)] at hsame
      exact absurd hsame.symm hne

/-- A Video body with all its flag bits set. -/
def noisyVideo : Bytes := videoBody 1 40 0xff [0, 0, 1, 0x65]

/-- A packet with ignored flags set. -/
theorem decode_canonical_noisyVideo :
    Message.decode noisyVideo = .ok (.video 1 40 true [0, 0, 1, 0x65]) ∧
      (Message.video 1 40 true [0, 0, 1, 0x65]).encode = clearIgnoredFlags noisyVideo ∧
        (Message.video 1 40 true [0, 0, 1, 0x65]).WithinLimits := by
  have hdecode : Message.decode noisyVideo = .ok (.video 1 40 true [0, 0, 1, 0x65]) := by
    decide +kernel
  have hcanonical := decode_canonical noisyVideo (.video 1 40 true [0, 0, 1, 0x65]) hdecode
  exact ⟨hdecode, hcanonical.1, hcanonical.2.1⟩

end OmarchyConnect.Protocol
