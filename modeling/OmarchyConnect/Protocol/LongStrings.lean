/-
# Texts over the limit

`put_str` cuts a text after `maxStringBytes` bytes, and the reader wants whole characters.
A message with texts of any length arrives with every long text cut to a prefix of itself,
just when that byte is the start of a character in each of them: `survivesCut_iff`.
-/

import OmarchyConnect.Protocol.Canonical
import OmarchyConnect.Protocol.Framing

namespace OmarchyConnect.Protocol

open OmarchyConnect.Library.Wire

/-! ## The texts of a message -/

namespace Message

/-- The texts of a message. -/
def texts : Message → List String
  | .hello _ name => [name]
  | .displays infos => infos.map DisplayInfo.name
  | .fileOffer _ name _ => [name]
  | .fileCancel _ reason => [reason]
  | .authDenied _ reason => [reason]
  | .helloAck _ | .video _ _ _ _ | .input _ | .fileAccept _ | .fileChunk _ _ _ | .fileAck _ _
  | .fileComplete _ _ | .ping _ | .pong _ | .auth _ | .authConfirm _ => []

/-- The message with other texts. -/
def mapTexts (f : String → String) : Message → Message
  | .hello version name => .hello version (f name)
  | .displays infos => .displays (infos.map fun info => { info with name := f info.name })
  | .fileOffer id name size => .fileOffer id (f name) size
  | .fileCancel id reason => .fileCancel id (f reason)
  | .authDenied retryAfterSecs reason => .authDenied retryAfterSecs (f reason)
  | msg => msg

/-- Within the documented limits, whatever its texts are. -/
def FitsButTexts (msg : Message) : Prop := (msg.mapTexts fun _ => "").WithinLimits

instance (msg : Message) : Decidable msg.FitsButTexts :=
  inferInstanceAs (Decidable (WithinLimits _))

end Message

/-- How a text arrives: as it is, or cut to a prefix when it is over the limit. -/
def ArrivesAs (text arrived : String) : Prop :=
  if (utf8Bytes text).length ≤ maxStringBytes then arrived = text
  else (∃ rest, text = arrived ++ rest) ∧ (utf8Bytes arrived).length ≤ maxStringBytes

/-- The message is decoded with its long texts cut, and so is every frame of it that is
written. -/
structure Message.SurvivesCut (msg : Message) : Prop where
  decoded : ∃ f, (∀ text ∈ msg.texts, ArrivesAs text (f text)) ∧
    Message.decode msg.encode = .ok (msg.mapTexts f)
  read : ∀ io final, writeMessage io msg [] = (.ok (), final) →
    ∃ arrived, readMessage final = (.ok arrived, [])

/-- Over the limit, the first byte that is cut off starts a character. -/
def CutsAtBoundary (text : String) : Prop :=
  maxStringBytes < (utf8Bytes text).length →
    (⟨maxStringBytes⟩ : String.Pos.Raw).IsValid text

/-! ## Cutting a text -/

/-- The bytes of two texts. -/
theorem utf8Bytes_append (first second : String) :
    utf8Bytes (first ++ second) = utf8Bytes first ++ utf8Bytes second := by
  simp [utf8Bytes]

/-- A text has as many bytes as it says. -/
theorem length_utf8Bytes (text : String) : (utf8Bytes text).length = text.utf8ByteSize := by
  simp [utf8Bytes]

/-- The byte at the limit starts a character when the text goes on there. -/
theorem isValid_iff_split (text : String) :
    (⟨maxStringBytes⟩ : String.Pos.Raw).IsValid text ↔
      ∃ front rest, text = front ++ rest ∧ (utf8Bytes front).length = maxStringBytes := by
  rw [String.Pos.Raw.isValid_iff_exists_append]
  constructor
  · rintro ⟨front, rest, htext, hlength⟩
    refine ⟨front, rest, htext, ?_⟩
    rw [length_utf8Bytes]
    exact (congrArg String.Pos.Raw.byteIdx hlength).symm
  · rintro ⟨front, rest, htext, hlength⟩
    rw [length_utf8Bytes] at hlength
    exact ⟨front, rest, htext, String.Pos.Raw.ext hlength.symm⟩

/-- The text that is left of a text over the limit. -/
def cutText (text : String) : String :=
  if (utf8Bytes text).length ≤ maxStringBytes then text
  else (String.fromUTF8? ((utf8Bytes text).take maxStringBytes).toByteArray).getD ""

/-- How many bytes of a text are written. -/
def cutLength (text : String) : ℕ := min (utf8Bytes text).length maxStringBytes

/-- What a text is written as: its length, and at most 4096 bytes. -/
theorem length_putStr (text : String) : (putStr text).length = 2 + cutLength text := by
  simp [putStr, putU16, cutLength]

/-- A text that is cut at a character arrives as what is left, and is written like it. -/
theorem arrivesAs_cutText {text : String} (h : CutsAtBoundary text) :
    ArrivesAs text (cutText text) ∧ FitsString (cutText text) ∧
      putStr (cutText text) = putStr text := by
  by_cases hshort : (utf8Bytes text).length ≤ maxStringBytes
  · rw [cutText, ArrivesAs, if_pos hshort, if_pos hshort]
    exact ⟨rfl, hshort, rfl⟩
  · obtain ⟨front, rest, htext, hlength⟩ :=
      (isValid_iff_split text).mp (h (Nat.lt_of_not_le hshort))
    have hfront : (utf8Bytes text).take maxStringBytes = utf8Bytes front := by
      rw [htext, utf8Bytes_append, List.take_left' hlength]
    have hcut : cutText text = front := by
      rw [cutText, if_neg hshort, hfront, fromUTF8?_utf8Bytes]
      rfl
    rw [hcut, ArrivesAs, if_neg hshort]
    refine ⟨⟨⟨rest, htext⟩, hlength.le⟩, hlength.le, ?_⟩
    have hlong : min (utf8Bytes text).length maxStringBytes = maxStringBytes := by omega
    rw [putStr_of_le hlength.le, hlength]
    simp only [putStr, hlong, hfront]

/-- A text that arrives is not longer than what is written, and as long only when it was
cut at a character. -/
theorem ArrivesAs.cutLength_le {text arrived : String} (h : ArrivesAs text arrived) :
    cutLength arrived ≤ cutLength text ∧
      (cutLength arrived = cutLength text → CutsAtBoundary text) := by
  rw [ArrivesAs] at h
  split_ifs at h with hshort
  · subst h
    exact ⟨le_rfl, fun _ hlong => absurd hshort (Nat.not_le.mpr hlong)⟩
  · obtain ⟨⟨rest, htext⟩, hfits⟩ := h
    unfold cutLength
    refine ⟨by omega, fun heq _ => ?_⟩
    exact (isValid_iff_split text).mpr ⟨arrived, rest, htext, by omega⟩

/-! ## What a message with other texts has in common with it -/

namespace Message

variable {f g : String → String} {msg : Message}

/-- Texts that are written alike are encoded alike. -/
theorem encode_mapTexts (h : ∀ text ∈ msg.texts, putStr (f text) = putStr text) :
    (msg.mapTexts f).encode = msg.encode := by
  cases msg with
  | hello version name => simp [mapTexts, encode, h name (by simp [texts])]
  | fileOffer id name size => simp [mapTexts, encode, h name (by simp [texts])]
  | fileCancel id reason => simp [mapTexts, encode, h reason (by simp [texts])]
  | authDenied retryAfterSecs reason => simp [mapTexts, encode, h reason (by simp [texts])]
  | displays infos =>
      have hinfos : ∀ info ∈ infos, putStr (f info.name) = putStr info.name :=
        fun info hinfo => h info.name (List.mem_map_of_mem hinfo)
      have hencode : (infos.map fun info => { info with name := f info.name }).flatMap
          DisplayInfo.encode = infos.flatMap DisplayInfo.encode := by
        rw [List.flatMap_map]
        apply List.flatMap_congr
        intro info hinfo
        simp [DisplayInfo.encode, hinfos info hinfo]
      simp [mapTexts, encode, hencode]
  | _ => rfl

/-- A message is within the limits when its texts are. -/
theorem withinLimits_mapTexts (hfits : msg.FitsButTexts)
    (h : ∀ text ∈ msg.texts, FitsString (f text)) : (msg.mapTexts f).WithinLimits := by
  cases msg with
  | hello version name => exact h name (by simp [texts])
  | fileOffer id name size => exact h name (by simp [texts])
  | fileCancel id reason => exact h reason (by simp [texts])
  | authDenied retryAfterSecs reason => exact h reason (by simp [texts])
  | displays infos =>
      obtain ⟨hcount, hinfos⟩ := hfits
      rw [List.length_map] at hcount
      refine ⟨by rwa [List.length_map], fun info hinfo => ?_⟩
      obtain ⟨old, hold, rfl⟩ := List.mem_map.mp hinfo
      have hlimits := hinfos _ (List.mem_map_of_mem hold)
      exact ⟨hlimits.width, hlimits.height, hlimits.scalePercent,
        h old.name (List.mem_map_of_mem hold)⟩
  | _ => exact hfits

/-- The length of a message apart from its texts does not depend on them. -/
theorem length_encode (msg : Message) :
    msg.encode.length =
      (msg.mapTexts fun _ => "").encode.length + (msg.texts.map cutLength).sum := by
  have hempty : cutLength "" = 0 := by decide
  cases msg with
  | displays infos =>
      have hinfos : ∀ infos : List DisplayInfo, (infos.flatMap DisplayInfo.encode).length =
          ((infos.map fun info => { info with name := "" }).flatMap DisplayInfo.encode).length +
            ((infos.map DisplayInfo.name).map cutLength).sum := by
        intro infos
        induction infos with
        | nil => rfl
        | cons info infos ih =>
            simp only [List.flatMap_cons, List.length_append, List.map_cons, List.sum_cons, ih,
              DisplayInfo.encode, length_putStr, hempty]
            omega
      simp only [encode, mapTexts, texts, List.length_append, List.length_map, hinfos infos]
      omega
  | _ =>
      simp only [encode, mapTexts, texts, List.length_append, length_putStr, hempty, List.map_nil,
        List.map_cons, List.sum_nil, List.sum_cons]
      try omega

/-- The texts of a message whose texts were changed. -/
theorem texts_mapTexts (f : String → String) (msg : Message) :
    (msg.mapTexts f).texts = msg.texts.map f := by
  cases msg with
  | displays infos => simp [mapTexts, texts, Function.comp_def]
  | _ => rfl

/-- Changing the texts twice. -/
theorem mapTexts_mapTexts (f g : String → String) (msg : Message) :
    (msg.mapTexts f).mapTexts g = msg.mapTexts (g ∘ f) := by
  cases msg with
  | displays infos => simp [mapTexts, Function.comp_def]
  | _ => rfl

/-- A message that is decoded with its texts cut had them cut at characters: what arrives
is as long as what was written, and no text of it is longer than the one before. -/
theorem cutsAtBoundary_of_decode (harrives : ∀ text ∈ msg.texts, ArrivesAs text (f text))
    (hdecode : Message.decode msg.encode = .ok (msg.mapTexts f)) :
    ∀ text ∈ msg.texts, CutsAtBoundary text := by
  have hencode : (msg.mapTexts f).encode = msg.encode :=
    (bodyOf_of_decode hdecode).encode_eq.1.trans (clearIgnoredFlags_encode msg)
  have hsum : (msg.texts.map (cutLength ∘ f)).sum = (msg.texts.map cutLength).sum := by
    have hlength := congrArg List.length hencode
    rw [length_encode msg, length_encode (msg.mapTexts f), mapTexts_mapTexts, texts_mapTexts,
      List.map_map] at hlength
    exact Nat.add_left_cancel hlength
  intro text htext
  refine (harrives text htext).cutLength_le.2 ?_
  by_contra hne
  have hlt : (msg.texts.map (cutLength ∘ f)).sum < (msg.texts.map cutLength).sum :=
    List.sum_lt_sum _ _ (fun other hother => (harrives other hother).cutLength_le.1)
      ⟨text, htext, lt_of_le_of_ne (harrives text htext).cutLength_le.1 hne⟩
  exact absurd hsum hlt.ne

/-- A message whose long texts are cut at characters is decoded with what is left. -/
theorem survivesCut_of_boundary (hfits : msg.FitsButTexts)
    (h : ∀ text ∈ msg.texts, CutsAtBoundary text) : msg.SurvivesCut := by
  have hlimits : (msg.mapTexts cutText).WithinLimits :=
    withinLimits_mapTexts hfits fun text htext => (arrivesAs_cutText (h text htext)).2.1
  have hencode : (msg.mapTexts cutText).encode = msg.encode :=
    encode_mapTexts fun text htext => (arrivesAs_cutText (h text htext)).2.2
  constructor
  case decoded =>
    refine ⟨cutText, fun text htext => (arrivesAs_cutText (h text htext)).1, ?_⟩
    rw [← hencode]
    exact (decode_encode _ hlimits).2
  case read =>
    intro io final hwrite
    obtain ⟨hnonempty, hlarge, hfinal⟩ := writeMessage_ok hwrite
    have hread := readMessage_frame hlimits (by rw [hencode]; exact ⟨hnonempty, hlarge⟩) []
    rw [List.append_nil, frame, hencode] at hread
    rw [hfinal, List.nil_append]
    exact ⟨_, hread⟩

/-- A message that is within the limits apart from its texts arrives with its long texts
cut just when all of them are cut at a character. -/
theorem survivesCut_iff (msg : Message) (hfits : msg.FitsButTexts) :
    msg.SurvivesCut ↔ ∀ text ∈ msg.texts, CutsAtBoundary text := by
  constructor
  · intro hsurvives
    obtain ⟨f, harrives, hdecode⟩ := hsurvives.decoded
    exact cutsAtBoundary_of_decode harrives hdecode
  · exact survivesCut_of_boundary hfits

/-- An "a" and then letters of two bytes each. -/
def accents (count : ℕ) : String := String.ofList ('a' :: List.replicate count 'é')

/-- An accented text has two bytes for each accent and one more. -/
theorem utf8ByteSize_accents (count : ℕ) : (accents count).utf8ByteSize = 1 + 2 * count := by
  induction count with
  | zero => rfl
  | succ count ih =>
      have hconcat : accents (count + 1) = accents count ++ String.singleton 'é' := by
        rw [accents, accents, String.singleton_eq_ofList, ← String.ofList_append,
          List.replicate_succ', List.cons_append]
      have hone : (String.singleton 'é').utf8ByteSize = 2 := by decide
      rw [hconcat, String.utf8ByteSize_append, ih, hone]
      omega

/-- The letters with one byte more in front of them. -/
def shifted (count : ℕ) : String := String.ofList ('a' :: 'a' :: List.replicate count 'é')

/-- A shifted text has an even number of bytes. -/
theorem utf8ByteSize_shifted (count : ℕ) : (shifted count).utf8ByteSize = 2 * (count + 1) := by
  have hfront : shifted count = String.singleton 'a' ++ accents count := by
    rw [shifted, accents, String.singleton_eq_ofList, ← String.ofList_append,
      List.singleton_append]
  have hone : (String.singleton 'a').utf8ByteSize = 1 := by decide
  rw [hfront, String.utf8ByteSize_append, hone, utf8ByteSize_accents]
  omega

/-- Characters of it start at the even bytes. -/
theorem isValid_shifted {taken count : ℕ} (h : taken ≤ count) :
    (⟨2 * (taken + 1)⟩ : String.Pos.Raw).IsValid (shifted count) := by
  rw [shifted, String.Pos.Raw.isValid_ofList]
  refine ⟨taken + 2, ?_⟩
  rw [List.take_succ_cons, List.take_succ_cons, List.take_replicate, Nat.min_eq_left h]
  exact (utf8ByteSize_shifted taken).symm

/-- A text of 4098 bytes arrives with its first 4096. -/
theorem survivesCut_iff_hello :
    4096 < (utf8Bytes (shifted 2048)).length ∧ (Message.hello 3 (shifted 2048)).SurvivesCut := by
  constructor
  · rw [length_utf8Bytes, utf8ByteSize_shifted]
    decide
  · refine (survivesCut_iff (.hello 3 (shifted 2048)) (by decide)).mpr fun text htext => ?_
    rw [List.mem_singleton.mp htext]
    exact fun _ => isValid_shifted (by decide : 2047 ≤ 2048)

/-- The characters start at odd bytes only. -/
theorem not_isValid_accents (count : ℕ) {position : ℕ} (hpos : 0 < position)
    (heven : position % 2 = 0) :
    ¬ (⟨position⟩ : String.Pos.Raw).IsValid (accents count) := by
  rw [accents, String.Pos.Raw.isValid_ofList]
  rintro ⟨taken, htaken⟩
  cases taken with
  | zero =>
      rw [List.take_zero] at htaken
      exact absurd htaken hpos.ne'
  | succ taken =>
      have hsize := utf8ByteSize_accents (min taken count)
      rw [List.take_succ_cons, List.take_replicate] at htaken
      rw [accents] at hsize
      simp only at htaken
      omega

/-- A text of 4097 bytes, the last character of which lies across the limit. -/
def accented : String := accents 2048

/-- The accented text is cut inside of a character. -/
theorem not_cutsAtBoundary_accented : ¬ CutsAtBoundary accented := by
  intro hcuts
  refine not_isValid_accents 2048 (by decide) (by decide) (hcuts ?_)
  rw [length_utf8Bytes, accented, utf8ByteSize_accents]
  decide

/-- A text with a character across the limit is written and never read. -/
theorem accented_rejected :
    (Message.hello 3 accented).FitsButTexts ∧ ¬ (Message.hello 3 accented).SurvivesCut := by
  refine ⟨by decide, fun hsurvives => ?_⟩
  obtain ⟨f, harrives, hdecode⟩ := hsurvives.decoded
  exact not_cutsAtBoundary_accented
    (cutsAtBoundary_of_decode harrives hdecode accented List.mem_cons_self)

end Message

end OmarchyConnect.Protocol
