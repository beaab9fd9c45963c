/-
# One stream out of two encoders

However the process, the thread that reads it and the calls of `encode` interleave, what the
hardware encoder gives are the first access units of all that the process writes. The first
picture that it does not take goes to `x264`, and so do all later ones.
-/

import OmarchyConnect.Host.EncoderBackends

namespace OmarchyConnect.Host

open OmarchyConnect.Library.Wire OmarchyConnect.Library.Incremental OmarchyConnect.Library.Runs

/-! ## The planes of a picture -/

/-- The slices lie inside a picture of the size, one behind the other. -/
theorem X264Encoder.planes_spec {lib : X264} (encoder : X264Encoder lib) {i420 : Bytes}
    (h : i420Size encoder.width encoder.height ≤ i420.length) :
    (encoder.planes i420).flatMap Plane.data =
        i420.take (i420Size encoder.width encoder.height) ∧
      (encoder.planes i420).map (fun plane => plane.data.length) =
        [encoder.width.toNat * encoder.height.toNat,
          encoder.width.toNat / 2 * (encoder.height.toNat / 2),
          encoder.width.toNat / 2 * (encoder.height.toNat / 2)] := by
  unfold i420Size at h ⊢
  simp only at h ⊢
  unfold planes
  generalize encoder.width.toNat * encoder.height.toNat = ySize at *
  generalize encoder.width.toNat / 2 * (encoder.height.toNat / 2) = cSize at *
  constructor
  · have htwo : ySize + 2 * cSize = ySize + cSize + cSize := by omega
    simp only [List.flatMap_cons, List.flatMap_nil, List.append_nil]
    rw [htwo, List.take_add, List.take_add, List.append_assoc]
  · simp only [List.map_cons, List.map_nil, List.length_take, List.length_drop]
    rw [Nat.min_eq_left (by omega), Nat.min_eq_left (by omega), Nat.min_eq_left (by omega)]

/-! ## The hardware encoder -/

/-- Every unit that was cut out of what the thread read is given or on its way. -/
structure VaapiEncoder.Kept (encoder : VaapiEncoder) (produced : Bytes) : Prop where
  bytes : produced = encoder.read.flatten ++ encoder.pipe
  units : feed pushBytes [] encoder.read =
    (encoder.given ++ encoder.queue ++ encoder.sending, encoder.carry)

namespace VaapiEncoder

variable {encoder : VaapiEncoder} {produced : Bytes}

/-- At first nothing was read. -/
theorem Kept.start : ({} : VaapiEncoder).Kept [] := ⟨rfl, rfl⟩

/-- Reading moves bytes from the pipe into the units. -/
theorem Kept.readChunk (h : encoder.Kept produced) (count : ℕ) :
    (encoder.readChunk count).Kept produced := by
  have hpipe := List.take_append_drop (min (count + 1) (16 * 1024)) encoder.pipe
  have hlength : (encoder.pipe.take (min (count + 1) (16 * 1024))).length ≤
      min (count + 1) (16 * 1024) := List.length_take_le _ _
  unfold VaapiEncoder.readChunk
  split
  next hsending =>
    split
    next =>
      split_ifs
      · exact ⟨h.bytes, h.units⟩
      · exact h
    next byte rest hchunk =>
      have hdrop := List.prefix_iff_eq_append.mp
        (hchunk ▸ List.take_prefix (min (count + 1) (16 * 1024)) encoder.pipe)
      refine ⟨?_, ?_⟩
      · show produced = (encoder.read ++ [byte :: rest]).flatten ++
          encoder.pipe.drop (byte :: rest).length
        rw [List.flatten_append, List.flatten_singleton, List.append_assoc, hdrop, h.bytes]
      · show feed pushBytes [] (encoder.read ++ [byte :: rest]) = _
        rw [feed_append_singleton, h.units, hsending, List.append_nil]
  next => exact h

/-- A reader thread that ends keeps what it has read. -/
theorem Kept.readFails (h : encoder.Kept produced) : encoder.readFails.Kept produced := by
  unfold VaapiEncoder.readFails
  split
  · exact ⟨h.bytes, h.units⟩
  · exact h

/-- A unit that is sent is on its way. -/
theorem Kept.send (h : encoder.Kept produced) : encoder.send.Kept produced := by
  unfold VaapiEncoder.send
  split
  next => exact h
  next unit rest hsending =>
    refine ⟨h.bytes, ?_⟩
    rw [h.units, hsending]
    simp

/-- An event adds what the process writes. -/
theorem Kept.step (h : encoder.Kept produced) (event : FfmpegEvent) :
    (encoder.step event).Kept (produced ++ event.written) := by
  have hnothing : produced ++ [] = produced := List.append_nil produced
  cases event with
  | write data =>
      refine ⟨?_, h.units⟩
      show produced ++ data = encoder.read.flatten ++ (encoder.pipe ++ data)
      rw [h.bytes, List.append_assoc]
  | close => exact hnothing.symm ▸ ⟨h.bytes, h.units⟩
  | read count => exact hnothing.symm ▸ h.readChunk count
  | readFails => exact hnothing.symm ▸ h.readFails
  | send => exact hnothing.symm ▸ h.send

/-- A call takes the first unit of the channel. -/
theorem Kept.give (h : encoder.Kept produced) {unit : AccessUnit} {rest : List AccessUnit}
    (hqueue : encoder.queue = unit :: rest) :
    Kept { encoder with queue := rest, given := encoder.given ++ [unit] } produced := by
  refine ⟨h.bytes, ?_⟩
  rw [h.units, hqueue]
  simp

/-- What calls were given are the first units of all that the process wrote. -/
theorem Kept.given_prefix (h : encoder.Kept produced) :
    encoder.given <+: (pushBytes [] produced).1 := by
  have hread : encoder.given <+: (splitUnits encoder.read.flatten).1 := by
    rw [← feed_eq_splitUnits, h.units, List.append_assoc]
    exact List.prefix_append _ _
  have hmore := isIncremental_splitUnits encoder.read.flatten encoder.pipe
  rw [pushBytes_eq_splitUnits, List.nil_append, h.bytes, hmore]
  exact hread.trans (List.prefix_append _ _)

/-- Only calls are given units. -/
theorem given_step (encoder : VaapiEncoder) (event : FfmpegEvent) :
    (encoder.step event).given = encoder.given := by
  cases event with
  | write data => rfl
  | close => rfl
  | read count =>
      show (encoder.readChunk count).given = encoder.given
      unfold readChunk
      split
      · split
        · split_ifs <;> rfl
        · rfl
      · rfl
  | readFails =>
      show encoder.readFails.given = encoder.given
      unfold VaapiEncoder.readFails
      split <;> rfl
  | send =>
      show encoder.send.given = encoder.given
      unfold VaapiEncoder.send
      split <;> rfl

end VaapiEncoder

/-! ## The software encoder -/

section

variable {lib : X264} (size : ℕ)

/-- One picture for `x264`, behind the check of its length. -/
def softStep (soft : X264Encoder lib) (picture : TimedPicture) :
    Except String (List EncodedFrame) × X264Encoder lib :=
  match tooShort size picture with
  | some err => (.error err, soft)
  | none => soft.encode picture.i420 picture.pts

/-- What one `x264` answers to one picture after another. -/
def softAnswers (soft : X264Encoder lib) :
    List TimedPicture → List (Except String (List EncodedFrame))
  | [] => []
  | picture :: rest =>
      (softStep size soft picture).1 :: softAnswers (softStep size soft picture).2 rest

/-- The encoder behind these pictures. -/
def softAfter (soft : X264Encoder lib) (pictures : List TimedPicture) : X264Encoder lib :=
  pictures.foldl (fun soft picture => (softStep size soft picture).2) soft

/-- The answer to the last picture. -/
theorem softAnswers_append_singleton (soft : X264Encoder lib) (pictures : List TimedPicture)
    (picture : TimedPicture) :
    softAnswers size soft (pictures ++ [picture]) =
      softAnswers size soft pictures ++
        [(softStep size (softAfter size soft pictures) picture).1] := by
  induction pictures generalizing soft with
  | nil => rfl
  | cons first pictures ih =>
      rw [List.cons_append, softAnswers, ih]
      rfl

/-- The encoder behind the last picture. -/
theorem softAfter_append_singleton (soft : X264Encoder lib) (pictures : List TimedPicture)
    (picture : TimedPicture) :
    softAfter size soft (pictures ++ [picture]) =
      (softStep size (softAfter size soft pictures) picture).2 := List.foldl_concat _ _ _ _

/-- The headers stay, and a keyframe starts with them. -/
theorem softStep_headers (soft : X264Encoder lib) (picture : TimedPicture) :
    (softStep size soft picture).2.headers = soft.headers ∧
      ∀ frames, (softStep size soft picture).1 = .ok frames →
        ∀ frame ∈ frames, frame.keyframe = true → soft.headers <+: frame.data := by
  unfold softStep
  split
  · exact ⟨rfl, fun frames h => nomatch h⟩
  · unfold X264Encoder.encode
    split
    · exact ⟨rfl, fun frames h => nomatch h⟩
    next payload keyframe context _ =>
      by_cases hempty : payload.isEmpty
      · rw [if_pos hempty]
        refine ⟨rfl, fun frames h frame hmem => ?_⟩
        cases h
        cases hmem
      · rw [if_neg hempty]
        refine ⟨rfl, fun frames h frame hmem hkey => ?_⟩
        cases h
        obtain rfl := List.mem_singleton.mp hmem
        obtain rfl : keyframe = true := hkey
        exact List.prefix_append _ _

/-- A frame with the headers in front is a keyframe. -/
theorem softAnswers_headers (soft : X264Encoder lib) (pictures : List TimedPicture)
    {frames : List EncodedFrame} (h : .ok frames ∈ softAnswers size soft pictures)
    {frame : EncodedFrame} (hframe : frame ∈ frames) (hkey : frame.keyframe = true) :
    soft.headers <+: frame.data := by
  induction pictures generalizing soft with
  | nil => cases h
  | cons picture pictures ih =>
      obtain ⟨hsame, hstarts⟩ := softStep_headers size soft picture
      rcases List.mem_cons.mp h with hfirst | hlater
      · exact hstarts frames hfirst.symm frame hframe hkey
      · exact hsame ▸ ih _ hlater

end

/-! ## Either of them -/

/-- The packets of these calls. -/
def framesOf (answers : EncodeAnswers) : List EncodedFrame :=
  answers.flatMap fun answer =>
    match answer.2 with
    | .ok frames => frames
    | .error _ => []

/-- The pictures of the calls that returned no error. -/
def encoded (answers : EncodeAnswers) : List TimedPicture :=
  (answers.filter fun answer => answer.2.isOk).map Prod.fst

namespace EncoderRun

variable {lib : X264} {state : EncoderRun lib}

/-- The calls up to the one on which the hardware encoder failed, and those from it on. -/
inductive Phases (state : EncoderRun lib) : EncodeAnswers → EncodeAnswers → Prop
  | hardware {early : EncodeAnswers} {encoder : VaapiEncoder}
      (hbackend : state.backend = .vaapi encoder) (hanswers : state.answers = early)
      (hkept : encoder.Kept state.produced)
      (hgiven : encoder.given.map frameOf =
        framesOf early ++ (state.call.map Prod.snd).getD [])
      (htaken : encoded early ++ (state.call.map Prod.fst).toList = state.taken) :
      Phases state early []
  | software {early late : EncodeAnswers} {soft first : X264Encoder lib}
      (hbackend : state.backend = .x264 soft) (hanswers : state.answers = early ++ late)
      (hcall : state.call = none)
      (hearly : framesOf early <+: (pushBytes [] state.produced).1.map frameOf)
      (htaken : encoded early = state.taken)
      (hopen : X264Encoder.openSize lib state.width state.height state.fps state.bitrateKbps =
        .ok first)
      (hlate : late.map Prod.snd =
        softAnswers (i420Size state.width state.height) first (late.map Prod.fst))
      (hsoft : soft = softAfter (i420Size state.width state.height) first (late.map Prod.fst)) :
      Phases state early late

/-- The frames of one more answer. -/
theorem framesOf_concat (answers : EncodeAnswers) (picture : TimedPicture)
    (result : Except String (List EncodedFrame)) :
    framesOf (answers ++ [(picture, result)]) =
      framesOf answers ++ (match result with | .ok frames => frames | .error _ => []) := by
  simp [framesOf]

/-- A picture that was encoded is counted. -/
theorem encoded_concat_ok (answers : EncodeAnswers) (picture : TimedPicture)
    (frames : List EncodedFrame) :
    encoded (answers ++ [(picture, .ok frames)]) = encoded answers ++ [picture] := by
  simp [encoded, Except.isOk, Except.toBool]

/-- A picture that was refused is not counted. -/
theorem encoded_concat_error (answers : EncodeAnswers) (picture : TimedPicture) (err : String) :
    encoded (answers ++ [(picture, .error err)]) = encoded answers := by
  simp [encoded, Except.isOk, Except.toBool]

/-- A call that ends before the hardware encoder has the picture. -/
theorem Phases.refused {early : EncodeAnswers} (h : state.Phases early [])
    {encoder : VaapiEncoder} (hbackend : state.backend = .vaapi encoder)
    (picture : TimedPicture) (err : String) :
    (state.answer picture (.error err)).Phases (early ++ [(picture, .error err)]) [] := by
  cases h with
  | hardware hkeptBackend hanswers hkept hgiven htaken =>
      refine .hardware hkeptBackend ?_ hkept ?_ ?_
      · rw [answer, hanswers]
      · rw [framesOf_concat, List.append_nil]
        exact hgiven
      · rw [encoded_concat_error]
        exact htaken
  | software hsoft => exact nomatch hbackend.symm.trans hsoft

/-- The picture on which the hardware encoder fails is the first one for `x264`. -/
theorem Phases.switch {early : EncodeAnswers} (h : state.Phases early [])
    {encoder : VaapiEncoder} (hbackend : state.backend = .vaapi encoder) (hcall : state.call = none)
    {picture : TimedPicture}
    (hlong : tooShort (i420Size state.width state.height) picture = none) :
    ∃ early' late', (state.switch picture).Phases early' late' := by
  unfold EncoderRun.switch
  split
  next err _ => exact ⟨_, _, h.refused hbackend picture err⟩
  next first hopen =>
    have hstep : softStep (i420Size state.width state.height) first picture =
        first.encode picture.i420 picture.pts := by rw [softStep, hlong]
    split
    next err _ _ => exact ⟨_, _, h.refused hbackend picture err⟩
    next frames soft hencode =>
      rw [hencode] at hstep
      cases h with
      | hardware hkeptBackend hanswers hkept hgiven htaken =>
          rw [hcall, Option.map_none, Option.getD_none, List.append_nil] at hgiven
          rw [hcall, Option.map_none, Option.toList_none, List.append_nil] at htaken
          refine ⟨early, [(picture, .ok frames)],
            .software rfl ?_ hcall ?_ htaken hopen ?_ ?_⟩
          · rw [answer, hanswers]
          · rw [← hgiven]
            exact hkept.given_prefix.map frameOf
          · show [Except.ok frames] =
              softAnswers (i420Size state.width state.height) first [picture]
            rw [softAnswers, hstep, softAnswers]
          · show soft = softAfter (i420Size state.width state.height) first [picture]
            rw [softAfter, List.foldl_cons, hstep, List.foldl_nil]
      | software hsoft => exact nomatch hbackend.symm.trans hsoft

/-- `x264` gets every picture that is long enough. -/
theorem Phases.soft {early late : EncodeAnswers} (h : state.Phases early late)
    {soft : X264Encoder lib} (hbackend : state.backend = .x264 soft) (picture : TimedPicture) :
    let next := softStep (i420Size state.width state.height) soft picture
    ({ state with backend := .x264 next.2 }.answer picture next.1).Phases early
      (late ++ [(picture, next.1)]) := by
  intro next
  cases h with
  | hardware hvaapi => exact nomatch hbackend.symm.trans hvaapi
  | @software _ kept first hkept hanswers hcall hearly htaken hopen hlate hsoft =>
      obtain rfl : soft = kept := EncoderBackend.x264.inj (hbackend.symm.trans hkept)
      refine .software rfl ?_ hcall hearly htaken hopen ?_ ?_
      · rw [answer, hanswers, List.append_assoc]
      · show (late ++ [(picture, next.1)]).map Prod.snd =
          softAnswers (i420Size state.width state.height) first
            ((late ++ [(picture, next.1)]).map Prod.fst)
        rw [List.map_append, List.map_append, List.map_singleton, List.map_singleton,
          softAnswers_append_singleton, ← hsoft, hlate]
      · show next.2 = softAfter (i420Size state.width state.height) first
          ((late ++ [(picture, next.1)]).map Prod.fst)
        rw [List.map_append, List.map_singleton, softAfter_append_singleton, ← hsoft]

/-- A call stays in its phase or starts the second. -/
theorem Phases.encode {early late : EncodeAnswers} (h : state.Phases early late)
    (hcall : state.call = none) (picture : TimedPicture) (io : VaapiIo) :
    ∃ early' late', (state.encode picture io).Phases early' late' := by
  unfold EncoderRun.encode
  cases hbackend : state.backend with
  | x264 soft =>
      have hsoft := h.soft hbackend picture
      unfold softStep at hsoft
      cases hshort : tooShort (i420Size state.width state.height) picture with
      | some err =>
          simp only [hshort] at hsoft
          rw [← hbackend] at hsoft
          exact ⟨_, _, hsoft⟩
      | none =>
          simp only [hshort] at hsoft
          exact ⟨_, _, hsoft⟩
  | vaapi encoder =>
      obtain rfl : late = [] := by
        cases h with
        | hardware => rfl
        | software hsoft => exact nomatch hbackend.symm.trans hsoft
      split
      next err _ => exact ⟨_, _, h.refused hbackend picture err⟩
      next hlong =>
        dsimp only
        split
        next =>
          cases h with
          | @hardware kept hkeptBackend hanswers hkept hgiven htaken =>
              obtain rfl : encoder = kept :=
                EncoderBackend.vaapi.inj (hbackend.symm.trans hkeptBackend)
              rw [hcall] at hgiven htaken
              refine ⟨early, [], .hardware rfl hanswers hkept hgiven ?_⟩
              show encoded early ++ [picture] = state.taken ++ [picture]
              rw [← htaken]
              simp
          | software hsoft => exact nomatch hbackend.symm.trans hsoft
        next => exact h.switch hbackend hcall hlong

/-- A unit that arrives is in the first phase. -/
theorem Phases.recv {early late : EncodeAnswers} (h : state.Phases early late) :
    ∃ early', state.recv.Phases early' late := by
  cases h with
  | @hardware encoder hbackend hanswers hkept hgiven htaken =>
      unfold EncoderRun.recv
      rw [hbackend]
      cases hcall : state.call with
      | none => exact ⟨early, .hardware hbackend hanswers hkept hgiven htaken⟩
      | some open_ =>
          obtain ⟨picture, frames⟩ := open_
          rw [hcall] at hgiven htaken
          dsimp only
          cases hqueue : encoder.queue with
          | nil =>
              refine ⟨early ++ [(picture, .ok frames)], .hardware rfl ?_ hkept ?_ ?_⟩
              · rw [answer, hanswers]
              · rw [framesOf_concat]
                exact hgiven.trans (List.append_nil _).symm
              · rw [encoded_concat_ok]
                exact (List.append_nil _).trans htaken
          | cons unit rest =>
              refine ⟨early, .hardware rfl hanswers (hkept.give hqueue) ?_ htaken⟩
              rw [List.map_append, hgiven]
              exact List.append_assoc _ _ _
  | software hbackend hanswers hcall hearly htaken hopen hlate hsoft =>
      refine ⟨early, ?_⟩
      unfold EncoderRun.recv
      rw [hcall]
      exact .software hbackend hanswers hcall hearly htaken hopen hlate hsoft

/-- The process only works in the first phase. -/
theorem Phases.process {early late : EncodeAnswers} (h : state.Phases early late)
    (event : FfmpegEvent) : (state.step (.process event)).Phases early late := by
  unfold EncoderRun.step
  cases h with
  | @hardware encoder hbackend hanswers hkept hgiven htaken =>
      simp only [hbackend]
      refine .hardware rfl hanswers (hkept.step event) ?_ htaken
      rw [encoder.given_step]
      exact hgiven
  | software hbackend hanswers hcall hearly htaken hopen hlate hsoft =>
      simp only [hbackend]
      exact .software hbackend hanswers hcall hearly htaken hopen hlate hsoft

/-- A step keeps the two phases. -/
theorem Phases.step {early late : EncodeAnswers} (h : state.Phases early late)
    (event : EncoderEvent) : ∃ early' late', (state.step event).Phases early' late' := by
  cases event with
  | process event => exact ⟨early, late, h.process event⟩
  | call picture io =>
      rw [EncoderRun.step]
      cases hcall : state.call with
      | none => exact h.encode hcall picture io
      | some open_ => exact ⟨early, late, h⟩
  | recv =>
      obtain ⟨early', hrecv⟩ := h.recv
      exact ⟨early', late, hrecv⟩

/-- What an encoder was opened with. -/
def settings (state : EncoderRun lib) : UInt32 × UInt32 × UInt32 × UInt32 :=
  (state.width, state.height, state.fps, state.bitrateKbps)

/-- A new encoder is in the phase of its backend. -/
theorem phases_openSize {choice : EncoderChoice} {width height fps bitrateKbps : UInt32}
    (hopen : openSize lib choice width height fps bitrateKbps = .ok state) :
    state.Phases [] [] ∧ state.settings = (width, height, fps, bitrateKbps) := by
  unfold openSize at hopen
  split_ifs at hopen
  · obtain rfl := Except.ok.inj hopen
    exact ⟨.hardware rfl rfl VaapiEncoder.Kept.start rfl rfl, rfl⟩
  · split at hopen
    next => cases hopen
    next soft hsoft =>
      obtain rfl := Except.ok.inj hopen
      exact ⟨.software rfl rfl rfl List.nil_prefix rfl hsoft rfl rfl, rfl⟩

/-- A call keeps the settings. -/
theorem settings_encode (state : EncoderRun lib) (picture : TimedPicture) (io : VaapiIo) :
    (state.encode picture io).settings = state.settings := by
  unfold EncoderRun.encode
  split
  · rfl
  · split
    · rfl
    · split
      · rfl
      · unfold EncoderRun.switch
        split
        · rfl
        · split <;> rfl

/-- A wait keeps the settings. -/
theorem settings_recv (state : EncoderRun lib) : state.recv.settings = state.settings := by
  unfold EncoderRun.recv
  split
  · split <;> rfl
  · rfl

/-- A step keeps the settings. -/
theorem settings_step (state : EncoderRun lib) (event : EncoderEvent) :
    (state.step event).settings = state.settings := by
  cases event with
  | process event =>
      rw [EncoderRun.step]
      split <;> rfl
  | call picture io =>
      rw [EncoderRun.step]
      split
      · exact state.settings_encode picture io
      · rfl
  | recv => exact state.settings_recv

/-- In every run of an encoder the calls fall into two parts. Up to some call they give the
first access units of all that the process writes, and the pictures of those that do not fail
are the ones that the process took. From that call on they give what one `x264` makes of just
their pictures, and its keyframes start with its headers. While the hardware encoder is at
work there is no such call. -/
theorem encoder_keeps_order (lib : X264) (choice : EncoderChoice)
    (width height fps bitrateKbps : UInt32) {opened : EncoderRun lib}
    (hopen : openSize lib choice width height fps bitrateKbps = .ok opened)
    (events : List EncoderEvent) :
    let state := run EncoderRun.step opened events
    ∃ early late, state.answers = early ++ late ∧
      framesOf early <+: (pushBytes [] state.produced).1.map frameOf ∧
      encoded early ++ (state.call.map Prod.fst).toList = state.taken ∧
      ((∃ encoder, state.backend = .vaapi encoder) → late = []) ∧
      (late ≠ [] → ∃ soft, X264Encoder.openSize lib width height fps bitrateKbps = .ok soft ∧
        late.map Prod.snd = softAnswers (i420Size width height) soft (late.map Prod.fst) ∧
        ∀ frames, .ok frames ∈ late.map Prod.snd → ∀ frame ∈ frames, frame.keyframe = true →
          soft.headers <+: frame.data) := by
  intro state
  obtain ⟨hphases, hsettings⟩ := phases_openSize hopen
  have hrun : (∃ early late, state.Phases early late) ∧
      state.settings = (width, height, fps, bitrateKbps) := by
    refine invariant_of_step EncoderRun.step
      (fun state => (∃ early late, state.Phases early late) ∧
        state.settings = (width, height, fps, bitrateKbps))
      (fun state event h => ?_) ⟨⟨[], [], hphases⟩, hsettings⟩ events
    obtain ⟨⟨early, late, hphases⟩, hsettings⟩ := h
    exact ⟨hphases.step event, (state.settings_step event).trans hsettings⟩
  obtain ⟨⟨early, late, hphases⟩, hsettings⟩ := hrun
  simp only [settings, Prod.mk.injEq] at hsettings
  obtain ⟨rfl, rfl, rfl, rfl⟩ := hsettings
  refine ⟨early, late, ?_⟩
  cases hphases with
  | hardware hbackend hanswers hkept hgiven htaken =>
      refine ⟨by rw [hanswers, List.append_nil], ?_, htaken, fun _ => rfl, fun hne =>
        absurd rfl hne⟩
      exact (List.prefix_append _ _).trans (hgiven ▸ hkept.given_prefix.map frameOf)
  | @software _ soft first hbackend hanswers hcall hearly htaken hfirst hlate hsoft =>
      refine ⟨hanswers, hearly, ?_, fun h => ?_, fun _ => ⟨first, hfirst, hlate, ?_⟩⟩
      · rw [hcall]
        exact (List.append_nil _).trans htaken
      · obtain ⟨encoder, hvaapi⟩ := h
        exact nomatch hbackend.symm.trans hvaapi
      · intro frames hframes frame hframe hkey
        rw [hlate] at hframes
        exact softAnswers_headers _ first _ hframes hframe hkey

/-! ## What the session sees -/

/-- Each answer is behind the check of the length. -/
structure Checked (state : EncoderRun lib) : Prop where
  answers : ∀ answer ∈ state.answers, ∀ err,
    tooShort (i420Size state.width state.height) answer.1 = some err → answer.2 = .error err
  call : ∀ pending ∈ state.call, tooShort (i420Size state.width state.height) pending.1 = none

/-- An answer that refuses what is too short is checked. -/
theorem Checked.answer (h : state.Checked) {picture : TimedPicture}
    {result : Except String (List EncodedFrame)}
    (hresult : ∀ err, tooShort (i420Size state.width state.height) picture = some err →
      result = .error err) : (state.answer picture result).Checked := by
  refine ⟨fun answer hmem => ?_, h.call⟩
  rcases List.mem_append.mp hmem with hold | hnew
  · exact h.answers answer hold
  · obtain rfl := List.mem_singleton.mp hnew
    exact hresult

/-- A picture that is long enough may have any answer. -/
theorem Checked.answer_long (h : state.Checked) {picture : TimedPicture}
    (hlong : tooShort (i420Size state.width state.height) picture = none)
    (result : Except String (List EncodedFrame)) : (state.answer picture result).Checked :=
  h.answer fun _ hshort => nomatch hlong.symm.trans hshort

/-- A call is checked. -/
theorem Checked.encode (h : state.Checked) (picture : TimedPicture) (io : VaapiIo) :
    (state.encode picture io).Checked := by
  have hbackend : ∀ backend : EncoderBackend lib, Checked { state with backend } :=
    fun _ => ⟨h.answers, h.call⟩
  unfold EncoderRun.encode
  split
  next err hshort =>
    exact h.answer fun _ hother => by rw [Option.some.inj (hshort.symm.trans hother)]
  next hlong =>
    split
    next soft _ =>
      exact (hbackend (.x264 (soft.encode picture.i420 picture.pts).2)).answer_long hlong _
    next =>
      split
      next =>
        refine ⟨h.answers, fun pending hpending => ?_⟩
        cases hpending
        exact hlong
      next =>
        unfold EncoderRun.switch
        split
        next => exact h.answer_long hlong _
        next =>
          split
          next => exact h.answer_long hlong _
          next frames soft _ => exact (hbackend (.x264 soft)).answer_long hlong (.ok frames)

/-- A wait is checked. -/
theorem Checked.recv (h : state.Checked) : state.recv.Checked := by
  unfold EncoderRun.recv
  split
  next picture frames encoder hcall _ =>
    have hlong := h.call (picture, frames) hcall
    split
    next =>
      have hdone : Checked { state with call := none } :=
        ⟨h.answers, fun _ hnone => absurd hnone (Option.not_mem_none _)⟩
      exact hdone.answer_long hlong _
    next =>
      refine ⟨h.answers, fun pending hpending => ?_⟩
      cases hpending
      exact hlong
  next => exact h

/-- A step keeps the answers checked. -/
theorem Checked.step (h : state.Checked) (event : EncoderEvent) : (state.step event).Checked := by
  cases event with
  | process event =>
      rw [EncoderRun.step]
      split
      · exact h
      · exact ⟨h.answers, h.call⟩
  | call picture io =>
      rw [EncoderRun.step]
      split
      · exact h.encode picture io
      · exact h
  | recv => exact h.recv

/-- An opened encoder has answered nothing. -/
theorem checked_openSize {choice : EncoderChoice} {width height fps bitrateKbps : UInt32}
    (hopen : openSize lib choice width height fps bitrateKbps = .ok state) : state.Checked := by
  have hnothing : state.answers = [] ∧ state.call = none := by
    unfold openSize at hopen
    split_ifs at hopen
    · obtain rfl := Except.ok.inj hopen
      exact ⟨rfl, rfl⟩
    · split at hopen
      next => cases hopen
      next =>
        obtain rfl := Except.ok.inj hopen
        exact ⟨rfl, rfl⟩
  obtain ⟨hanswers, hcall⟩ := hnothing
  constructor
  · simp [hanswers]
  · simp [hcall]

/-- What `encode` returns in a run is what the encoder of a session returns, for some answer of
the libraries. -/
theorem encode_covers {choice : EncoderChoice} {width height fps bitrateKbps : UInt32}
    (hopen : openSize lib choice width height fps bitrateKbps = .ok state)
    (events : List EncoderEvent) :
    ∀ answer ∈ (run EncoderRun.step state events).answers, ∃ backend : Backend,
      Encoder.encode backend ⟨width, height, fps, bitrateKbps⟩ answer.1.i420 = answer.2 := by
  have hrun : (run EncoderRun.step state events).Checked ∧
      (run EncoderRun.step state events).settings = (width, height, fps, bitrateKbps) := by
    refine invariant_of_step EncoderRun.step
      (fun state => state.Checked ∧ state.settings = (width, height, fps, bitrateKbps))
      (fun state event h => ⟨h.1.step event, (state.settings_step event).trans h.2⟩)
      ⟨checked_openSize hopen, (phases_openSize hopen).2⟩ events
  obtain ⟨hchecked, hsettings⟩ := hrun
  simp only [settings, Prod.mk.injEq] at hsettings
  obtain ⟨hwidth, hheight, -, -⟩ := hsettings
  intro answer hanswer
  have hshort := hchecked.answers answer hanswer
  rw [hwidth, hheight, tooShort] at hshort
  by_cases hlength : answer.1.i420.length < i420Size width height
  · rw [if_pos hlength] at hshort
    refine ⟨⟨.ok (), .ok []⟩, ?_⟩
    rw [hshort _ rfl]
    exact if_pos hlength
  · exact ⟨⟨.ok (), answer.2⟩, if_neg hlength⟩

end EncoderRun

/-! ## A process that dies -/

/-- An `x264` that makes a keyframe of every picture. -/
def keyframeX264 : X264 where
  Context := Unit
  build := fun _ => some ()
  headers := fun _ => some [0x67]
  encode := fun context _ planes => (some (planes.flatMap Plane.data, true), context)

/-- The process takes one picture and writes two units and a part of a third. -/
def dyingProcess : List EncoderEvent :=
  [.call ⟨[1, 2, 3, 4, 5, 6], 0⟩ {}, .process (.write [0, 0, 1, 0x65, 7, 0, 0]),
    .process (.read 99), .process (.write [1, 0x61, 8, 0, 0, 1, 0x61]), .process (.read 99),
    .process .send, .recv, .recv, .call ⟨[9, 9, 9, 9, 8, 7], 1⟩ { writeAll := some "broken pipe" },
    .call ⟨[6, 5, 4, 3, 2, 1], 2⟩ {}]

/-- A hardware encoder that was just opened. -/
def hardwareOpened : EncoderRun keyframeX264 where
  width := 2
  height := 2
  fps := 30
  bitrateKbps := 0
  backend := .vaapi {}

/-- A process that dies behind its first unit. -/
theorem encoder_keeps_order_dyingProcess :
    let state := run EncoderRun.step hardwareOpened dyingProcess
    ∃ early late, state.answers = early ++ late ∧
      framesOf early <+: (pushBytes [] state.produced).1.map frameOf ∧
      encoded early ++ (state.call.map Prod.fst).toList = state.taken ∧
      ((∃ encoder, state.backend = .vaapi encoder) → late = []) ∧
      (late ≠ [] → ∃ soft, X264Encoder.openSize keyframeX264 2 2 30 0 = .ok soft ∧
        late.map Prod.snd = softAnswers (i420Size 2 2) soft (late.map Prod.fst) ∧
        ∀ frames, .ok frames ∈ late.map Prod.snd → ∀ frame ∈ frames, frame.keyframe = true →
          soft.headers <+: frame.data) :=
  EncoderRun.encoder_keeps_order keyframeX264 ⟨false, true⟩ 2 2 30 0 rfl dyingProcess

end OmarchyConnect.Host
