/-
# The log of the encoder process

A thread reads the standard error of ffmpeg in chunks, decodes each one and appends it to
a buffer for error messages. Over 4000 bytes the buffer is cut to its last 2000, and
`drain` panics when these do not begin with a character. Then nobody reads the pipe any
more.
-/

import OmarchyConnect.Library.LossyText
import OmarchyConnect.Library.Wire

namespace OmarchyConnect.Host

open OmarchyConnect.Library.LossyText OmarchyConnect.Library.Wire

/-- A turn of the thread that has read a chunk; `none` is the panic. -/
def appendLog (log : Text) (chunk : Bytes) : Option Text :=
  let log := log ++ fromUtf8Lossy chunk
  if textLength log > 4000 then drain (textLength log - 2000) log else some log

/-- The buffer after the chunks. -/
def logAfter (chunks : List Bytes) : Option Text := chunks.foldlM appendLog []

/-- The log after one more chunk. -/
theorem logAfter_append_singleton (chunks : List Bytes) (chunk : Bytes) :
    logAfter (chunks ++ [chunk]) = (logAfter chunks).bind (appendLog · chunk) := by
  simp [logAfter, List.foldlM_append]

/-- All the text that has been decoded. -/
def decodings (chunks : List Bytes) : Text := chunks.flatMap fromUtf8Lossy

/-- After each chunk the buffer is there, is small and is the end of the decoded text. -/
def LogSound (chunks : List Bytes) : Prop :=
  ∀ read, read <+: chunks → ∃ log, logAfter read = some log ∧
    textLength log ≤ 4000 ∧ log <:+ decodings read

/-- How many bytes are in the buffer when the decoded chunks have these lengths. -/
def heldLength (lengths : List ℕ) : ℕ :=
  lengths.foldl (fun held length => if held + length > 4000 then 2000 else held + length) 0

/-- Whenever the buffer grows over its limit, the last 2000 bytes of the decoded text are
whole characters. -/
def TrimsWhole (chunks : List Bytes) : Prop :=
  ∀ read chunk, read ++ [chunk] <+: chunks →
    4000 < heldLength (read.map (textLength ∘ fromUtf8Lossy)) + textLength (fromUtf8Lossy chunk) →
      EndsWhole 2000 (decodings (read ++ [chunk]))

/-! ## One chunk -/

/-- The buffer as it should be after the chunks. -/
structure Holds (chunks : List Bytes) (log : Text) : Prop where
  length : textLength log = heldLength (chunks.map (textLength ∘ fromUtf8Lossy))
  suffix : log <:+ decodings chunks

/-- The length held after one more chunk. -/
theorem heldLength_append_singleton (lengths : List ℕ) (length : ℕ) :
    heldLength (lengths ++ [length]) =
      if heldLength lengths + length > 4000 then 2000 else heldLength lengths + length := by
  simp [heldLength]

/-- No more than 4000 bytes are held. -/
theorem heldLength_le (lengths : List ℕ) : heldLength lengths ≤ 4000 := by
  induction lengths using List.reverseRecOn with
  | nil => exact Nat.zero_le _
  | append_singleton lengths length ih =>
      rw [heldLength_append_singleton]
      split_ifs <;> omega

/-- No more is held than was read. -/
theorem heldLength_le_sum (lengths : List ℕ) : heldLength lengths ≤ lengths.sum := by
  induction lengths using List.reverseRecOn with
  | nil => exact Nat.zero_le _
  | append_singleton lengths length ih =>
      rw [heldLength_append_singleton, List.sum_append, List.sum_singleton]
      split_ifs <;> omega

/-- The decoded text of one more chunk. -/
theorem decodings_append_singleton (chunks : List Bytes) (chunk : Bytes) :
    decodings (chunks ++ [chunk]) = decodings chunks ++ fromUtf8Lossy chunk := by
  simp [decodings]

namespace Holds

variable {read : List Bytes} {log : Text} {chunk : Bytes}

/-- With the text of the next chunk the buffer still is the end of the decoded text. -/
theorem suffix_append (h : Holds read log) (chunk : Bytes) :
    log ++ fromUtf8Lossy chunk <:+ decodings (read ++ [chunk]) := by
  rw [decodings_append_singleton]
  obtain ⟨front, hfront⟩ := h.suffix
  exact ⟨front, by rw [← List.append_assoc, hfront]⟩

/-- One more chunk lengthens the log, or cuts it down to 2000. -/
theorem length_append (h : Holds read log) (chunk : Bytes) :
    heldLength ((read ++ [chunk]).map (textLength ∘ fromUtf8Lossy)) =
      if textLength (log ++ fromUtf8Lossy chunk) > 4000 then 2000
      else textLength (log ++ fromUtf8Lossy chunk) := by
  rw [List.map_append, List.map_singleton, heldLength_append_singleton, ← h.length,
    textLength_append]
  rfl

/-- A turn that does not panic keeps the buffer as it should be. -/
theorem appendLog (h : Holds read log) {next : Text}
    (hnext : Host.appendLog log chunk = some next) : Holds (read ++ [chunk]) next := by
  have hsuffix := h.suffix_append chunk
  have hlength := h.length_append chunk
  simp only [Host.appendLog] at hnext
  split_ifs at hnext hlength with hover
  · obtain ⟨hkept, htwo⟩ := (drain_keeping (by omega)).mp hnext
    exact ⟨htwo.trans hlength.symm, hkept.trans hsuffix⟩
  · obtain rfl := Option.some.inj hnext
    exact ⟨hlength.symm, hsuffix⟩

/-- A turn does not panic exactly when the cut, if there is one, is at a character. -/
theorem exists_appendLog_iff (h : Holds read log) :
    (∃ next, Host.appendLog log chunk = some next) ↔
      (4000 < textLength (log ++ fromUtf8Lossy chunk) →
        EndsWhole 2000 (decodings (read ++ [chunk]))) := by
  simp only [Host.appendLog]
  split_ifs with hover
  · have hle : 2000 ≤ textLength (log ++ fromUtf8Lossy chunk) := by omega
    rw [imp_iff_right hover, ← endsWhole_iff_of_suffix (h.suffix_append chunk) hle]
    exact exists_congr fun rest => drain_keeping hle
  · exact iff_of_true ⟨_, rfl⟩ fun hcontra => absurd hcontra hover

end Holds

/-! ## The whole run -/

/-- The log has the length that is counted. -/
theorem holds_logAfter {chunks : List Bytes} {log : Text} (hlog : logAfter chunks = some log) :
    Holds chunks log := by
  induction chunks using List.reverseRecOn generalizing log with
  | nil =>
      obtain rfl := Option.some.inj hlog
      exact ⟨rfl, List.suffix_rfl⟩
  | append_singleton chunks chunk ih =>
      rw [logAfter_append_singleton, Option.bind_eq_some_iff] at hlog
      obtain ⟨earlier, hearlier, hturn⟩ := hlog
      exact (ih hearlier).appendLog hturn

/-- The text that a turn would leave is over the limit when its length is. -/
theorem Holds.length_next {read : List Bytes} {log : Text} (h : Holds read log)
    (chunk : Bytes) : textLength (log ++ fromUtf8Lossy chunk) =
      heldLength (read.map (textLength ∘ fromUtf8Lossy)) + textLength (fromUtf8Lossy chunk) := by
  rw [textLength_append, h.length]

/-- As long as every cut is at a character the thread does not panic. -/
theorem TrimsWhole.exists_logAfter {chunks : List Bytes} (h : TrimsWhole chunks)
    {read : List Bytes} (hread : read <+: chunks) : ∃ log, logAfter read = some log := by
  induction read using List.reverseRecOn with
  | nil => exact ⟨[], rfl⟩
  | append_singleton read chunk ih =>
      obtain ⟨log, hlog⟩ := ih ((List.prefix_append read [chunk]).trans hread)
      have hholds := holds_logAfter hlog
      have hwhole := h read chunk hread
      rw [← hholds.length_next chunk] at hwhole
      obtain ⟨next, hnext⟩ := hholds.exists_appendLog_iff.mpr hwhole
      exact ⟨next, by rw [logAfter_append_singleton, hlog, Option.bind_some, hnext]⟩

/-- A log that is sound was trimmed at whole characters. -/
theorem LogSound.trimsWhole {chunks : List Bytes} (h : LogSound chunks) : TrimsWhole chunks := by
  intro read chunk hread hover
  obtain ⟨next, hnext, -⟩ := h _ hread
  rw [logAfter_append_singleton, Option.bind_eq_some_iff] at hnext
  obtain ⟨log, hlog, hturn⟩ := hnext
  have hholds := holds_logAfter hlog
  rw [← hholds.length_next chunk] at hover
  exact hholds.exists_appendLog_iff.mp ⟨next, hturn⟩ hover

/-- The log is sound exactly when every cut is at a character. -/
theorem logSound_iff_trimsWhole (chunks : List Bytes) :
    LogSound chunks ↔ TrimsWhole chunks := by
  refine ⟨LogSound.trimsWhole, fun h read hread => ?_⟩
  obtain ⟨log, hlog⟩ := h.exists_logAfter hread
  have hholds := holds_logAfter hlog
  exact ⟨log, hlog, hholds.length ▸ heldLength_le _, hholds.suffix⟩

/-- The decoded text is as long as its chunks together. -/
theorem textLength_decodings (chunks : List Bytes) :
    textLength (decodings chunks) = (chunks.map (textLength ∘ fromUtf8Lossy)).sum := by
  induction chunks with
  | nil => rfl
  | cons chunk chunks ih =>
      rw [decodings, List.flatMap_cons, textLength_append, List.map_cons, List.sum_cons, ← ih]
      rfl

/-- With plain messages the thread never panics. -/
theorem logSound_of_ascii {chunks : List Bytes}
    (hascii : ∀ chunk ∈ chunks, ∀ byte ∈ chunk, byte < 0x80) : LogSound chunks := by
  refine (logSound_iff_trimsWhole chunks).mpr fun read chunk hread hover => ?_
  apply endsWhole_of_single
  · intro c hc
    obtain ⟨part, hpart, hmem⟩ := List.mem_flatMap.mp hc
    exact utf8Size_of_mem_fromUtf8Lossy (hascii part (hread.mem hpart)) c hmem
  · have hheld := heldLength_le_sum (read.map (textLength ∘ fromUtf8Lossy))
    rw [decodings_append_singleton, textLength_append, textLength_decodings]
    omega

/-! ## A message that is not plain -/

/-- Letters of two bytes each, and then a text. -/
def accented (count : ℕ) (text : Text) : Text := List.replicate count 'é' ++ text

/-- Accented letters follow one another. -/
theorem accented_append (first second : ℕ) (text : Text) :
    accented first [] ++ accented second text = accented (first + second) text := by
  rw [accented, accented, accented, List.append_nil, ← List.append_assoc,
    List.replicate_append_replicate]

/-- Behind the letters a line break makes the text odd. -/
theorem not_endsWhole_accented (count : ℕ) {n : ℕ} (hpos : 0 < n) (heven : n % 2 = 0) :
    ¬ EndsWhole n (accented count ['\n']) := by
  rintro ⟨rest, hrest, hlength⟩
  rcases List.suffix_concat_iff.mp hrest with rfl | ⟨letters, rfl, hletters⟩
  · exact hpos.ne hlength
  · obtain ⟨-, hreplicate⟩ := List.suffix_replicate_iff.mp hletters
    have hsize : 'é'.utf8Size = 2 := by decide
    have hbreak : '\n'.utf8Size = 1 := by decide
    rw [hreplicate, textLength_append, textLength_replicate, textLength_cons, textLength_nil,
      hsize, hbreak] at hlength
    omega

/-- Three full chunks of letters, and one that ends in a line break. -/
def accentedChunks : List Bytes :=
  List.replicate 3 (toUtf8 (accented 512 [])) ++ [toUtf8 (accented 511 ['\n'])]

/-- The fourth chunk takes the buffer to 4095 bytes, and the cut is inside of a letter. -/
theorem accentedChunks_unsound :
    (∀ chunk ∈ accentedChunks, chunk.length ≤ 1024) ∧ ¬ LogSound accentedChunks := by
  have hsize : ∀ count text, textLength (accented count text) = 2 * count + textLength text := by
    intro count text
    have hletter : 'é'.utf8Size = 2 := by decide
    rw [accented, textLength_append, textLength_replicate, hletter, Nat.mul_comm]
  constructor
  · intro chunk hmem
    rcases List.mem_append.mp hmem with hfull | hlast
    · rw [List.eq_of_mem_replicate hfull, length_toUtf8, hsize]
      decide
    · rw [List.mem_singleton.mp hlast, length_toUtf8, hsize]
      decide
  · intro hsound
    have hwhole := hsound.trimsWhole _ _ List.prefix_rfl
    rw [List.map_replicate, Function.comp_apply, fromUtf8Lossy_toUtf8, fromUtf8Lossy_toUtf8,
      hsize, hsize] at hwhole
    have hall : decodings accentedChunks = accented 2047 ['\n'] := by
      simp only [decodings, accentedChunks, List.replicate_succ, List.replicate_zero,
        List.cons_append, List.nil_append, List.flatMap_cons, List.flatMap_nil,
        fromUtf8Lossy_toUtf8, List.append_nil, accented_append]
    exact not_endsWhole_accented 2047 (by decide) (by decide) (hall ▸ hwhole (by decide))

end OmarchyConnect.Host
