/-
# Frames on a byte stream

`read_message` and `write_message` put the length in front of each body. A stream
that the peer closes ends after any byte: a read that finds the end has taken what
was left. What is read from a prefix of a written stream are the messages whose
frames the prefix holds whole, then an error, and no other message.
-/

import OmarchyConnect.Protocol.RoundTrip

namespace OmarchyConnect.Protocol

open OmarchyConnect.Library.Wire

/-! ## Reading -/

/-- `read_exact` on what is left of a stream. At the end of the stream it fails, and
the bytes that were left are gone. -/
def readExact (n : ℕ) (stream : Bytes) : Option Bytes × Bytes :=
  if stream.length < n then (none, []) else (some (stream.take n), stream.drop n)

/-- `read_message`, with what is left of the stream. -/
def readMessage (stream : Bytes) : Except ProtocolError Message × Bytes :=
  match readExact 4 stream with
  | (none, rest) => (.error .closed, rest)
  | (some lenBuf, rest) =>
      let len := UInt32.ofNat (ofLeBytes lenBuf)
      if len = 0 ∨ len.toNat > maxFrameBytes then (.error (.badLength len), rest)
      else
        match readExact len.toNat rest with
        | (none, rest) => (.error .io, rest)
        | (some buf, rest) => (Message.decode buf, rest)

/-- What a number of calls return, one after another. -/
def readMessages : ℕ → Bytes → List (Except ProtocolError Message)
  | 0, _ => []
  | calls + 1, stream =>
      let (result, rest) := readMessage stream
      result :: readMessages calls rest

/-! ## Writing -/

/-- How the calls on the writer end during one `write_message`. A `write_all` that
fails has written the given number of bytes. -/
structure WriteIo where
  length : Option ℕ := none
  body : Option ℕ := none
  flushFails : Bool := false
  deriving DecidableEq

/-- `write_all`, on the bytes written so far. -/
def writeAll (failure : Option ℕ) (data stream : Bytes) : Except ProtocolError Unit × Bytes :=
  match failure with
  | none => (.ok (), stream ++ data)
  | some written => (.error .io, stream ++ data.take written)

/-- `write_message`, with what the stream then holds. -/
def writeMessage (io : WriteIo) (msg : Message) (stream : Bytes) :
    Except ProtocolError Unit × Bytes :=
  let body := msg.encode
  if body.isEmpty ∨ body.length > maxFrameBytes then (.error .invalid, stream)
  else
    match writeAll io.length (putU32 (UInt32.ofNat body.length)) stream with
    | (.error err, stream) => (.error err, stream)
    | (.ok (), stream) =>
        match writeAll io.body body stream with
        | (.error err, stream) => (.error err, stream)
        | (.ok (), stream) => if io.flushFails then (.error .io, stream) else (.ok (), stream)

/-- The messages of a list are written without error, one after another. -/
inductive Written : List Message → Bytes → Bytes → Prop
  | done (stream : Bytes) : Written [] stream stream
  | next {msg : Message} {msgs : List Message} {io : WriteIo} {stream between final : Bytes} :
      writeMessage io msg stream = (.ok (), between) → Written msgs between final →
        Written (msg :: msgs) stream final

/-! ## One frame -/

/-- A message with its length in front. -/
def Message.frame (msg : Message) : Bytes :=
  putU32 (UInt32.ofNat msg.encode.length) ++ msg.encode

/-- A frame is its length and its body. -/
theorem length_frame (msg : Message) : msg.frame.length = 4 + msg.encode.length := by
  rw [Message.frame, List.length_append, putU32, length_leBytes]

/-- A message that is written without error has a body of an allowed length, and its
frame is what was added to the stream. -/
theorem writeMessage_ok {io : WriteIo} {msg : Message} {stream final : Bytes}
    (h : writeMessage io msg stream = (.ok (), final)) :
    msg.encode.length ≠ 0 ∧ msg.encode.length ≤ maxFrameBytes ∧ final = stream ++ msg.frame := by
  unfold writeMessage at h
  by_cases hlength : msg.encode.isEmpty ∨ msg.encode.length > maxFrameBytes
  · simp only [if_pos hlength] at h
    cases h
  · simp only [if_neg hlength] at h
    simp only [not_or, List.isEmpty_iff, not_lt] at hlength
    have hbody : msg.encode.length ≠ 0 := fun hzero => hlength.1 (List.length_eq_zero_iff.mp hzero)
    refine ⟨hbody, hlength.2, ?_⟩
    cases hfirst : io.length with
    | some written =>
        rw [hfirst] at h
        cases h
    | none =>
        cases hsecond : io.body with
        | some written =>
            rw [hfirst, hsecond] at h
            cases h
        | none =>
            cases hflush : io.flushFails with
            | true =>
                rw [hfirst, hsecond, hflush] at h
                cases h
            | false =>
                rw [hfirst, hsecond, hflush] at h
                cases h
                rw [Message.frame, List.append_assoc]

/-- Reading the first bytes leaves the rest. -/
theorem readExact_append {n : ℕ} {data : Bytes} (hlength : data.length = n) (rest : Bytes) :
    readExact n (data ++ rest) = (some data, rest) := by
  rw [readExact, if_neg (by rw [List.length_append]; omega), List.take_left' hlength,
    List.drop_left' hlength]

/-- A stream that ends too early is read to its end. -/
theorem readExact_short {n : ℕ} {stream : Bytes} (hshort : stream.length < n) :
    readExact n stream = (none, []) := if_pos hshort

/-- The length in front of a body of an allowed length is read as it was written. -/
theorem lengthOf_frame {len : ℕ} (hlarge : len ≤ maxFrameBytes) :
    (UInt32.ofNat (ofLeBytes (putU32 (UInt32.ofNat len)))).toNat = len := by
  have hlt : len < 2 ^ 32 := by
    unfold maxFrameBytes at hlarge
    omega
  have htoNat : (UInt32.ofNat len).toNat = len := UInt32.toNat_ofNat_of_lt' hlt
  have hread : ofLeBytes (leBytes 4 len) = len := ofLeBytes_leBytes_of_lt hlt
  rw [putU32, htoNat, hread, htoNat]

/-- A frame at the front of a stream is read whole, and nothing behind it is touched. -/
theorem readMessage_frame {msg : Message} (hlimits : msg.WithinLimits)
    (hlength : msg.encode.length ≠ 0 ∧ msg.encode.length ≤ maxFrameBytes) (rest : Bytes) :
    readMessage (msg.frame ++ rest) = (.ok msg, rest) := by
  have hlen := lengthOf_frame hlength.2
  have hheader : readExact 4 (msg.frame ++ rest) =
      (some (putU32 (UInt32.ofNat msg.encode.length)), msg.encode ++ rest) := by
    rw [Message.frame, List.append_assoc]
    exact readExact_append (length_leBytes 4 _) _
  have hallowed : ¬ (UInt32.ofNat (ofLeBytes (putU32 (UInt32.ofNat msg.encode.length))) = 0 ∨
      (UInt32.ofNat (ofLeBytes (putU32 (UInt32.ofNat msg.encode.length)))).toNat >
        maxFrameBytes) := by
    rw [hlen, ← UInt32.toNat_inj, hlen]
    simp only [UInt32.toNat_zero, gt_iff_lt, not_or, not_lt]
    exact hlength
  have hbody := readExact_append hlen.symm rest
  unfold readMessage
  simp only [hheader, if_neg hallowed, hbody, (decode_encode msg hlimits).2]

/-- The error of a read that finds the end of the stream inside a frame. -/
def cutError (part : Bytes) : ProtocolError := if part.length < 4 then .closed else .io

/-- A frame that is cut short is never read as a message, and the stream is at its end. -/
theorem readMessage_cut {msg : Message} {part : Bytes}
    (hlength : msg.encode.length ≠ 0 ∧ msg.encode.length ≤ maxFrameBytes)
    (hpart : part <+: msg.frame) (hcut : part.length < msg.frame.length) :
    readMessage part = (.error (cutError part), []) := by
  unfold readMessage cutError
  by_cases hshort : part.length < 4
  · simp only [readExact_short hshort, if_pos hshort]
  · have hheader : putU32 (UInt32.ofNat msg.encode.length) <+: part := by
      apply List.prefix_of_prefix_length_le (List.prefix_append _ msg.encode) hpart
      rw [putU32, length_leBytes]
      omega
    obtain ⟨body, rfl⟩ := hheader
    have hlen := lengthOf_frame hlength.2
    have hread := readExact_append
      (length_leBytes 4 (UInt32.ofNat msg.encode.length).toNat) body
    have hallowed : ¬ (UInt32.ofNat (ofLeBytes (putU32 (UInt32.ofNat msg.encode.length))) = 0 ∨
        (UInt32.ofNat (ofLeBytes (putU32 (UInt32.ofNat msg.encode.length)))).toNat >
          maxFrameBytes) := by
      rw [hlen, ← UInt32.toNat_inj, hlen]
      simp only [UInt32.toNat_zero, gt_iff_lt, not_or, not_lt]
      exact hlength
    have hbody : readExact
        (UInt32.ofNat (ofLeBytes (putU32 (UInt32.ofNat msg.encode.length)))).toNat body =
          (none, []) := by
      apply readExact_short
      rw [hlen]
      rw [length_frame, List.length_append, putU32, length_leBytes] at hcut
      omega
    unfold putU32 at *
    simp only [hread, if_neg hallowed, hbody, if_neg hshort]

/-! ## A whole stream -/

/-- What was written is one frame after another, each within the limits. -/
theorem written_frames {msgs : List Message} {stream final : Bytes}
    (h : Written msgs stream final) :
    final = stream ++ msgs.flatMap Message.frame ∧
      ∀ msg ∈ msgs, msg.encode.length ≠ 0 ∧ msg.encode.length ≤ maxFrameBytes := by
  induction h with
  | done stream => simp
  | next hwrite hrest ih =>
      obtain ⟨hnonempty, hlarge, rfl⟩ := writeMessage_ok hwrite
      obtain ⟨rfl, hall⟩ := ih
      refine ⟨by simp, ?_⟩
      intro other hother
      cases hother with
      | head => exact ⟨hnonempty, hlarge⟩
      | tail _ hlater => exact hall other hlater

/-- At the end of the stream every call says that it is closed. -/
theorem readMessages_nil (calls : ℕ) :
    readMessages calls [] = List.replicate calls (.error .closed) := by
  induction calls with
  | zero => rfl
  | succ calls ih =>
      have hend : readMessage [] = (.error .closed, []) := rfl
      rw [readMessages, hend, List.replicate_succ, ← ih]

/-- Frames within the limits are read back one after another. -/
theorem readMessages_frames {whole : List Message} (hlimits : ∀ msg ∈ whole, msg.WithinLimits)
    (hlengths : ∀ msg ∈ whole, msg.encode.length ≠ 0 ∧ msg.encode.length ≤ maxFrameBytes)
    (calls : ℕ) (rest : Bytes) :
    readMessages (whole.length + calls) (whole.flatMap Message.frame ++ rest) =
      whole.map Except.ok ++ readMessages calls rest := by
  induction whole with
  | nil => simp
  | cons msg whole ih =>
      have hread := readMessage_frame (hlimits msg (by simp)) (hlengths msg (by simp))
        (whole.flatMap Message.frame ++ rest)
      have hlater := ih (fun other hother => hlimits other (by simp [hother]))
        fun other hother => hlengths other (by simp [hother])
      rw [List.length_cons, Nat.succ_add, List.flatMap_cons, List.append_assoc, readMessages,
        hread, List.map_cons, List.cons_append, ← hlater]

/-- A prefix of a stream of frames holds some of them whole and cuts the next one. -/
theorem exists_cut {msgs : List Message} {arrived : Bytes}
    (harrived : arrived <+: msgs.flatMap Message.frame) :
    ∃ whole cut part, msgs = whole ++ cut ∧ arrived = whole.flatMap Message.frame ++ part ∧
      (∀ next ∈ cut.head?, part <+: next.frame ∧ part.length < next.frame.length) ∧
      (cut = [] → part = []) := by
  induction msgs generalizing arrived with
  | nil => exact ⟨[], [], [], rfl, List.prefix_nil.mp harrived, by simp, by simp⟩
  | cons msg msgs ih =>
      rw [List.flatMap_cons] at harrived
      by_cases hcut : arrived.length < msg.frame.length
      · have hpart : arrived <+: msg.frame :=
          List.prefix_of_prefix_length_le harrived (List.prefix_append _ _) hcut.le
        refine ⟨[], msg :: msgs, arrived, rfl, rfl, ?_, by simp⟩
        intro next hnext
        cases hnext
        exact ⟨hpart, hcut⟩
      · have hfront : msg.frame <+: arrived :=
          List.prefix_of_prefix_length_le (List.prefix_append _ _) harrived (not_lt.mp hcut)
        obtain ⟨later, rfl⟩ := hfront
        rw [List.prefix_append_right_inj] at harrived
        obtain ⟨whole, cut, part, rfl, rfl, hnext, hend⟩ := ih harrived
        refine ⟨msg :: whole, cut, part, rfl, ?_, hnext, hend⟩
        rw [List.flatMap_cons, List.append_assoc]

/-- Framing survives truncation: whatever prefix of the written bytes arrives, the calls
of `readMessage` return the messages whose frames arrived whole, in order, then one
error that says how the next frame was cut, and no message after it. -/
theorem framing_truncated {msgs : List Message} (hlimits : ∀ msg ∈ msgs, msg.WithinLimits)
    {stream : Bytes} (hwritten : Written msgs [] stream) {arrived : Bytes}
    (harrived : arrived <+: stream) :
    ∃ whole cut part, msgs = whole ++ cut ∧ arrived = whole.flatMap Message.frame ++ part ∧
      (∀ next ∈ cut.head?, part <+: next.frame ∧ part.length < next.frame.length) ∧
      (cut = [] → part = []) ∧
      ∀ later, readMessages (whole.length + (1 + later)) arrived =
        whole.map Except.ok ++
          Except.error (if part.length < 4 then .closed else .io) ::
            List.replicate later (Except.error .closed) := by
  obtain ⟨hstream, hlengths⟩ := written_frames hwritten
  rw [hstream, List.nil_append] at harrived
  obtain ⟨whole, cut, part, rfl, rfl, hnext, hend⟩ := exists_cut harrived
  refine ⟨whole, cut, part, rfl, rfl, hnext, hend, fun later => ?_⟩
  have hread : readMessage part = (.error (cutError part), []) := by
    cases cut with
    | nil =>
        rw [hend rfl]
        rfl
    | cons next cut =>
        obtain ⟨hpart, hcut⟩ := hnext next rfl
        exact readMessage_cut (hlengths next (by simp)) hpart hcut
  rw [readMessages_frames (fun msg hmem => hlimits msg (by simp [hmem]))
    fun msg hmem => hlengths msg (by simp [hmem])]
  rw [Nat.add_comm 1 later, readMessages, hread]
  simp only [readMessages_nil, cutError]

/-- A ping and a pong on one stream. -/
def pingPong : Bytes := (Message.ping 7).frame ++ (Message.pong 7).frame

/-- The stream ends inside the body of the pong. -/
theorem framing_truncated_pingPong :
    ∃ whole cut part, [Message.ping 7, .pong 7] = whole ++ cut ∧
      pingPong.take 20 = whole.flatMap Message.frame ++ part ∧
      (∀ next ∈ cut.head?, part <+: next.frame ∧ part.length < next.frame.length) ∧
      (cut = [] → part = []) ∧
      ∀ later, readMessages (whole.length + (1 + later)) (pingPong.take 20) =
        whole.map Except.ok ++
          Except.error (if part.length < 4 then .closed else .io) ::
            List.replicate later (Except.error .closed) := by
  have hlimits : ∀ msg ∈ [Message.ping 7, .pong 7], msg.WithinLimits := by decide
  have hping : writeMessage {} (.ping 7) [] = (.ok (), (Message.ping 7).frame) := by decide
  have hpong : writeMessage {} (.pong 7) (Message.ping 7).frame = (.ok (), pingPong) := by decide
  have hwritten := Written.next hping (Written.next hpong (Written.done pingPong))
  exact framing_truncated hlimits hwritten (List.take_prefix 20 pingPong)

example : readMessages 3 (pingPong.take 20) =
    [.ok (.ping 7), .error .io, .error .closed] := by decide

end OmarchyConnect.Protocol
