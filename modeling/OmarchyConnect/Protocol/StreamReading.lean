/-
# Reading a message in pieces

`read_message` waits in `read_exact` until the bytes that it asks for are there, and they
come in pieces. What it has taken of the current frame is in the future: one that is dropped
takes these bytes with it. A future that is run to its end returns what `readMessage` returns
where all bytes are there at once.
-/

import OmarchyConnect.Protocol.Framing

namespace OmarchyConnect.Protocol

open OmarchyConnect.Library.Wire

/-- The length in front of a frame. -/
def frameLength (got : Bytes) : UInt32 := UInt32.ofNat (ofLeBytes (got.take 4))

/-- What `read_message` returns when it has taken these bytes of a frame, or `none` while it
waits for more. -/
def readOutcome (got : Bytes) : Option (Except ProtocolError Message) :=
  if got.length < 4 then none
  else
    let len := frameLength got
    if len = 0 ∨ len.toNat > maxFrameBytes then some (.error (.badLength len))
    else if got.length < 4 + len.toNat then none
    else some (Message.decode (got.drop 4))

/-- The bytes that the current `read_exact` still asks for. -/
def wanted (got : Bytes) : ℕ :=
  if got.length < 4 then 4 - got.length else 4 + (frameLength got).toNat - got.length

/-- What `read_message` returns when the stream ends behind these bytes of a frame. -/
def endOutcome (got : Bytes) : ProtocolError := if got.length < 4 then .closed else .io

/-! ## At once or in pieces -/

/-- The length of a frame is in its first four bytes. -/
theorem frameLength_append {got : Bytes} (h : 4 ≤ got.length) (rest : Bytes) :
    frameLength (got ++ rest) = frameLength got := by
  rw [frameLength, List.take_append_of_le_length h, frameLength]

/-- Enough bytes are read, and the rest is left. -/
theorem readExact_of_le {n : ℕ} {stream : Bytes} (h : n ≤ stream.length) :
    readExact n stream = (some (stream.take n), stream.drop n) := if_neg (Nat.not_lt.mpr h)

/-- The length of a frame is read once four bytes are there. -/
theorem readMessage_of_header {stream : Bytes} (h : 4 ≤ stream.length) :
    readMessage stream =
      if frameLength stream = 0 ∨ (frameLength stream).toNat > maxFrameBytes then
        (.error (.badLength (frameLength stream)), stream.drop 4)
      else
        match readExact (frameLength stream).toNat (stream.drop 4) with
        | (none, rest) => (.error .io, rest)
        | (some buf, rest) => (Message.decode buf, rest) := by
  rw [readMessage, readExact_of_le h]
  rfl

/-- A future that waits is in front of the end of its length or of its body. -/
theorem readOutcome_eq_none {got : Bytes} (h : readOutcome got = none) :
    got.length < 4 ∨
      (4 ≤ got.length ∧ ¬ (frameLength got = 0 ∨ (frameLength got).toNat > maxFrameBytes) ∧
        got.length < 4 + (frameLength got).toNat) := by
  unfold readOutcome at h
  by_cases hshort : got.length < 4
  · exact Or.inl hshort
  · rw [if_neg hshort] at h
    dsimp only at h
    split_ifs at h with hbad hcut
    exact Or.inr ⟨Nat.le_of_not_lt hshort, hbad, hcut⟩

/-- What a call takes ends with the length or with the body. -/
theorem length_append_le_of_wanted {got chunk : Bytes} (hbefore : readOutcome got = none)
    (hchunk : chunk.length ≤ wanted got) :
    (got ++ chunk).length ≤ 4 ∨
      (4 ≤ got.length ∧ (got ++ chunk).length ≤ 4 + (frameLength got).toNat) := by
  rw [List.length_append]
  unfold wanted at hchunk
  rcases readOutcome_eq_none hbefore with hshort | ⟨hheader, -, hcut⟩
  · rw [if_pos hshort] at hchunk
    exact Or.inl (by omega)
  · rw [if_neg (Nat.not_lt.mpr hheader)] at hchunk
    exact Or.inr ⟨hheader, by omega⟩

/-- A future that has returned has taken the bytes of its frame and no more. -/
theorem readMessage_of_outcome {got chunk : Bytes} {result : Except ProtocolError Message}
    (hbefore : readOutcome got = none) (hchunk : chunk.length ≤ wanted got)
    (hafter : readOutcome (got ++ chunk) = some result) (rest : Bytes) :
    readMessage (got ++ chunk ++ rest) = (result, rest) := by
  have hheader : 4 ≤ (got ++ chunk).length := by
    by_contra hshort
    rw [readOutcome, if_pos (Nat.lt_of_not_le hshort)] at hafter
    cases hafter
  have hlong : 4 ≤ (got ++ chunk ++ rest).length := by
    rw [List.length_append]
    omega
  have hends := length_append_le_of_wanted hbefore hchunk
  have hbody : (got ++ chunk ++ rest).drop 4 = (got ++ chunk).drop 4 ++ rest :=
    List.drop_append_of_le_length hheader
  rw [readMessage_of_header hlong, frameLength_append hheader, hbody]
  rw [readOutcome, if_neg (Nat.not_lt.mpr hheader)] at hafter
  dsimp only at hafter
  split_ifs at hafter with hbad hcut
  · -- A length that is not allowed is found with its last byte.
    have hfour : (got ++ chunk).length = 4 := by
      rcases hends with hfour | ⟨hold, -⟩
      · omega
      · rcases readOutcome_eq_none hbefore with hshort | ⟨-, hgood, -⟩
        · omega
        · rw [← frameLength_append hold chunk] at hgood
          exact absurd hbad hgood
    obtain rfl := Option.some.inj hafter
    rw [if_pos hbad, List.drop_eq_nil_of_le (Nat.le_of_eq hfour), List.nil_append]
  · have hexact : (got ++ chunk).length = 4 + (frameLength (got ++ chunk)).toNat := by
      rcases hends with hfour | ⟨hold, hle⟩
      · have hpositive : (frameLength (got ++ chunk)).toNat ≠ 0 := by
          intro hzero
          exact hbad (Or.inl (UInt32.toNat_inj.mp hzero))
        omega
      · rw [frameLength_append hold]
        rw [frameLength_append hold] at hcut
        omega
    have hlen : ((got ++ chunk).drop 4).length = (frameLength (got ++ chunk)).toNat := by
      rw [List.length_drop, hexact]
      omega
    obtain rfl := Option.some.inj hafter
    rw [if_neg hbad, readExact_append hlen]

/-- At the end of the stream a future that waits returns an error. -/
theorem readMessage_of_end {got : Bytes} (h : readOutcome got = none) :
    readMessage got = (.error (endOutcome got), []) := by
  rcases readOutcome_eq_none h with hshort | ⟨hheader, hgood, hcut⟩
  · rw [readMessage, readExact_short hshort, endOutcome, if_pos hshort]
  · have hbody : (got.drop 4).length < (frameLength got).toNat := by
      rw [List.length_drop]
      omega
    rw [readMessage_of_header hheader, if_neg hgood, readExact_short hbody, endOutcome,
      if_neg (Nat.not_lt.mpr hheader)]

/-- A stream that ends inside of a frame ends the reading. -/
theorem readMessages_one_of_end {got : Bytes} (h : readOutcome got = none) :
    readMessages 1 got = [.error (endOutcome got)] := by
  rw [readMessages, readMessage_of_end h]
  rfl

/-! ## One call after another -/

/-- Calls that return `results` take just these bytes, whatever comes behind them. -/
def Consumes (results : List (Except ProtocolError Message)) (consumed : Bytes) : Prop :=
  ∀ calls rest, readMessages (results.length + calls) (consumed ++ rest) =
    results ++ readMessages calls rest

/-- Nothing is read out of nothing. -/
theorem Consumes.nil : Consumes [] [] := fun calls rest => by
  rw [List.length_nil, Nat.zero_add, List.nil_append, List.nil_append]

/-- A frame is read behind what was read before. -/
theorem Consumes.concat {results : List (Except ProtocolError Message)} {consumed frame : Bytes}
    {result : Except ProtocolError Message} (h : Consumes results consumed)
    (hframe : ∀ rest, readMessage (frame ++ rest) = (result, rest)) :
    Consumes (results ++ [result]) (consumed ++ frame) := by
  intro calls rest
  rw [List.length_append, List.length_singleton, Nat.add_assoc, List.append_assoc,
    h (1 + calls) (frame ++ rest), Nat.add_comm 1 calls, readMessages, hframe, List.append_assoc,
    List.singleton_append]

/-- More calls return the same and then more. -/
theorem readMessages_mono {fewer more : ℕ} (h : fewer ≤ more) (stream : Bytes) :
    readMessages fewer stream <+: readMessages more stream := by
  induction fewer generalizing more stream with
  | zero => exact List.nil_prefix
  | succ fewer ih =>
      cases more with
      | zero => exact absurd h (Nat.not_succ_le_zero fewer)
      | succ more =>
          rw [readMessages, readMessages]
          exact List.cons_prefix_cons.mpr ⟨rfl, ih (Nat.le_of_succ_le_succ h) _⟩

/-- Messages that are returned are returned before the first error. -/
theorem prefix_of_oks {msgs whole : List Message} {err : ProtocolError}
    {later : List (Except ProtocolError Message)}
    (h : msgs.map Except.ok <+: whole.map Except.ok ++ Except.error err :: later) :
    msgs <+: whole := by
  induction msgs generalizing whole with
  | nil => exact List.nil_prefix
  | cons msg msgs ih =>
      cases whole with
      | nil => exact nomatch (List.cons_prefix_cons.mp h).1
      | cons first whole =>
          obtain ⟨hfirst, hrest⟩ := List.cons_prefix_cons.mp h
          exact List.cons_prefix_cons.mpr ⟨Except.ok.inj hfirst, ih hrest⟩

/-- The first error that is returned comes behind all messages. -/
theorem eq_of_oks_error {msgs whole : List Message} {err err' : ProtocolError}
    {later : List (Except ProtocolError Message)}
    (h : msgs.map Except.ok ++ [Except.error err'] <+:
      whole.map Except.ok ++ Except.error err :: later) : msgs = whole ∧ err' = err := by
  induction msgs generalizing whole with
  | nil =>
      cases whole with
      | nil => exact ⟨rfl, Except.error.inj (List.cons_prefix_cons.mp h).1⟩
      | cons first whole => exact nomatch (List.cons_prefix_cons.mp h).1
  | cons msg msgs ih =>
      cases whole with
      | nil => exact nomatch (List.cons_prefix_cons.mp h).1
      | cons first whole =>
          obtain ⟨hfirst, hrest⟩ := List.cons_prefix_cons.mp h
          obtain ⟨rfl, herr⟩ := ih hrest
          exact ⟨by rw [Except.ok.inj hfirst], herr⟩

end OmarchyConnect.Protocol
