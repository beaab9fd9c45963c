/-
# Readers over byte strings

A reader takes a prefix of the bytes that remain, or stops with an error. The
relation `Reads` says that a reader takes exactly one given byte string, whatever
follows it, and returns one given value. It composes along `>>=`, so a round trip
of a whole format is assembled from the round trips of its fields in the order
in which the format lists them. `Accepts` is the other direction: what relates the
bytes to the value whenever a reader succeeds, on whatever input.

Fixed-width integers are little-endian digit strings; `leBytes` and `ofLeBytes`
are inverse up to the width.
-/

import Mathlib.Data.List.Basic
import Mathlib.Tactic

namespace OmarchyConnect.Library.Wire

/-- A byte string. -/
abbrev Bytes := List UInt8

/-! ## Little-endian integers -/

/-- The `width` low bytes of `n`, least significant first. -/
def leBytes : ℕ → ℕ → Bytes
  | 0, _ => []
  | width + 1, n => UInt8.ofNat n :: leBytes width (n / 256)

/-- The number whose little-endian bytes are given. -/
def ofLeBytes : Bytes → ℕ
  | [] => 0
  | byte :: rest => byte.toNat + 256 * ofLeBytes rest

/-- A number takes its width. -/
@[simp]
theorem length_leBytes (width n : ℕ) : (leBytes width n).length = width := by
  induction width generalizing n with
  | zero => rfl
  | succ width ih => simp [leBytes, ih]

/-- Writing and reading back keeps a number up to the width. -/
theorem ofLeBytes_leBytes (width n : ℕ) :
    ofLeBytes (leBytes width n) = n % 256 ^ width := by
  induction width generalizing n with
  | zero => simp [leBytes, ofLeBytes, Nat.mod_one]
  | succ width ih =>
      have hbyte : (UInt8.ofNat n).toNat = n % 256 := by simp
      rw [leBytes, ofLeBytes, ih, hbyte, pow_succ', Nat.mod_mul]

/-- A number below the limit of its width is read back. -/
theorem ofLeBytes_leBytes_of_lt {width n : ℕ} (hlt : n < 256 ^ width) :
    ofLeBytes (leBytes width n) = n := by
  rw [ofLeBytes_leBytes, Nat.mod_eq_of_lt hlt]

/-- A byte string is determined by its number and its length. -/
theorem leBytes_ofLeBytes (bytes : Bytes) : leBytes bytes.length (ofLeBytes bytes) = bytes := by
  induction bytes with
  | nil => rfl
  | cons byte rest ih =>
      have hlow : UInt8.ofNat (byte.toNat + 256 * ofLeBytes rest) = byte := by
        apply UInt8.toNat_inj.mp
        rw [UInt8.toNat_ofNat']
        have hbyte := byte.toNat_lt
        omega
      have hhigh : (byte.toNat + 256 * ofLeBytes rest) / 256 = ofLeBytes rest := by
        have hbyte := byte.toNat_lt
        omega
      rw [List.length_cons, ofLeBytes, leBytes, hlow, hhigh, ih]

/-- Bytes make a number below the limit of their width. -/
theorem ofLeBytes_lt (bytes : Bytes) : ofLeBytes bytes < 256 ^ bytes.length := by
  have hmod := ofLeBytes_leBytes bytes.length (ofLeBytes bytes)
  rw [leBytes_ofLeBytes] at hmod
  rw [hmod]
  exact Nat.mod_lt _ (by positivity)

/-! ## Readers -/

/-- A reader over the bytes not yet consumed. -/
abbrev Reader (ε α : Type) := StateT Bytes (Except ε) α

/-- Take the next `n` bytes, or fail with `short`. -/
def take {ε : Type} (short : ε) (n : ℕ) : Reader ε Bytes := fun rest =>
  if rest.length < n then .error short else .ok (rest.take n, rest.drop n)

variable {ε α β : Type}

/-- `reader` consumes exactly `bytes` and returns `value`, whatever comes after. -/
def Reads (reader : Reader ε α) (bytes : Bytes) (value : α) : Prop :=
  ∀ rest, reader.run (bytes ++ rest) = .ok (value, rest)

/-- A reader that returns a value takes no bytes. -/
theorem Reads.pure (value : α) : Reads (Pure.pure value : Reader ε α) [] value :=
  fun _ => rfl

/-- Readers take their bytes one after another. -/
theorem Reads.bind {first : Reader ε α} {next : α → Reader ε β} {bytes more : Bytes}
    {value : α} {result : β} (hfirst : Reads first bytes value)
    (hnext : Reads (next value) more result) :
    Reads (first >>= next) (bytes ++ more) result := by
  intro rest
  rw [StateT.run_bind, List.append_assoc, hfirst]
  exact hnext rest

/-- The last field of a record: nothing follows it but the returned value. -/
theorem Reads.bind_last {first : Reader ε α} {next : α → Reader ε β} {bytes : Bytes}
    {value : α} {result : β} (hfirst : Reads first bytes value)
    (hnext : Reads (next value) [] result) :
    Reads (first >>= next) bytes result := by
  simpa using hfirst.bind hnext

/-- A reader that decodes the value it took. -/
theorem Reads.bind_pure {reader : Reader ε α} {bytes : Bytes} {value : α} {f : α → β}
    {result : β} (h : Reads reader bytes value) (hvalue : f value = result) :
    Reads (reader >>= fun taken => Pure.pure (f taken)) bytes result :=
  h.bind_last (hvalue ▸ Reads.pure (f value))

/-- On the whole input nothing is left over. -/
theorem Reads.run_eq {reader : Reader ε α} {bytes : Bytes} {value : α}
    (h : Reads reader bytes value) : reader.run bytes = .ok (value, []) := by
  simpa using h []

/-- Taking takes just the bytes asked for. -/
theorem reads_take (short : ε) (bytes : Bytes) :
    Reads (take short bytes.length) bytes bytes := by
  intro rest
  simp [take, StateT.run]

/-- Taking as many bytes as there are takes them all. -/
theorem reads_take_of_length {short : ε} {bytes : Bytes} {n : ℕ} (hlength : bytes.length = n) :
    Reads (take short n) bytes bytes :=
  hlength ▸ reads_take short bytes

/-- Run one reader `n` times and collect the values. -/
def times (reader : Reader ε α) : ℕ → Reader ε (List α)
  | 0 => Pure.pure []
  | n + 1 => do
      let value ← reader
      let values ← times reader n
      return value :: values

/-- A list of records reads back when each record does. -/
theorem reads_times {reader : Reader ε α} {encode : α → Bytes} (values : List α)
    (hreads : ∀ value ∈ values, Reads reader (encode value) value) :
    Reads (times reader values.length) (values.flatMap encode) values := by
  induction values with
  | nil => exact Reads.pure []
  | cons value values ih =>
      have hhead := hreads value (by simp)
      have htail := ih fun later hlater => hreads later (by simp [hlater])
      exact hhead.bind (htail.bind_last (Reads.pure _))

/-! ## What a reader accepts -/

/-- Whenever `reader` succeeds, it took bytes off the front of its input that `P`
relates to the value. -/
def Accepts (reader : Reader ε α) (P : Bytes → α → Prop) : Prop :=
  ∀ input value rest, reader.run input = .ok (value, rest) →
    ∃ taken, input = taken ++ rest ∧ P taken value

/-- What is accepted may be weakened. -/
theorem Accepts.mono {reader : Reader ε α} {P Q : Bytes → α → Prop} (h : Accepts reader P)
    (himp : ∀ taken value, P taken value → Q taken value) : Accepts reader Q := by
  intro input value rest hrun
  obtain ⟨taken, hinput, htaken⟩ := h input value rest hrun
  exact ⟨taken, hinput, himp taken value htaken⟩

/-- A reader that returns a value takes nothing, and accepts that. -/
theorem Accepts.pure {P : Bytes → α → Prop} {value : α} (h : P [] value) :
    Accepts (Pure.pure value : Reader ε α) P := by
  intro input result rest hrun
  cases hrun
  exact ⟨[], rfl, h⟩

/-- An error accepts nothing. -/
theorem Accepts.error (err : ε) (P : Bytes → α → Prop) :
    Accepts (fun _ => .error err : Reader ε α) P := by
  intro input value rest hrun
  cases hrun

/-- Both branches accept, each under its condition. -/
theorem Accepts.ite {c : Prop} [Decidable c] {first second : Reader ε α}
    {P : Bytes → α → Prop} (hfirst : c → Accepts first P) (hsecond : ¬ c → Accepts second P) :
    Accepts (if c then first else second) P := by
  split_ifs with h
  · exact hfirst h
  · exact hsecond h

/-- The second reader accepts what the bytes of both are to be. -/
theorem Accepts.bind {first : Reader ε α} {next : α → Reader ε β} {P : Bytes → α → Prop}
    {Q : Bytes → β → Prop} (hfirst : Accepts first P)
    (hnext : ∀ taken value, P taken value →
      Accepts (next value) fun more result => Q (taken ++ more) result) :
    Accepts (first >>= next) Q := by
  intro input result rest hrun
  rw [StateT.run_bind] at hrun
  cases hone : first.run input with
  | error err =>
      rw [hone] at hrun
      cases hrun
  | ok pair =>
      obtain ⟨value, between⟩ := pair
      rw [hone] at hrun
      obtain ⟨taken, hinput, htaken⟩ := hfirst input value between hone
      obtain ⟨more, hbetween, hmore⟩ := hnext taken value htaken between result rest hrun
      exact ⟨taken ++ more, by rw [hinput, hbetween, List.append_assoc], hmore⟩

/-- A field of a record, read before the fields that `next` reads. -/
theorem Accepts.field {first : Reader ε α} {next : α → Reader ε β} {encode : α → Bytes}
    {good : α → Prop} {Q : Bytes → β → Prop}
    (hfirst : Accepts first fun taken value => taken = encode value ∧ good value)
    (hnext : ∀ value, good value →
      Accepts (next value) fun more result => Q (encode value ++ more) result) :
    Accepts (first >>= next) Q := by
  apply hfirst.bind
  intro taken value htaken
  obtain ⟨rfl, hgood⟩ := htaken
  exact hnext value hgood

/-- The last field of a record. -/
theorem Accepts.field_last {first : Reader ε α} {f : α → β} {encode : α → Bytes}
    {good : α → Prop} {Q : Bytes → β → Prop}
    (hfirst : Accepts first fun taken value => taken = encode value ∧ good value)
    (hlast : ∀ value, good value → Q (encode value) (f value)) :
    Accepts (first >>= fun value => Pure.pure (f value)) Q := by
  apply hfirst.field
  intro value hgood
  apply Accepts.pure
  rw [List.append_nil]
  exact hlast value hgood

/-- Taking accepts the bytes that it takes. -/
theorem accepts_take (short : ε) (n : ℕ) :
    Accepts (take short n) fun taken value => taken = value ∧ value.length = n := by
  intro input value rest hrun
  simp only [take, StateT.run] at hrun
  split_ifs at hrun with hshort
  cases hrun
  exact ⟨input.take n, (List.take_append_drop n input).symm, rfl, by
    rw [List.length_take]
    omega⟩

/-- A list of accepted records is the concatenation of their encodings. -/
theorem accepts_times {reader : Reader ε α} {encode : α → Bytes} {good : α → Prop}
    (h : Accepts reader fun taken value => taken = encode value ∧ good value) (n : ℕ) :
    Accepts (times reader n) fun taken values =>
      taken = values.flatMap encode ∧ values.length = n ∧ ∀ value ∈ values, good value := by
  induction n with
  | zero => exact Accepts.pure ⟨rfl, rfl, by simp⟩
  | succ n ih =>
      apply h.field
      intro value hgood
      apply ih.field_last
      intro values hvalues
      obtain ⟨hlength, hall⟩ := hvalues
      refine ⟨List.flatMap_cons.symm, by rw [List.length_cons, hlength], ?_⟩
      intro other hother
      cases hother with
      | head => exact hgood
      | tail _ hlater => exact hall other hlater

end OmarchyConnect.Library.Wire
