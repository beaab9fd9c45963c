/-
# Texts and their bytes

A text is a list of characters, and its length is counted in bytes. Bytes that are not
text are decoded with a replacement character for each longest beginning of a character
that does not go on. A text can be cut at the start of a character only.
-/

import Mathlib.Data.List.Basic
import Mathlib.Algebra.BigOperators.Group.List.Basic
import Mathlib.Algebra.GroupWithZero.Nat

namespace OmarchyConnect.Library.LossyText

/-- A text is a list of characters. -/
abbrev Text := List Char

/-- The length in bytes. -/
def textLength (text : Text) : ℕ := (text.map Char.utf8Size).sum

/-- The empty text has no bytes. -/
@[simp]
theorem textLength_nil : textLength [] = 0 := rfl

/-- A character adds its bytes. -/
@[simp]
theorem textLength_cons (c : Char) (text : Text) :
    textLength (c :: text) = c.utf8Size + textLength text := by
  simp [textLength]

/-- Lengths of texts add up. -/
@[simp]
theorem textLength_append (first second : Text) :
    textLength (first ++ second) = textLength first + textLength second := by
  simp [textLength]

/-- The length of a repeated character. -/
@[simp]
theorem textLength_replicate (n : ℕ) (c : Char) :
    textLength (List.replicate n c) = n * c.utf8Size := by
  simp [textLength]

/-- The end of a text is not longer than the text. -/
theorem textLength_le_of_suffix {short long : Text} (h : short <:+ long) :
    textLength short ≤ textLength long := by
  obtain ⟨front, rfl⟩ := h
  rw [textLength_append]
  exact Nat.le_add_left _ _

/-! ## Cutting off the front -/

/-- Cutting off the first bytes; `none` when the cut is not at the start of a character. -/
def drain : ℕ → Text → Option Text
  | 0, text => some text
  | _ + 1, [] => none
  | n + 1, c :: text => if c.utf8Size ≤ n + 1 then drain (n + 1 - c.utf8Size) text else none

/-- A cut drops a beginning of just this length. -/
theorem drain_eq_some_iff {n : ℕ} {text rest : Text} :
    drain n text = some rest ↔ ∃ front, front ++ rest = text ∧ textLength front = n := by
  fun_induction drain n text with
  | case1 text =>
      constructor
      · intro h
        exact ⟨[], Option.some.inj h.symm, rfl⟩
      · rintro ⟨front, rfl, hfront⟩
        cases front with
        | nil => rfl
        | cons c front =>
            have hpos := c.utf8Size_pos
            rw [textLength_cons] at hfront
            omega
  | case2 n =>
      refine iff_of_false nofun ?_
      rintro ⟨front, hfront, hlength⟩
      rw [(List.append_eq_nil_iff.mp hfront).1, textLength_nil] at hlength
      omega
  | case3 n c text hle ih =>
      rw [ih]
      constructor
      · rintro ⟨front, hfront, hlength⟩
        refine ⟨c :: front, by rw [List.cons_append, hfront], ?_⟩
        rw [textLength_cons, hlength]
        exact Nat.add_sub_cancel' hle
      · rintro ⟨front, hfront, hlength⟩
        cases front with
        | nil => exact absurd hlength (Nat.succ_ne_zero n).symm
        | cons d front =>
            obtain ⟨rfl, rfl⟩ := List.cons.inj hfront
            rw [textLength_cons] at hlength
            exact ⟨front, rfl, by omega⟩
  | case4 n c text hlt =>
      refine iff_of_false nofun ?_
      rintro ⟨front, hfront, hlength⟩
      cases front with
      | nil => exact absurd hlength (Nat.succ_ne_zero n).symm
      | cons d front =>
          obtain ⟨rfl, -⟩ := List.cons.inj hfront
          rw [textLength_cons] at hlength
          omega

/-- The last `n` bytes of the text are whole characters. -/
def EndsWhole (n : ℕ) (text : Text) : Prop := ∃ rest, rest <:+ text ∧ textLength rest = n

/-- Text of one byte a character can be cut anywhere. -/
theorem endsWhole_of_single {text : Text} (hsingle : ∀ c ∈ text, c.utf8Size = 1) {n : ℕ}
    (hn : n ≤ textLength text) : EndsWhole n text := by
  have hlength : ∀ part : Text, part <:+ text → textLength part = part.length := by
    intro part hpart
    have hones : part.map Char.utf8Size = List.replicate part.length 1 :=
      List.map_eq_replicate_iff.mpr fun c hc => hsingle c (hpart.mem hc)
    rw [textLength, hones, List.sum_replicate_nat, Nat.mul_one]
  have hdrop := List.drop_suffix (text.length - n) text
  refine ⟨_, hdrop, ?_⟩
  rw [hlength text List.suffix_rfl] at hn
  rw [hlength _ hdrop, List.length_drop]
  omega

/-- Keeping the last `n` bytes works when they are whole characters, and keeps just these. -/
theorem drain_keeping {n : ℕ} {text : Text} (hn : n ≤ textLength text) {rest : Text} :
    drain (textLength text - n) text = some rest ↔ rest <:+ text ∧ textLength rest = n := by
  rw [drain_eq_some_iff]
  constructor
  · rintro ⟨front, rfl, hlength⟩
    rw [textLength_append] at hlength hn
    exact ⟨List.suffix_append front rest, by omega⟩
  · rintro ⟨⟨front, rfl⟩, rfl⟩
    exact ⟨front, rfl, by rw [textLength_append, Nat.add_sub_cancel]⟩

/-- Whether the end of a text is whole characters can be seen on any longer end of it. -/
theorem endsWhole_iff_of_suffix {n : ℕ} {short long : Text} (hsuffix : short <:+ long)
    (hn : n ≤ textLength short) : EndsWhole n short ↔ EndsWhole n long := by
  constructor
  · rintro ⟨rest, hrest, hlength⟩
    exact ⟨rest, hrest.trans hsuffix, hlength⟩
  · rintro ⟨rest, hrest, rfl⟩
    rcases List.suffix_or_suffix_of_suffix hrest hsuffix with h | h
    · exact ⟨rest, h, rfl⟩
    · exact ⟨short, List.suffix_rfl, Nat.le_antisymm (textLength_le_of_suffix h) hn⟩

/-! ## Decoding -/

/-- The replacement character. -/
def replacement : Char := '\uFFFD'

/-- A character that has begun: how many bytes it still owes, the bounds of the next one,
and its bits so far. -/
structure Begun where
  owed : ℕ
  low : ℕ
  high : ℕ
  code : ℕ
  deriving DecidableEq

/-- A character of more than one byte, by its first byte. After 0xE0, 0xED, 0xF0 and 0xF4
the next byte has narrower bounds: it would be too long an encoding, a surrogate or above
U+10FFFF. -/
def Begun.ofFirst (byte : ℕ) : Begun where
  owed := if byte < 0xE0 then 1 else if byte < 0xF0 then 2 else 3
  low := if byte = 0xE0 then 0xA0 else if byte = 0xF0 then 0x90 else 0x80
  high := if byte = 0xED then 0x9F else if byte = 0xF4 then 0x8F else 0xBF
  code := if byte < 0xE0 then byte % 0x20 else if byte < 0xF0 then byte % 0x10 else byte % 0x08

/-- The first byte of a character. -/
def start (byte : ℕ) : Text × Option Begun :=
  if byte < 0x80 then ([Char.ofNat byte], none)
  else if byte < 0xC2 ∨ 0xF4 < byte then ([replacement], none)
  else ([], some (.ofFirst byte))

/-- A byte within the bounds belongs to the character, any other one starts the next. -/
def goOn (begun : Begun) (byte : ℕ) : Text × Option Begun :=
  if begun.low ≤ byte ∧ byte ≤ begun.high then
    let code := begun.code * 0x40 + byte % 0x40
    if begun.owed = 1 then ([Char.ofNat code], none)
    else ([], some ⟨begun.owed - 1, 0x80, 0xBF, code⟩)
  else (replacement :: (start byte).1, (start byte).2)

/-- The decoder, with the character that it is in. -/
def decodeFrom : Option Begun → List UInt8 → Text
  | none, [] => []
  | some _, [] => [replacement]
  | none, byte :: bytes => (start byte.toNat).1 ++ decodeFrom (start byte.toNat).2 bytes
  | some begun, byte :: bytes =>
      (goOn begun byte.toNat).1 ++ decodeFrom (goOn begun byte.toNat).2 bytes

/-- `String::from_utf8_lossy`. -/
def fromUtf8Lossy (bytes : List UInt8) : Text := decodeFrom none bytes

section Characters

variable {begun : Begun} {byte owed code : ℕ} (bytes : List UInt8)

/-- A byte below 0x80 is a character. -/
theorem decodeFrom_single (hbyte : byte < 0x80) :
    decodeFrom none (UInt8.ofNat byte :: bytes) = Char.ofNat byte :: decodeFrom none bytes := by
  have hlt : byte < 256 := by omega
  rw [decodeFrom, UInt8.toNat_ofNat_of_lt' hlt, start, if_pos hbyte]
  rfl

/-- A first byte begins a character. -/
theorem decodeFrom_first (hlow : 0xC2 ≤ byte) (hhigh : byte ≤ 0xF4) :
    decodeFrom none (UInt8.ofNat byte :: bytes) = decodeFrom (some (.ofFirst byte)) bytes := by
  have hlt : byte < 256 := by omega
  rw [decodeFrom, UInt8.toNat_ofNat_of_lt' hlt, start, if_neg (by omega), if_neg (by omega)]
  rfl

/-- A byte in the middle of a character. -/
theorem decodeFrom_middle (hbyte : byte < 256) (hbounds : begun.low ≤ byte ∧ byte ≤ begun.high)
    (howed : begun.owed = owed + 2) (hcode : begun.code * 0x40 + byte % 0x40 = code) :
    decodeFrom (some begun) (UInt8.ofNat byte :: bytes) =
      decodeFrom (some ⟨owed + 1, 0x80, 0xBF, code⟩) bytes := by
  rw [decodeFrom, UInt8.toNat_ofNat_of_lt' hbyte, goOn, if_pos hbounds, if_neg (by omega), hcode,
    howed]
  rfl

/-- The last byte of a character. -/
theorem decodeFrom_last (hbyte : byte < 256) (hbounds : begun.low ≤ byte ∧ byte ≤ begun.high)
    (howed : begun.owed = 1) (hcode : begun.code * 0x40 + byte % 0x40 = code) :
    decodeFrom (some begun) (UInt8.ofNat byte :: bytes) =
      Char.ofNat code :: decodeFrom none bytes := by
  rw [decodeFrom, UInt8.toNat_ofNat_of_lt' hbyte, goOn, if_pos hbounds, if_pos howed, hcode]
  rfl

/-- The bounds of every byte behind the second. -/
theorem tail_bounds (owed bits value : ℕ) :
    (Begun.mk owed 0x80 0xBF bits).low ≤ value % 64 + 128 ∧
      value % 64 + 128 ≤ (Begun.mk owed 0x80 0xBF bits).high := by
  dsimp only
  omega

variable {value : ℕ}

/-- A character of two bytes is read back. -/
theorem decodeFrom_two (hlow : 0x7F < value) (hhigh : value ≤ 0x7FF) :
    decodeFrom none (UInt8.ofNat (value / 64 % 32 + 192) ::
        UInt8.ofNat (value % 64 + 128) :: bytes) =
      Char.ofNat value :: decodeFrom none bytes := by
  have hbounds : (Begun.ofFirst (value / 64 % 32 + 192)).low ≤ value % 64 + 128 ∧
      value % 64 + 128 ≤ (Begun.ofFirst (value / 64 % 32 + 192)).high := by
    simp only [Begun.ofFirst]
    split_ifs <;> omega
  have hcode : (Begun.ofFirst (value / 64 % 32 + 192)).code * 0x40 +
      (value % 64 + 128) % 0x40 = value := by
    simp only [Begun.ofFirst]
    split_ifs <;> omega
  rw [decodeFrom_first _ (by omega) (by omega),
    decodeFrom_last _ (by omega) hbounds (if_pos (by omega)) hcode]

/-- A character of three bytes is read back. -/
theorem decodeFrom_three (hlow : 0x7FF < value) (hhigh : value ≤ 0xFFFF)
    (hvalid : value < 0xD800 ∨ 0xDFFF < value) :
    decodeFrom none (UInt8.ofNat (value / 4096 % 16 + 224) ::
        UInt8.ofNat (value / 64 % 64 + 128) :: UInt8.ofNat (value % 64 + 128) :: bytes) =
      Char.ofNat value :: decodeFrom none bytes := by
  have hbounds : (Begun.ofFirst (value / 4096 % 16 + 224)).low ≤ value / 64 % 64 + 128 ∧
      value / 64 % 64 + 128 ≤ (Begun.ofFirst (value / 4096 % 16 + 224)).high := by
    simp only [Begun.ofFirst]
    split_ifs <;> omega
  have howed : (Begun.ofFirst (value / 4096 % 16 + 224)).owed = 2 := by
    simp only [Begun.ofFirst]
    split_ifs <;> omega
  have hcode : (Begun.ofFirst (value / 4096 % 16 + 224)).code * 0x40 +
      (value / 64 % 64 + 128) % 0x40 = value / 64 := by
    simp only [Begun.ofFirst]
    split_ifs <;> omega
  have hlast : value / 64 * 0x40 + (value % 64 + 128) % 0x40 = value := by omega
  rw [decodeFrom_first _ (by omega) (by omega),
    decodeFrom_middle _ (by omega) hbounds howed hcode,
    decodeFrom_last _ (by omega) (tail_bounds _ _ value) rfl hlast]

/-- A character of four bytes is read back. -/
theorem decodeFrom_four (hlow : 0xFFFF < value) (hhigh : value < 0x110000) :
    decodeFrom none (UInt8.ofNat (value / 262144 % 8 + 240) ::
        UInt8.ofNat (value / 4096 % 64 + 128) :: UInt8.ofNat (value / 64 % 64 + 128) ::
          UInt8.ofNat (value % 64 + 128) :: bytes) =
      Char.ofNat value :: decodeFrom none bytes := by
  have hbounds : (Begun.ofFirst (value / 262144 % 8 + 240)).low ≤ value / 4096 % 64 + 128 ∧
      value / 4096 % 64 + 128 ≤ (Begun.ofFirst (value / 262144 % 8 + 240)).high := by
    simp only [Begun.ofFirst]
    split_ifs <;> omega
  have howed : (Begun.ofFirst (value / 262144 % 8 + 240)).owed = 3 := by
    simp only [Begun.ofFirst]
    split_ifs <;> omega
  have hcode : (Begun.ofFirst (value / 262144 % 8 + 240)).code * 0x40 +
      (value / 4096 % 64 + 128) % 0x40 = value / 4096 := by
    simp only [Begun.ofFirst]
    split_ifs <;> omega
  have hthird : value / 4096 * 0x40 + (value / 64 % 64 + 128) % 0x40 = value / 64 := by omega
  have hlast : value / 64 * 0x40 + (value % 64 + 128) % 0x40 = value := by omega
  rw [decodeFrom_first _ (by omega) (by omega),
    decodeFrom_middle _ (by omega) hbounds howed hcode,
    decodeFrom_middle _ (by omega) (tail_bounds _ _ (value / 64)) rfl hthird,
    decodeFrom_last _ (by omega) (tail_bounds _ _ value) rfl hlast]

/-- A whole character is decoded to itself. -/
theorem fromUtf8Lossy_encodeChar (c : Char) :
    fromUtf8Lossy (String.utf8EncodeChar c ++ bytes) = c :: fromUtf8Lossy bytes := by
  have hvalid : c.val.toNat < 0xD800 ∨ 0xDFFF < c.val.toNat ∧ c.val.toNat < 0x110000 := c.valid
  have hchar : Char.ofNat c.val.toNat = c := Char.ofNat_toNat c
  unfold fromUtf8Lossy
  fun_cases String.utf8EncodeChar c with
  | case1 value hone =>
      exact (decodeFrom_single bytes (by omega)).trans (by rw [hchar])
  | case2 value hone htwo =>
      exact (decodeFrom_two bytes (by omega) htwo).trans (by rw [hchar])
  | case3 value hone htwo hthree =>
      exact (decodeFrom_three bytes (by omega) hthree (by omega)).trans (by rw [hchar])
  | case4 value hone htwo hthree =>
      exact (decodeFrom_four bytes (by omega) (by omega)).trans (by rw [hchar])

end Characters

/-- `as_bytes`. -/
def toUtf8 (text : Text) : List UInt8 := text.flatMap String.utf8EncodeChar

/-- A text has as many bytes as its length says. -/
theorem length_toUtf8 (text : Text) : (toUtf8 text).length = textLength text := by
  simp [toUtf8, textLength, List.length_flatMap]

/-- A text that comes in one piece is decoded to itself. -/
theorem fromUtf8Lossy_toUtf8 (text : Text) : fromUtf8Lossy (toUtf8 text) = text := by
  unfold toUtf8
  induction text with
  | nil => rfl
  | cons c text ih => rw [List.flatMap_cons, fromUtf8Lossy_encodeChar, ih]

/-- Bytes below 0x80 are decoded to characters of one byte. -/
theorem utf8Size_of_mem_fromUtf8Lossy {bytes : List UInt8} (hascii : ∀ byte ∈ bytes, byte < 0x80) :
    ∀ c ∈ fromUtf8Lossy bytes, c.utf8Size = 1 := by
  induction bytes with
  | nil => nofun
  | cons byte bytes ih =>
      rw [List.forall_mem_cons] at hascii
      have hbyte : byte.toNat < 0x80 := hascii.1
      have hvalid : byte.toNat.isValidChar := Or.inl (by omega)
      have hfirst : fromUtf8Lossy (byte :: bytes) =
          Char.ofNat byte.toNat :: fromUtf8Lossy bytes := by
        simpa [fromUtf8Lossy] using decodeFrom_single bytes hbyte
      rw [hfirst, List.forall_mem_cons]
      refine ⟨?_, ih hascii.2⟩
      have hval : (Char.ofNat byte.toNat).val.toNat = byte.toNat := by
        rw [Char.ofNat, dif_pos hvalid]
        rfl
      rw [Char.utf8Size_eq_one_iff, UInt32.le_iff_toNat_le, hval]
      exact Nat.le_of_lt_succ hbyte

end OmarchyConnect.Library.LossyText
