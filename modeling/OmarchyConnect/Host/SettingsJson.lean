/-
# A JSON text of the settings

A writer and a reader that know the fields of the settings, in the layout that
`serde_json` gives them for a PIN without control characters. The reader takes nothing
but what the writer writes, so a cut text is an error.
-/

import OmarchyConnect.Host.Settings

namespace OmarchyConnect.Host

open OmarchyConnect.Protocol

namespace PlainJson

/-- The name of a field and what stands around it. -/
def key (before : Char) (name : List Char) : List Char :=
  before :: '\n' :: ' ' :: ' ' :: '"' :: name ++ ['"', ':', ' ']

/-- The text up to the first value. -/
def unattendedKey : List Char :=
  key '\x7b' ['u', 'n', 'a', 't', 't', 'e', 'n', 'd', 'e', 'd']
def pinKey : List Char := key ',' ['p', 'i', 'n'] ++ ['"']
def fpsKey : List Char := key ',' ['f', 'p', 's']
def bitrateKey : List Char :=
  key ',' ['b', 'i', 't', 'r', 'a', 't', 'e', '_', 'k', 'b', 'p', 's']

/-- The text behind the last value. -/
def closing : List Char := ['\n', '\x7d']

/-! ## Writing -/

/-- The two truth values. -/
def trueText : List Char := ['t', 'r', 'u', 'e']
def falseText : List Char := ['f', 'a', 'l', 's', 'e']

/-- A truth value in its word. -/
def putBool (value : Bool) : List Char := if value then trueText else falseText

/-- A number in decimal digits. -/
def putNumber (value : UInt32) : List Char := Nat.toDigits 10 value.toNat

/-- A text with its quotes and backslashes escaped. -/
def quote (chars : List Char) : List Char :=
  chars.flatMap fun c => if c = '"' ∨ c = '\\' then ['\\', c] else [c]

/-- The entry of the PIN, which is left out where there is none. -/
def putPin : Option String → List Char
  | none => []
  | some pin => pinKey ++ quote pin.toList ++ ['"']

/-- The entries in the order of the struct. -/
def put (settings : Settings) : List Char :=
  unattendedKey ++ (putBool settings.unattended ++ (putPin settings.pin ++
    (fpsKey ++ (putNumber settings.fps ++ (bitrateKey ++ (putNumber settings.bitrateKbps ++
      closing))))))

/-! ## Reading -/

/-- Read a fixed text. -/
def expect (text chars : List Char) : Option (List Char) :=
  if text <+: chars then some (chars.drop text.length) else none

/-- One of the two words. -/
def readBool (chars : List Char) : Option (Bool × List Char) :=
  match expect trueText chars with
  | some rest => some (true, rest)
  | none => (expect falseText chars).map fun rest => (false, rest)

/-- The digits in front, and what follows them. -/
def readNumber (chars : List Char) : UInt32 × List Char :=
  (UInt32.ofNat (Nat.ofDigitChars 10 (chars.takeWhile Char.isDigit) 0),
    chars.dropWhile Char.isDigit)

/-- Read up to the closing quote. -/
def unquote : List Char → Option (List Char × List Char)
  | [] => none
  | c :: rest =>
      if c = '"' then some ([], rest)
      else if c = '\\' then
        match rest with
        | [] => none
        | escaped :: rest => (unquote rest).map fun (chars, rest) => (escaped :: chars, rest)
      else (unquote rest).map fun (chars, rest) => (c :: chars, rest)

/-- The entry of the PIN, or nothing. -/
def readPin (chars : List Char) : Option (Option String × List Char) :=
  match expect pinKey chars with
  | none => some (none, chars)
  | some rest => (unquote rest).map fun (pin, rest) => (some (String.ofList pin), rest)

/-- The entries of `put` one after another, and a line end. -/
def read (chars : List Char) : Option Settings := do
  let rest ← expect unattendedKey chars
  let (unattended, rest) ← readBool rest
  let (pin, rest) ← readPin rest
  let rest ← expect fpsKey rest
  let (fps, rest) := readNumber rest
  let rest ← expect bitrateKey rest
  let (bitrateKbps, rest) := readNumber rest
  let rest ← expect closing rest
  if rest = ['\n'] then some { unattended, pin, fps, bitrateKbps } else none

/-! ## Round trips -/

/-- A text is found in front of what follows it. -/
theorem expect_append (text rest : List Char) : expect text (text ++ rest) = some rest := by
  rw [expect, if_pos (List.prefix_append text rest), List.drop_left]

/-- A text that is not in front is not found. -/
theorem expect_of_other {text chars : List Char} (hother : ¬ text <+: chars) :
    expect text chars = none := by
  rw [expect, if_neg hother]

/-- A truth value is read back. -/
theorem readBool_putBool (value : Bool) (rest : List Char) :
    readBool (putBool value ++ rest) = some (value, rest) := by
  cases value with
  | true => rw [putBool, if_pos rfl, readBool, expect_append]
  | false =>
      have hother : expect trueText (falseText ++ rest) = none :=
        expect_of_other (by simp [trueText, falseText])
      rw [putBool, if_neg Bool.false_ne_true, readBool, hother, expect_append]
      rfl

/-- A number ends before the next field. -/
theorem readNumber_putNumber (value : UInt32) {rest : List Char} {first : Char}
    (hfirst : rest.head? = some first) (hdigit : first.isDigit = false) :
    readNumber (putNumber value ++ rest) = (value, rest) := by
  have hdigits : ∀ c ∈ Nat.toDigits 10 value.toNat, c.isDigit = true := fun c hc =>
    Nat.isDigit_of_mem_toDigits (by decide) (by decide) hc
  have hnone : rest.takeWhile Char.isDigit = [] := by
    cases rest with
    | nil => rfl
    | cons other rest =>
        obtain rfl := Option.some.inj hfirst
        exact List.takeWhile_cons_of_neg (by simp [hdigit])
  have hall : rest.dropWhile Char.isDigit = rest := by
    have hsplit : rest.takeWhile Char.isDigit ++ rest.dropWhile Char.isDigit = rest :=
      List.takeWhile_append_dropWhile
    rwa [hnone, List.nil_append] at hsplit
  rw [readNumber, putNumber, List.takeWhile_append_of_pos hdigits,
    List.dropWhile_append_of_pos hdigits, hnone, hall, List.append_nil,
    Nat.ofDigitChars_toDigits (by decide) (by decide), UInt32.ofNat_toNat]

/-- A plain character stands for itself. -/
theorem unquote_plain {c : Char} (hplain : ¬ (c = '"' ∨ c = '\\')) (rest : List Char) :
    unquote (c :: rest) = (unquote rest).map fun (chars, rest) => (c :: chars, rest) := by
  obtain ⟨hquote, hescape⟩ := not_or.mp hplain
  rw [unquote.eq_def]
  simp only [if_neg hquote, if_neg hescape]

/-- An escaped character stands for itself. -/
theorem unquote_escaped (c : Char) (rest : List Char) :
    unquote ('\\' :: c :: rest) =
      (unquote rest).map fun (chars, rest) => (c :: chars, rest) := by
  rw [unquote.eq_def]
  simp

/-- A quoted text is read back up to its closing quote. -/
theorem unquote_quote (chars rest : List Char) :
    unquote (quote chars ++ '"' :: rest) = some (chars, rest) := by
  induction chars with
  | nil =>
      rw [quote, List.flatMap_nil, List.nil_append, unquote.eq_def]
      simp
  | cons c chars ih =>
      rw [quote, List.flatMap_cons, List.append_assoc]
      by_cases hescape : c = '"' ∨ c = '\\'
      · rw [if_pos hescape, List.cons_append, List.singleton_append, unquote_escaped, ← quote, ih,
          Option.map_some]
      · rw [if_neg hescape, List.singleton_append, unquote_plain hescape, ← quote, ih,
          Option.map_some]

/-- The PIN or its absence is read back. -/
theorem readPin_putPin (pin : Option String) (rest : List Char) :
    readPin (putPin pin ++ (fpsKey ++ rest)) = some (pin, fpsKey ++ rest) := by
  cases pin with
  | none =>
      have hother : expect pinKey (fpsKey ++ rest) = none :=
        expect_of_other (by simp [pinKey, fpsKey, key])
      rw [putPin, List.nil_append, readPin, hother]
  | some pin =>
      rw [putPin, readPin, List.append_assoc, List.append_assoc, expect_append]
      simp only [List.singleton_append, unquote_quote, Option.map_some, String.ofList_toList]

/-- Settings are read back from what `put` writes. -/
theorem read_put (settings : Settings) : read (put settings ++ ['\n']) = some settings := by
  have hkey : ∀ rest, (bitrateKey ++ rest).head? = some ',' := fun _ => rfl
  have hclosing : ∀ rest, (closing ++ rest).head? = some '\n' := fun _ => rfl
  simp only [read, put, List.append_assoc, expect_append, readBool_putBool, readPin_putPin,
    readNumber_putNumber _ (hkey _) (by decide), readNumber_putNumber _ (hclosing _) (by decide),
    Option.bind_eq_bind, Option.bind_some, if_true]

end PlainJson

/-- The settings as plain JSON. -/
def plainJson : SettingsJson where
  toStringPretty settings := String.ofList (PlainJson.put settings)
  fromStr text :=
    match PlainJson.read text.toList with
    | some settings => .ok settings
    | none => .error "not the settings"

/-- The layout is lawful: what is saved is what is loaded. -/
theorem plainJson_lawful : plainJson.Lawful where
  object := by
    intro settings
    simp [plainJson, PlainJson.put, PlainJson.unattendedKey, PlainJson.key]
  reads := by
    intro settings
    have hnewline : "\n".toList = ['\n'] := rfl
    simp only [plainJson, String.toList_append, String.toList_ofList, hnewline, PlainJson.read_put]

end OmarchyConnect.Host
