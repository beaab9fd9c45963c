/-
# A JSON text of the state

A writer and a reader that know the fields of the state, in the layout that `serde_json`
gives them for texts without control characters.
-/

import OmarchyConnect.Host.LiveState
import OmarchyConnect.Host.SettingsJson

namespace OmarchyConnect.Host

open OmarchyConnect.Protocol

namespace PlainJson

/-- The text up to the first value. -/
def pidKey : List Char := key '\x7b' ['p', 'i', 'd']
def statusKey : List Char := key ',' ['s', 't', 'a', 't', 'u', 's']
def portKey : List Char := key ',' ['p', 'o', 'r', 't']
def peerKey : List Char := key ',' ['p', 'e', 'e', 'r']
def clientKey : List Char := key ',' ['c', 'l', 'i', 'e', 'n', 't']
def sinceKey : List Char := key ',' ['s', 'i', 'n', 'c', 'e']
def lockedUntilKey : List Char :=
  key ',' ['l', 'o', 'c', 'k', 'e', 'd', '_', 'u', 'n', 't', 'i', 'l']
def lastErrorKey : List Char := key ',' ['l', 'a', 's', 't', '_', 'e', 'r', 'r', 'o', 'r']
def inputReadyKey : List Char :=
  key ',' ['i', 'n', 'p', 'u', 't', '_', 'r', 'e', 'a', 'd', 'y']

def nullText : List Char := ['n', 'u', 'l', 'l']
def listeningText : List Char := ['"', 'l', 'i', 's', 't', 'e', 'n', 'i', 'n', 'g', '"']
def sharingText : List Char := ['"', 's', 'h', 'a', 'r', 'i', 'n', 'g', '"']
def connectedText : List Char := ['"', 'c', 'o', 'n', 'n', 'e', 'c', 't', 'e', 'd', '"']

/-! ## Writing -/

/-- A number in decimal digits. -/
def putNat (value : ℕ) : List Char := Nat.toDigits 10 value

/-- `rename_all = "kebab-case"` of `Status`. -/
def putStatus : Status → List Char
  | .listening => listeningText
  | .sharing => sharingText
  | .connected => connectedText

/-- A text in its quotes, or `null`. -/
def putText : Option String → List Char
  | none => nullText
  | some text => '"' :: quote text.toList ++ ['"']

/-- A number, or `null`. -/
def putNatOrNull : Option ℕ → List Char
  | none => nullText
  | some value => putNat value

/-- The fields in the order of the struct. -/
def putLive (live : LiveState) : List Char :=
  pidKey ++ (putNat live.pid.toNat ++ (statusKey ++ (putStatus live.status ++ (portKey ++
    (putNat live.port.toNat ++ (peerKey ++ (putText live.peer ++ (clientKey ++
      (putText live.client ++ (sinceKey ++ (putNatOrNull live.since ++ (lockedUntilKey ++
        (putNatOrNull live.lockedUntil ++ (lastErrorKey ++ (putText live.lastError ++
          (inputReadyKey ++ (putBool live.inputReady ++ closing)))))))))))))))))

/-! ## Reading -/

/-- The digits in front, and what follows them. -/
def readNat (chars : List Char) : ℕ × List Char :=
  (Nat.ofDigitChars 10 (chars.takeWhile Char.isDigit) 0, chars.dropWhile Char.isDigit)

/-- One of the three words. -/
def readStatus (chars : List Char) : Option (Status × List Char) :=
  match expect listeningText chars, expect sharingText chars, expect connectedText chars with
  | some rest, _, _ => some (.listening, rest)
  | _, some rest, _ => some (.sharing, rest)
  | _, _, some rest => some (.connected, rest)
  | none, none, none => none

/-- A text that `putText` wrote. -/
def readText (chars : List Char) : Option (Option String × List Char) :=
  match expect nullText chars with
  | some rest => some (none, rest)
  | none => do
      let rest ← expect ['"'] chars
      let (text, rest) ← unquote rest
      some (some (String.ofList text), rest)

/-- A number that `putNatOrNull` wrote. -/
def readNatOrNull (chars : List Char) : Option ℕ × List Char :=
  match expect nullText chars with
  | some rest => (none, rest)
  | none =>
      let (value, rest) := readNat chars
      (some value, rest)

/-- The fields of `putLive` one after another, up to the end of the text. -/
def readLive (chars : List Char) : Option LiveState := do
  let rest ← expect pidKey chars
  let (pid, rest) := readNat rest
  let rest ← expect statusKey rest
  let (status, rest) ← readStatus rest
  let rest ← expect portKey rest
  let (port, rest) := readNat rest
  let rest ← expect peerKey rest
  let (peer, rest) ← readText rest
  let rest ← expect clientKey rest
  let (client, rest) ← readText rest
  let rest ← expect sinceKey rest
  let (since, rest) := readNatOrNull rest
  let rest ← expect lockedUntilKey rest
  let (lockedUntil, rest) := readNatOrNull rest
  let rest ← expect lastErrorKey rest
  let (lastError, rest) ← readText rest
  let rest ← expect inputReadyKey rest
  let (inputReady, rest) ← readBool rest
  let rest ← expect closing rest
  if rest = [] then
    some
      { pid := UInt32.ofNat pid, status, port := UInt16.ofNat port, peer, client, since
        lockedUntil, lastError, inputReady }
  else none

/-! ## Round trips -/

/-- A number is written in digits only. -/
theorem isDigit_of_mem_putNat (value : ℕ) {c : Char} (hc : c ∈ putNat value) :
    c.isDigit = true := Nat.isDigit_of_mem_toDigits (by decide) (by decide) hc

/-- A number ends before the next field. -/
theorem readNat_putNat (value : ℕ) {rest : List Char} {first : Char}
    (hfirst : rest.head? = some first) (hdigit : first.isDigit = false) :
    readNat (putNat value ++ rest) = (value, rest) := by
  have hdigits : ∀ c ∈ putNat value, c.isDigit = true := fun c => isDigit_of_mem_putNat value
  have hnone : rest.takeWhile Char.isDigit = [] := by
    cases rest with
    | nil => rfl
    | cons other rest =>
        obtain rfl := Option.some.inj hfirst
        exact List.takeWhile_cons_of_neg (by simp [hdigit])
  have hall : rest.dropWhile Char.isDigit = rest := by
    have hsplit : rest.takeWhile Char.isDigit ++ rest.dropWhile Char.isDigit = rest :=
      List.takeWhile_append_dropWhile
    rwa [hnone, List.nil_append] at hsplit
  rw [readNat, List.takeWhile_append_of_pos hdigits, List.dropWhile_append_of_pos hdigits, hnone,
    hall, List.append_nil, putNat, Nat.ofDigitChars_toDigits (by decide) (by decide)]

/-- Each status is read back from its word. -/
theorem readStatus_putStatus (status : Status) (rest : List Char) :
    readStatus (putStatus status ++ rest) = some (status, rest) := by
  cases status with
  | listening => simp only [readStatus, putStatus, expect_append]
  | sharing =>
      have hother : expect listeningText (sharingText ++ rest) = none :=
        expect_of_other (by simp [listeningText, sharingText])
      simp only [readStatus, putStatus, hother, expect_append]
  | connected =>
      have hlistening : expect listeningText (connectedText ++ rest) = none :=
        expect_of_other (by simp [listeningText, connectedText])
      have hsharing : expect sharingText (connectedText ++ rest) = none :=
        expect_of_other (by simp [sharingText, connectedText])
      simp only [readStatus, putStatus, hlistening, hsharing, expect_append]

/-- A text or its absence is read back, whatever follows. -/
theorem readText_putText (text : Option String) (rest : List Char) :
    readText (putText text ++ rest) = some (text, rest) := by
  cases text with
  | none => simp only [readText, putText, expect_append]
  | some text =>
      have hother : expect nullText ('"' :: (quote text.toList ++ ('"' :: rest))) = none :=
        expect_of_other (by simp [nullText])
      have hquote : expect ['"'] ('"' :: (quote text.toList ++ ('"' :: rest))) =
          some (quote text.toList ++ '"' :: rest) :=
        expect_append ['"'] (quote text.toList ++ '"' :: rest)
      simp only [readText, putText, List.cons_append, List.append_assoc, List.nil_append, hother,
        hquote, Option.bind_eq_bind, Option.bind_some, unquote_quote, String.ofList_toList]

/-- A number or its absence is read back where no digit follows. -/
theorem readNatOrNull_putNatOrNull (value : Option ℕ) {rest : List Char} {first : Char}
    (hfirst : rest.head? = some first) (hdigit : first.isDigit = false) :
    readNatOrNull (putNatOrNull value ++ rest) = (value, rest) := by
  cases value with
  | none => simp only [readNatOrNull, putNatOrNull, expect_append]
  | some value =>
      have hother : expect nullText (putNat value ++ rest) = none := by
        refine expect_of_other fun hprefix => ?_
        cases hdigits : putNat value with
        | nil => exact Nat.toDigits_ne_nil hdigits
        | cons c digits =>
            rw [hdigits, nullText, List.cons_append, List.cons_prefix_cons] at hprefix
            have hmem : c ∈ putNat value := by
              rw [hdigits]
              exact List.mem_cons_self
            have hc := isDigit_of_mem_putNat value hmem
            rw [← hprefix.1] at hc
            exact absurd hc (by decide)
      simp only [readNatOrNull, putNatOrNull, hother, readNat_putNat value hfirst hdigit]

/-- A state is read back from what `putLive` writes. -/
theorem readLive_putLive (live : LiveState) : readLive (putLive live) = some live := by
  have hstatus : ∀ rest, (statusKey ++ rest).head? = some ',' := fun _ => rfl
  have hpeer : ∀ rest, (peerKey ++ rest).head? = some ',' := fun _ => rfl
  have hlocked : ∀ rest, (lockedUntilKey ++ rest).head? = some ',' := fun _ => rfl
  have herror : ∀ rest, (lastErrorKey ++ rest).head? = some ',' := fun _ => rfl
  have hclosing : expect closing closing = some [] := by
    have hread := expect_append closing []
    rwa [List.append_nil] at hread
  dsimp only [readLive, putLive, Option.bind_eq_bind]
  rw [expect_append, Option.bind_some, readNat_putNat _ (hstatus _) (by decide), expect_append,
    Option.bind_some, readStatus_putStatus, Option.bind_some, expect_append, Option.bind_some,
    readNat_putNat _ (hpeer _) (by decide), expect_append, Option.bind_some, readText_putText,
    Option.bind_some, expect_append, Option.bind_some, readText_putText, Option.bind_some,
    expect_append, Option.bind_some, readNatOrNull_putNatOrNull _ (hlocked _) (by decide),
    expect_append, Option.bind_some, readNatOrNull_putNatOrNull _ (herror _) (by decide),
    expect_append, Option.bind_some, readText_putText, Option.bind_some, expect_append,
    Option.bind_some, readBool_putBool, Option.bind_some, hclosing, Option.bind_some,
    if_pos rfl, UInt32.ofNat_toNat, UInt16.ofNat_toNat]

end PlainJson

/-- The state as plain JSON. -/
def plainLiveJson : LiveJson where
  toVecPretty live := utf8Bytes (String.ofList (PlainJson.putLive live))
  fromSlice bytes :=
    (String.fromUTF8? bytes.toByteArray).bind fun text => PlainJson.readLive text.toList
  reads := by
    intro live
    rw [fromUTF8?_utf8Bytes, Option.bind_some, String.toList_ofList, PlainJson.readLive_putLive]

end OmarchyConnect.Host
