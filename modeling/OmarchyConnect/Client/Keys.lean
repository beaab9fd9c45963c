/-
# The keys of the toolkit

The toolkit names a key by what is printed on it, the host takes the codes of
`input-event-codes.h`. `evdev_code` maps the one to the other; two keys with one code lie
on the same place of a keyboard. Modifiers are no keys of the toolkit.
-/

import Mathlib.Data.List.Basic

namespace OmarchyConnect.Client

/-- `egui::Key`; the keys that have no code are together. -/
inductive Key
  | escape | tab | backspace | enter | space | insert | delete | home | end_ | pageUp | pageDown
  | arrowUp | arrowDown | arrowLeft | arrowRight | minus | equals | plus | openBracket
  | openCurlyBracket | closeBracket | closeCurlyBracket | backslash | pipe | semicolon | colon
  | quote | backtick | comma | period | slash | questionmark | exclamationmark | num0 | num1
  | num2 | num3 | num4 | num5 | num6 | num7 | num8 | num9 | a | b | c | d | e | f | g | h | i | j
  | k | l | m | n | o | p | q | r | s | t | u | v | w | x | y | z | f1 | f2 | f3 | f4 | f5 | f6
  | f7 | f8 | f9 | f10 | f11 | f12
  | other (name : ℕ)
  deriving DecidableEq

/-- The codes of the modifiers. -/
def keyLeftCtrl : UInt16 := 29
def keyLeftShift : UInt16 := 42
def keyLeftAlt : UInt16 := 56

/-- `evdev_code`. -/
def evdevCode : Key → Option UInt16
  | .escape => some 1
  | .tab => some 15
  | .backspace => some 14
  | .enter => some 28
  | .space => some 57
  | .insert => some 110
  | .delete => some 111
  | .home => some 102
  | .end_ => some 107
  | .pageUp => some 104
  | .pageDown => some 109
  | .arrowUp => some 103
  | .arrowDown => some 108
  | .arrowLeft => some 105
  | .arrowRight => some 106
  | .minus => some 12
  | .equals | .plus => some 13
  | .openBracket | .openCurlyBracket => some 26
  | .closeBracket | .closeCurlyBracket => some 27
  | .backslash | .pipe => some 43
  | .semicolon | .colon => some 39
  | .quote => some 40
  | .backtick => some 41
  | .comma => some 51
  | .period => some 52
  | .slash | .questionmark => some 53
  | .exclamationmark => some 2
  | .num0 => some 11
  | .num1 => some 2
  | .num2 => some 3
  | .num3 => some 4
  | .num4 => some 5
  | .num5 => some 6
  | .num6 => some 7
  | .num7 => some 8
  | .num8 => some 9
  | .num9 => some 10
  | .a => some 30
  | .b => some 48
  | .c => some 46
  | .d => some 32
  | .e => some 18
  | .f => some 33
  | .g => some 34
  | .h => some 35
  | .i => some 23
  | .j => some 36
  | .k => some 37
  | .l => some 38
  | .m => some 50
  | .n => some 49
  | .o => some 24
  | .p => some 25
  | .q => some 16
  | .r => some 19
  | .s => some 31
  | .t => some 20
  | .u => some 22
  | .v => some 47
  | .w => some 17
  | .x => some 45
  | .y => some 21
  | .z => some 44
  | .f1 => some 59
  | .f2 => some 60
  | .f3 => some 61
  | .f4 => some 62
  | .f5 => some 63
  | .f6 => some 64
  | .f7 => some 65
  | .f8 => some 66
  | .f9 => some 67
  | .f10 => some 68
  | .f11 => some 87
  | .f12 => some 88
  | .other _ => none

/-- The codes that are sent for the state of the modifiers. -/
def IsModifier (code : UInt16) : Prop :=
  code = keyLeftShift ∨ code = keyLeftCtrl ∨ code = keyLeftAlt

instance decidableIsModifier (code : UInt16) : Decidable (IsModifier code) :=
  inferInstanceAs (Decidable (_ ∨ _))

/-- No key has the code of a modifier. -/
theorem not_isModifier_of_evdevCode {key : Key} {code : UInt16} (h : evdevCode key = some code) :
    ¬ IsModifier code := by
  cases key <;> cases h <;> decide

end OmarchyConnect.Client
