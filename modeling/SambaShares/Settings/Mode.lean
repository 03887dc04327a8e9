import SambaShares.Settings.Basic
import SambaShares.Text.Blank
/-!
Permission bits as an octal number in text.
-/

namespace SambaShares

namespace FileMode

def digit? (c : Char) : Option Nat :=
  if '0' ≤ c ∧ c ≤ '7' then some (c.toNat - '0'.toNat) else none

/-- The value of octal digits after a number with the value `high`, if it fits into a word of 32
bits. -/
def valueFrom (high : UInt32) : Text → Option UInt32
  | [] => some high
  | c :: rest =>
    match digit? c with
    | some d =>
      if high.toNat * 8 + d < UInt32.size then valueFrom (high * 8 + UInt32.ofNat d) rest else none
    | none => none

/-- The value of one or more octal digits, however many. -/
def value? (digits : Text) : Option UInt32 :=
  if digits.isEmpty then none else valueFrom 0 digits

/-- The text after every `0o` at its start. -/
def dropMarks : Text → Text
  | '0' :: 'o' :: rest => dropMarks rest
  | text => text

/-- The text after one plus sign at its start. -/
def dropPlus : Text → Text
  | '+' :: rest => rest
  | text => text

/-- The number that a mode denotes: white space around it is ignored, `0o` may be repeated, and
one plus sign may stand before the digits. -/
def number? (mode : Text) : Option UInt32 := value? (dropPlus (dropMarks mode.trim))

end FileMode

/-- The permission bits of the configuration, which are twelve at most. -/
def StorageSettings.modeBits (settings : StorageSettings) : Except SettingsError Nat :=
  match FileMode.number? settings.fileMode with
  | some bits => if bits ≤ 0o7777 then .ok bits.toNat else .error (.invalidMode settings.fileMode)
  | none => .error (.invalidMode settings.fileMode)

end SambaShares
