import SambaShares.Text.Basic
import SambaShares.Text.Unprintable
/-!
The quoted form in which messages show a text. A reader of the message sees where the text
begins and ends, and each character that has no visible form of its own.
-/

namespace SambaShares.Text

/-- One character of the quoted form. -/
def quoteChar (c : Char) : Text :=
  match c with
  | '\x00' => ['\\', '0']
  | '\t' => ['\\', 't']
  | '\r' => ['\\', 'r']
  | '\n' => ['\\', 'n']
  | '"' => ['\\', '"']
  | '\\' => ['\\', '\\']
  | c =>
    if isUnprintable c then ['\\', 'u', '\x7b'] ++ Nat.toDigits 16 c.toNat ++ ['\x7d'] else [c]

/-- The text between double quotes, each of its characters in quoted form. -/
def quoted (text : Text) : Text := '"' :: text.flatMap quoteChar ++ ['"']

end SambaShares.Text
