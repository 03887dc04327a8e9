import SambaShares.Toml.Basic
/-!
The four forms of a TOML string, read after their opening quotes. Each reader gives the text and
what follows the closing quotes.
-/

namespace SambaShares.Toml

def isSpace (c : Char) : Bool := c == ' ' || c == '\t'

/-- A character that may stand in a comment, and in every form of string but for what is special
there: no control character but the tab. -/
def isPlain (c : Char) : Bool := c == '\t' || (0x20 ≤ c.toNat && c.toNat != 0x7F)

def hexDigit? (c : Char) : Option Nat :=
  if '0' ≤ c ∧ c ≤ '9' then some (c.toNat - '0'.toNat)
  else if 'a' ≤ c ∧ c ≤ 'f' then some (c.toNat - 'a'.toNat + 10)
  else if 'A' ≤ c ∧ c ≤ 'F' then some (c.toNat - 'A'.toNat + 10)
  else none

def hexValue? (digits : Text) : Option Nat :=
  digits.foldl (fun high? c =>
    match high?, hexDigit? c with
    | some high, some digit => some (high * 16 + digit)
    | _, _ => none) (some 0)

def charOf? (n : Nat) : Option Char :=
  if n < 0xD800 ∨ (0xDFFF < n ∧ n < 0x110000) then some (Char.ofNat n) else none

/-- Puts a character in front of the text that was read. -/
def keep (c : Char) (read : Option (Text × Text)) : Option (Text × Text) :=
  read.map fun (text, rest) => (c :: text, rest)

/-- Puts the character with these hexadecimal digits in front of the text that was read. -/
def keepHex (digits : Text) (read : Option (Text × Text)) : Option (Text × Text) :=
  (hexValue? digits).bind fun n => (charOf? n).bind fun c => keep c read

/-- A string in double quotes. -/
def basic : Text → Option (Text × Text)
  | [] => none
  | '"' :: rest => some ([], rest)
  | '\\' :: 'b' :: rest => keep '\x08' (basic rest)
  | '\\' :: 't' :: rest => keep '\t' (basic rest)
  | '\\' :: 'n' :: rest => keep '\n' (basic rest)
  | '\\' :: 'f' :: rest => keep '\x0c' (basic rest)
  | '\\' :: 'r' :: rest => keep '\r' (basic rest)
  | '\\' :: '"' :: rest => keep '"' (basic rest)
  | '\\' :: '\\' :: rest => keep '\\' (basic rest)
  | '\\' :: 'u' :: a :: b :: c :: d :: rest => keepHex [a, b, c, d] (basic rest)
  | '\\' :: 'U' :: a :: b :: c :: d :: e :: f :: g :: h :: rest =>
    keepHex [a, b, c, d, e, f, g, h] (basic rest)
  | c :: rest => if c != '\\' && isPlain c then keep c (basic rest) else none

/-- A string in single quotes. -/
def literal : Text → Option (Text × Text)
  | [] => none
  | '\'' :: rest => some ([], rest)
  | c :: rest => if isPlain c then keep c (literal rest) else none

/-- Where a reader stands in a string in three double quotes. -/
inductive Gap
  | none
  /-- After a backslash at the end of a line; only blanks may follow on this line. -/
  | opening
  /-- In the white space after such a line, which is left out. -/
  | open
  deriving DecidableEq, Repr

/-- A string in three double quotes, over one or more lines. One or two more quotes at its end
belong to the text. -/
def longBasic : Gap → Text → Option (Text × Text)
  | _, [] => .none
  | gap, '\n' :: rest =>
    match gap with
    | .none => keep '\n' (longBasic .none rest)
    | _ => longBasic .open rest
  | gap, '\r' :: '\n' :: rest =>
    match gap with
    | .none => keep '\n' (longBasic .none rest)
    | _ => longBasic .open rest
  | gap, ' ' :: rest =>
    match gap with
    | .none => keep ' ' (longBasic .none rest)
    | gap => longBasic gap rest
  | gap, '\t' :: rest =>
    match gap with
    | .none => keep '\t' (longBasic .none rest)
    | gap => longBasic gap rest
  | .opening, _ => .none
  | _, '"' :: '"' :: '"' :: '"' :: '"' :: rest => some (['"', '"'], rest)
  | _, '"' :: '"' :: '"' :: '"' :: rest => some (['"'], rest)
  | _, '"' :: '"' :: '"' :: rest => some ([], rest)
  | _, '\\' :: ' ' :: rest => longBasic .opening rest
  | _, '\\' :: '\t' :: rest => longBasic .opening rest
  | _, '\\' :: '\n' :: rest => longBasic .open rest
  | _, '\\' :: '\r' :: '\n' :: rest => longBasic .open rest
  | _, '\\' :: 'b' :: rest => keep '\x08' (longBasic .none rest)
  | _, '\\' :: 't' :: rest => keep '\t' (longBasic .none rest)
  | _, '\\' :: 'n' :: rest => keep '\n' (longBasic .none rest)
  | _, '\\' :: 'f' :: rest => keep '\x0c' (longBasic .none rest)
  | _, '\\' :: 'r' :: rest => keep '\r' (longBasic .none rest)
  | _, '\\' :: '"' :: rest => keep '"' (longBasic .none rest)
  | _, '\\' :: '\\' :: rest => keep '\\' (longBasic .none rest)
  | _, '\\' :: 'u' :: a :: b :: c :: d :: rest => keepHex [a, b, c, d] (longBasic .none rest)
  | _, '\\' :: 'U' :: a :: b :: c :: d :: e :: f :: g :: h :: rest =>
    keepHex [a, b, c, d, e, f, g, h] (longBasic .none rest)
  | _, c :: rest => if c != '\\' && isPlain c then keep c (longBasic .none rest) else .none

/-- A string in three single quotes, over one or more lines. One or two more quotes at its end
belong to the text. -/
def longLiteral : Text → Option (Text × Text)
  | [] => none
  | '\'' :: '\'' :: '\'' :: '\'' :: '\'' :: rest => some (['\'', '\''], rest)
  | '\'' :: '\'' :: '\'' :: '\'' :: rest => some (['\''], rest)
  | '\'' :: '\'' :: '\'' :: rest => some ([], rest)
  | '\r' :: '\n' :: rest => keep '\n' (longLiteral rest)
  | c :: rest => if c == '\n' || isPlain c then keep c (longLiteral rest) else none

/-- The text after a line end at its start, which a long string leaves out. -/
def dropLineEnd : Text → Text
  | '\n' :: rest => rest
  | '\r' :: '\n' :: rest => rest
  | text => text

def string? : Text → Option (Text × Text)
  | '"' :: '"' :: '"' :: rest => longBasic .none (dropLineEnd rest)
  | '"' :: rest => basic rest
  | '\'' :: '\'' :: '\'' :: rest => longLiteral (dropLineEnd rest)
  | '\'' :: rest => literal rest
  | _ => none

end SambaShares.Toml
