import SambaShares.Toml.Basic
/-!
Writing TOML strings, arrays and pairs. A string takes the plainest of the four forms that needs
no escape, and double quotes if none does.
-/

namespace SambaShares.Toml

/-- A character that no form of string holds unescaped, but for tab and line feed. -/
def isControl (c : Char) : Bool :=
  (c.toNat ≤ 0x1F && c != '\t' && c != '\n') || c.toNat == 0x7F

/-- The length of the longest run of a character, given the length of the run so far. -/
def longestRun (quote : Char) : Nat → Text → Nat
  | run, [] => run
  | run, c :: rest =>
    if c == quote then longestRun quote (run + 1) rest else max run (longestRun quote 0 rest)

inductive Form
  | basic
  | literal
  | longBasic
  | longLiteral
  deriving DecidableEq, Repr

def Form.of (text : Text) : Form :=
  let control := text.any isControl
  let backslash := text.contains '\\'
  let newline := text.contains '\n'
  let double := longestRun '"' 0 text
  let single := longestRun '\'' 0 text
  if !control && !backslash && !newline && double == 0 then .basic
  else if !control && !newline && single == 0 then .literal
  else if !control && !backslash && double ≤ 2 then .longBasic
  else if !control && single ≤ 2 then .longLiteral
  else if newline then .longBasic
  else .basic

def hexDigit (n : Nat) : Char :=
  if n < 10 then Char.ofNat ('0'.toNat + n) else Char.ofNat ('A'.toNat + (n - 10))

/-- A character of a string in double quotes, other than the double quote itself. -/
def escapeChar (long : Bool) (c : Char) : Text :=
  if c == '\x08' then ['\\', 'b']
  else if c == '\t' then ['\\', 't']
  else if c == '\n' then if long then ['\n'] else ['\\', 'n']
  else if c == '\x0c' then ['\\', 'f']
  else if c == '\r' then ['\\', 'r']
  else if c == '\\' then ['\\', '\\']
  else if isControl c then
    ['\\', 'u', '0', '0', hexDigit (c.toNat / 16), hexDigit (c.toNat % 16)]
  else [c]

/-- A text between double quotes: every double quote is escaped that would make a run longer than
`allowed`. -/
def escape (long : Bool) (allowed : Nat) : Nat → Text → Text
  | _, [] => []
  | run, c :: rest =>
    if c == '"' then
      if run < allowed then '"' :: escape long allowed (run + 1) rest
      else '\\' :: '"' :: escape long allowed 0 rest
    else escapeChar long c ++ escape long allowed 0 rest

/-- The line feed that opens a long string of more than one line. -/
def opening (text : Text) : Text := if text.contains '\n' then ['\n'] else []

def writeString (text : Text) : Text :=
  match Form.of text with
  | .basic => ['"'] ++ escape false 0 0 text ++ ['"']
  | .literal => ['\''] ++ text ++ ['\'']
  | .longBasic => ['"', '"', '"'] ++ opening text ++ escape true 2 0 text ++ ['"', '"', '"']
  | .longLiteral => ['\'', '\'', '\''] ++ opening text ++ text ++ ['\'', '\'', '\'']

/-- A list of strings: on one line if it holds one at most, else each on a line of its own. -/
def writeStrings : List Text → Text
  | [] => ['[', ']']
  | [only] => ['['] ++ writeString only ++ [']']
  | texts =>
    ['[', '\n'] ++ texts.flatMap (fun text => "    ".toList ++ writeString text ++ [',', '\n']) ++
      [']']

def writeBool (b : Bool) : Text := if b then "true".toList else "false".toList

/-- A pair on a line of its own. -/
def pairLine (key value : Text) : Text := key ++ " = ".toList ++ value ++ ['\n']

end SambaShares.Toml
