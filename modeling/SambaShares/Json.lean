import SambaShares.Text.Basic
/-!
JSON values and their two written forms: one without any white space, and one with each item of an
array and each field of an object on a line of its own.
-/

namespace SambaShares

/-- A JSON value, as far as reports need them. The fields of an object keep their order. -/
inductive Json
  | text (value : Text)
  | number (value : Nat)
  | boolean (value : Bool)
  | array (items : List Json)
  | object (fields : List (Text × Json))

namespace Json

def digit (n : Nat) : Char :=
  if n < 10 then Char.ofNat ('0'.toNat + n) else Char.ofNat ('a'.toNat + (n - 10))

/-- A character within a string: quotes, backslashes and control characters are escaped, all else
stands as it is. -/
def escapeChar (c : Char) : Text :=
  match c with
  | '"' => ['\\', '"']
  | '\\' => ['\\', '\\']
  | '\n' => ['\\', 'n']
  | '\r' => ['\\', 'r']
  | '\t' => ['\\', 't']
  | '\x08' => ['\\', 'b']
  | '\x0c' => ['\\', 'f']
  | c =>
    if c.toNat < 0x20 then ['\\', 'u', '0', '0', digit (c.toNat / 16), digit (c.toNat % 16)]
    else [c]

def string (text : Text) : Text := '"' :: text.flatMap escapeChar ++ ['"']

def truth (b : Bool) : Text := if b then "true".toList else "false".toList

mutual

/-- The form without white space. -/
def compact : Json → Text
  | text value => string value
  | number value => Text.ofNat value
  | boolean value => truth value
  | array items => ['['] ++ [','].intercalate (compactItems items) ++ [']']
  | object fields => ['\x7b'] ++ [','].intercalate (compactFields fields) ++ ['\x7d']

def compactItems : List Json → List Text
  | [] => []
  | item :: rest => item.compact :: compactItems rest

def compactFields : List (Text × Json) → List Text
  | [] => []
  | (key, value) :: rest => (string key ++ [':'] ++ value.compact) :: compactFields rest

end

/-- Opens a line that is so many levels deep. -/
def lineStart (depth : Nat) : Text := '\n' :: List.replicate (2 * depth) ' '

/-- Parts on lines of their own, between two brackets; the brackets alone if there are none. -/
def enclose (depth : Nat) (first last : Char) (parts : List Text) : Text :=
  if parts.isEmpty then [first, last]
  else [first] ++ lineStart (depth + 1) ++ (',' :: lineStart (depth + 1)).intercalate parts ++
    lineStart depth ++ [last]

mutual

/-- The form for people, so many levels deep. -/
def indented (depth : Nat) : Json → Text
  | text value => string value
  | number value => Text.ofNat value
  | boolean value => truth value
  | array items => enclose depth '[' ']' (indentedItems (depth + 1) items)
  | object fields => enclose depth '\x7b' '\x7d' (indentedFields (depth + 1) fields)

def indentedItems (depth : Nat) : List Json → List Text
  | [] => []
  | item :: rest => item.indented depth :: indentedItems depth rest

def indentedFields (depth : Nat) : List (Text × Json) → List Text
  | [] => []
  | (key, value) :: rest =>
    (string key ++ ": ".toList ++ value.indented depth) :: indentedFields depth rest

end

/-- The form for people. -/
def pretty (value : Json) : Text := value.indented 0

example : (array []).pretty = "[]".toList := by decide
example : (array [text ['a'], number 7]).pretty = "[\n  \"a\",\n  7\n]".toList := by decide
example : (array [text ['\x1b', '"'], boolean true]).compact =
    "[\"\\u001b\\\"\",true]".toList := by decide

end Json

end SambaShares
