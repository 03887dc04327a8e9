import SambaShares.Text.Blank
import SambaShares.Text.Case
/-!
What one line of a share configuration says: it opens a section, gives a setting, or is free
text. Reading a line never fails; a line that is nothing else is free text.
-/

namespace SambaShares

namespace Text

/-- The section name in a `[name]` header line. White space around the brackets is allowed; the
name is not empty and holds no bracket. -/
def header? (line : Text) : Option Text :=
  match line.trim with
  | '[' :: rest =>
    let name := rest.dropLast
    if rest.getLast? = some ']' && !name.isEmpty && !name.contains '[' && !name.contains ']' then
      some name
    else none
  | _ => none

/-- The key and the value of a `key = value` line, without the white space around them. A line
whose first visible character is `#` or `;` is a comment, whatever follows. -/
def directive? (line : Text) : Option (Text × Text) :=
  let content := line.trim
  match content with
  | '#' :: _ => none
  | ';' :: _ => none
  | _ =>
    match content.dropWhile (· != '=') with
    | [] => none
    | _ :: value =>
      let key := Text.trim (content.takeWhile (· != '='))
      if key.isEmpty then none else some (key, Text.trim value)

/-- Whether a value switches a setting on: `yes`, `true` or `1` in any case. -/
def isOn (value : Text) : Bool :=
  ["yes".toList, "true".toList, "1".toList].any (sameName · value.trim)

end Text

/-- The sections with a meaning of their own, which are never shares. -/
def reservedNames : List Text :=
  ["global".toList, "homes".toList, "printers".toList, "print$".toList]

/-- Whether a section of this name has a meaning of its own. -/
def isReserved (name : Text) : Bool := reservedNames.any (Text.sameName · name)

end SambaShares
