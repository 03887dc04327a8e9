import SambaShares.Share.Error
/-!
The checks on a request that need neither the file nor the disk.
-/

namespace SambaShares

/-- The characters that no share name may hold. -/
def forbiddenInNames : List Char := ['/', '\\', ':', '*', '?', '"', '<', '>', '|', '[', ']']

/-- Checks a share name: not empty, no white space, no forbidden character. -/
def checkName (name : Text) : Except ShareError Unit :=
  if name.isEmpty then .error (.invalidName name .empty)
  else if name.any isBlank then .error (.invalidName name .blank)
  else if name.any forbiddenInNames.contains then .error (.invalidName name .forbidden)
  else .ok ()

/-- A character that would end the line it is written in. -/
def breaksLine (c : Char) : Bool := c == '\n' || c == '\r'

namespace ShareSpec

/-- Checks that path, comment and users fit into one line each: the first of them that does not
is the error. -/
def checkFields (spec : ShareSpec) : Except ShareError Unit :=
  if spec.path.any breaksLine then .error (.brokenPath spec.path)
  else if spec.comment.any breaksLine then .error (.brokenComment spec.comment)
  else match (spec.validUsers.map Text.trim).find? (·.any isBlank) with
    | some user => .error (.blankInUser user)
    | none => .ok ()

end ShareSpec

end SambaShares
