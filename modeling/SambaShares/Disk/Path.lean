import SambaShares.Text.Basic
/-!
Paths as texts: their components, the name at their end, the directory they stand in, and how one
is put after another. Repeated slashes and `.` components do not count, except a `.` that begins
a relative path.
-/

namespace SambaShares.Path

/-- The components between the slashes, in order. -/
def components (path : Text) : List Text := (path.splitOn '/').filter (!·.isEmpty)

def isAbsolute (path : Text) : Bool := path.head? == some '/'

/-- Whether the path asks for a directory by a slash at its end. -/
def endsInSlash (path : Text) : Bool := path.getLast? == some '/'

/-- The components that count: those that are not `.`, but for one that begins a relative path. -/
def significant (path : Text) : List Text :=
  match components path with
  | [] => []
  | first :: rest =>
    (if first == ['.'] && isAbsolute path then [] else [first]) ++ rest.filter (· != ['.'])

/-- The name at the end of a path, if the path ends in one. -/
def fileName? (path : Text) : Option Text :=
  match (significant path).getLast? with
  | some name => if name == ['.'] || name == ['.', '.'] then none else some name
  | none => none

/-- The text without slashes and `.` components at its end. -/
def trimEnd (path : Text) : Text :=
  go path.reverse
where
  /-- Works on the reversed path. -/
  go : Text → Text
    | [] => []
    | ['/'] => ['/']
    | '/' :: rest => go rest
    | ['.', '/'] => ['/']
    | '.' :: '/' :: rest => go rest
    | rest => rest.reverse

/-- The directory that a path stands in; the root and the empty path stand in none. -/
def parent? (path : Text) : Option Text :=
  if (significant path).isEmpty then none
  else some (trimEnd ((trimEnd path).reverse.dropWhile (· != '/')).reverse)

/-- The path, the directory it stands in, and so on. -/
def ancestors (path : Text) : List Text :=
  path :: match _found : parent? path with
    | some up => if up.length < path.length then ancestors up else []
    | none => []
termination_by path.length

/-- The second path seen from the first. An absolute path is seen the same from anywhere. -/
def join (base path : Text) : Text :=
  if isAbsolute path then path
  else if base.isEmpty || endsInSlash base then base ++ path
  else base ++ '/' :: path

/-- The name of a temporary file: a number of six digits between what the name begins and ends with. -/
def temporaryName (start finish : Text) (number : Nat) : Text :=
  start ++ Text.padded 6 number ++ finish

end SambaShares.Path
