import SambaShares.Script
import SambaShares.Disk.Path
/-!
Small scripts on files that several parts of the library need.
-/

namespace SambaShares.Files

/-- Makes the first of these directories, given with those that it stands in from the innermost
outward, and before it those of them that are missing. -/
def makeAll : List Text → Script (Except IoError Unit)
  | [] => .done (.error .noEntry)
  | path :: above =>
    if path.isEmpty then .done (.ok ())
    else
      (Script.makeDirectory path).bind fun
        | .ok () => .done (.ok ())
        | .error .noEntry =>
          (makeAll above).andThen fun () => (Script.makeDirectory path).bind fun
            | .ok () => .done (.ok ())
            | .error cause => accept path cause
        | .error cause => accept path cause
where
  /-- That a directory could not be made does not matter if it is there. -/
  accept (path : Text) (cause : IoError) : Script (Except IoError Unit) :=
    (Script.isDirectory path).bind fun there =>
      .done (if there then .ok () else .error cause)

/-- Makes a directory with those that it stands in, as far as they are missing. -/
def makeDirectories (path : Text) : Script (Except IoError Unit) := makeAll (Path.ancestors path)

end SambaShares.Files
