import SambaShares.Text.Basic
/-!
Why the operating system refuses a request.
-/

namespace SambaShares

/-- Why a file operation or the start of a program is refused. -/
inductive IoError
  | noEntry
  | noProgram
  | denied
  | busy
  | alreadyExists
  | notDirectory
  | isDirectory
  | noSpace
  | nameTooLong
  | nulInPath
  | nulInArgument
  | other (text : Text)
  deriving DecidableEq, Repr

/-- What an error says, with the number that the system gives it. -/
def IoError.message : IoError → Text
  | noEntry => "No such file or directory (os error 2)".toList
  | noProgram => "Exec format error (os error 8)".toList
  | denied => "Permission denied (os error 13)".toList
  | busy => "Device or resource busy (os error 16)".toList
  | alreadyExists => "File exists (os error 17)".toList
  | notDirectory => "Not a directory (os error 20)".toList
  | isDirectory => "Is a directory (os error 21)".toList
  | noSpace => "No space left on device (os error 28)".toList
  | nameTooLong => "File name too long (os error 36)".toList
  | nulInPath => "file name contained an unexpected NUL byte".toList
  | nulInArgument => "nul byte found in provided data".toList
  | other text => text

end SambaShares
