import SambaShares.Invocation.Run
/-!
The program. Each request of its script is carried out on the machine it runs on. Other programs
are never started from here: a service has to be restarted by hand, and its state is not known.
-/

namespace SambaShares

/-- The number of an error. Some calls give it with its sign turned. -/
def systemNumber (code : UInt32) : Nat := min code.toNat (-code).toNat

/-- The cause of a refusal. -/
def IoError.ofSystem (e : IO.Error) : IoError :=
  let unknown : IoError := .other (toString e).toList
  match e with
  | .noFileOrDirectory .. => .noEntry
  | .permissionDenied .. => .denied
  | .resourceBusy .. => .busy
  | .alreadyExists .. => .alreadyExists
  | .inappropriateType _ code _ =>
    if systemNumber code = 20 then .notDirectory
    else if systemNumber code = 21 then .isDirectory else unknown
  | .resourceExhausted _ code _ => if systemNumber code = 28 then .noSpace else unknown
  | .invalidArgument _ code _ => if systemNumber code = 36 then .nameTooLong else unknown
  | _ => unknown

/-- The result of a file operation, or the cause of its refusal. -/
def attempt {α : Type} (action : IO α) : IO (Except IoError α) := do
  match ← action.toBaseIO with
  | .ok result => return .ok result
  | .error e => return .error (.ofSystem e)

/-- A path as the system takes it. -/
def systemPath (path : Text) : String := String.ofList path

def systemDirectory (path : Text) : IO.FS.DirEntry := ⟨systemPath path, ""⟩

def systemKind? (path : Text) : IO (Option IO.FS.FileType) := do
  match ← (systemDirectory path).root.metadata.toBaseIO with
  | .ok metadata => return some metadata.type
  | .error _ => return none

/-- The time that a file made just now has, in microseconds. -/
def systemClock : IO Nat := do
  let (handle, file) ← IO.FS.createTempFile
  handle.putStr "now"
  handle.flush
  let metadata ← file.metadata
  IO.FS.removeFile file
  return (metadata.modified.sec * 1000000).toNat + metadata.modified.nsec.toNat / 1000

/-- Makes a file with a name that is free. -/
def systemFresh (directory start finish : Text) : Nat → IO Text
  | 0 => throw (.otherError 17 "no free name for a file")
  | attempts + 1 => do
    let number ← IO.rand 0 999999
    let path := Path.join (if directory.isEmpty then ['.'] else directory)
      (Path.temporaryName start finish number)
    match ← (IO.FS.Handle.mk (systemPath path) .writeNew).toBaseIO with
    | .ok _ => return path
    | .error (.alreadyExists ..) => systemFresh directory start finish attempts
    | .error e => throw e

/-- Carries out a request. A name that is to be free is taken by an empty file first, which no
other program can do at the same time. -/
def carryOut : (effect : Effect) → IO effect.Answer
  | .read path => attempt do return (← IO.FS.readBinFile (systemPath path)).toList
  | .list path => attempt do
    let entries ← (systemDirectory path).root.readDir
    return entries.toList.map fun entry => entry.fileName.toList
  | .probe path => return (← systemKind? path).isSome
  | .isFile path => return (← systemKind? path) == some .file
  | .isDirectory path => return (← systemKind? path) == some .dir
  | .makeDirectory path => attempt (IO.FS.createDir (systemPath path))
  | .createFresh directory start finish => attempt (systemFresh directory start finish 64)
  | .write path content => attempt (IO.FS.writeBinFile (systemPath path) ⟨content.toArray⟩)
  | .setMode path mode => attempt (IO.Prim.setAccessRights (systemPath path) mode.toUInt32)
  | .rename keep source target => attempt do
    if keep then let _ ← IO.FS.Handle.mk (systemPath target) .writeNew
    IO.FS.rename (systemPath source) (systemPath target)
  | .remove path => attempt (IO.FS.removeFile (systemPath path))
  | .clock => systemClock
  | .start _ _ => return .refused (.other "programs are not started from here".toList)

def Script.carryOut {α : Type} : Script α → IO α
  | .done result => return result
  | .ask effect next => do (next (← SambaShares.carryOut effect)).carryOut

def environmentText? (name : String) : IO (Option Text) := do
  return (← IO.getEnv name).map String.toList

def runProgram (arguments : List String) : IO UInt32 := do
  let environment : Environment := {
    config := ← environmentText? "SMBSHARE_CONFIG"
    conf := ← environmentText? "SMBSHARE_CONF"
    home := { xdg := ← environmentText? "XDG_CONFIG_HOME", home := ← environmentText? "HOME" } }
  let output ← (Invocation.program environment (arguments.map String.toList)).carryOut
  (← IO.getStdout).putStr (String.ofList output.output)
  (← IO.getStderr).putStr (String.ofList output.errors)
  return output.status.toUInt32

end SambaShares

def main (arguments : List String) : IO UInt32 := SambaShares.runProgram arguments
