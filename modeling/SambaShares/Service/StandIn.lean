import SambaShares.Machine
import SambaShares.Service.Control
/-!
Services that answer as they are told, for rehearsals without a real service: one that is a single
command with a given behaviour, and a control program with a list of replies.
-/

namespace SambaShares

/-- What a restart of the rehearsed service does. -/
inductive Behaviour
  | succeed
  | fail
  | hang
  deriving DecidableEq, Repr

/-- A service of units in given states, restarted by one command. -/
structure Rehearsal where
  behaviour : Behaviour := .succeed
  states : List (Text × UnitState) := [("nmbd".toList, .active), ("smbd".toList, .active)]

namespace Rehearsal

def restartCommand : Command := ["mock".toList, "restart".toList]

def queryCommand (unit : Text) : Command := ["mock".toList, "is-active".toList, unit]

def service (rehearsal : Rehearsal) : Service where
  restarts := [restartCommand]
  queries := rehearsal.states.map fun (unit, _) => (unit, queryCommand unit)

/-- How the commands of the rehearsed service go. They take no time. -/
def course (rehearsal : Rehearsal) (command : Command) : Course :=
  if command == restartCommand then
    match rehearsal.behaviour with
    | .succeed => .ends { status := .exited 0 } 0
    | .fail => .ends { status := .exited 1, errors := Utf8.encode "mock failure".toList } 0
    | .hang => .hangs { status := .exited 0 }
  else match rehearsal.states.find? fun (unit, _) => queryCommand unit == command with
    | some (_, state) => .ends { status := .exited 0, output := Utf8.encode state.answer } 0
    | none => .refused .noEntry

end Rehearsal

/-- A reply of the control program to an action on a unit. -/
structure Reply where
  action : Text
  unit : Text
  output : Bytes := []
  errors : Bytes := []
  /-- The signal by which the program ends itself. -/
  signal : Option Nat := none
  /-- The seconds after which the program ends. -/
  sleep : Option Nat := none
  exit : Nat := 0
  deriving DecidableEq, Repr

namespace Reply

/-- The time that every program takes, in nanoseconds. -/
def leastTime : Nat := 1000000

def course (reply : Reply) : Course :=
  let left (status : Status) : Finished :=
    { status, output := reply.output, errors := reply.errors }
  match reply.signal, reply.sleep with
  | some signal, _ => .ends (left (.killed signal)) leastTime
  | none, some seconds => .ends (left (.exited 0)) (seconds * 1000000000 + leastTime)
  | none, none => .ends (left (.exited reply.exit)) leastTime

end Reply

/-- A control program with its replies, and the path of a second program, `sudo`, that runs the
command it is given. -/
structure ControlProgram where
  path : Text
  sudoPath : Text
  replies : List Reply

namespace ControlProgram

/-- How the program goes with some arguments: the first reply to the action and the unit counts, and
without one it ends well and silently. -/
def answer (program : ControlProgram) : List Text → Course
  | action :: unit :: _ =>
    match program.replies.find? fun reply => reply.action == action && reply.unit == unit with
    | some reply => reply.course
    | none => .ends { status := .exited 0 } Reply.leastTime
  | _ => .ends { status := .exited 0 } Reply.leastTime

/-- Whether a program is named by a path that leads to the place of another path. -/
def leadsTo (disk : Disk) (path name : Text) : Bool :=
  name.contains '/' && (disk.find name).isOk &&
    (disk.locate name).toOption == (disk.locate path).toOption

/-- Whether a name stands for `sudo`, which needs no path. -/
def isSudo (program : ControlProgram) (disk : Disk) (name : Text) : Bool :=
  name == "sudo".toList || leadsTo disk program.sudoPath name

/-- How a program goes that every machine has, by its name. -/
def common? (name : Text) (arguments : List Text) : Option Course :=
  if name == "true".toList then some (.ends { status := .exited 0 } Reply.leastTime)
  else if name == "false".toList then some (.ends { status := .exited 1 } Reply.leastTime)
  else if name == "echo".toList then
    let line := Utf8.encode (commandLine arguments ++ ['\n'])
    some (.ends { status := .exited 0, output := line } Reply.leastTime)
  else none

/-- How a program goes that is named by a path, on a disk. -/
def atPath (program : ControlProgram) (disk : Disk) (path : Text) (arguments : List Text) :
    Course :=
  match disk.find path with
  | .error cause => .refused cause
  | .ok .directory => .refused .denied
  | .ok (.file _ mode) =>
    if mode &&& 0o111 = 0 then .refused .denied
    else if leadsTo disk program.path path then program.answer arguments
    else (common? ((Path.fileName? path).getD []) arguments).getD (.refused .noProgram)

def byName (name : Text) (arguments : List Text) : Course :=
  (common? name arguments).getD
    (.refused (if Disk.longestName < Utf8.size name then .nameTooLong else .noEntry))

/-- What another program sees that runs a command which cannot be started. -/
def notRun (name : Text) (cause : IoError) : Course :=
  let code := if cause = .denied then 126 else 127
  .ends { status := .exited code, errors := Utf8.encode (name ++ ": ".toList ++ cause.message) }
    Reply.leastTime

def course (program : ControlProgram) (disk : Disk) : Command → Course
  | [] => .refused .noEntry
  | name :: arguments =>
    if (name :: arguments).any (·.contains '\x00') then .refused .nulInArgument
    else if program.isSudo disk name then
      match course program disk arguments with
      | .refused cause => notRun (arguments.headD []) cause
      | course => course
    else if name.contains '/' then program.atPath disk name arguments
    else byName name arguments

/-- What the two programs log of a command: `sudo` its name and no more, the control program its
arguments as a line. -/
def logged (program : ControlProgram) (disk : Disk) : Command → Text
  | [] => []
  | name :: arguments =>
    if program.isSudo disk name then "sudo ".toList ++ logged program disk arguments
    else if leadsTo disk program.path name && (program.atPath disk name arguments).starts then
      commandLine arguments ++ ['\n']
    else []

end ControlProgram

end SambaShares
