import SambaShares.Script
import SambaShares.Service.State
import SambaShares.Settings.Basic
/-!
Restarting the service and asking for its state, by one program call for each unit. A restart
stops at the first call that fails and is bounded in time as a whole; a question about one unit
does not depend on the others.
-/

namespace SambaShares

def commandLine (command : Command) : Text := [' '].intercalate command

/-- The name of a signal, as far as it has one. -/
def signalName : Nat → Text
  | 1 => " (SIGHUP)".toList
  | 2 => " (SIGINT)".toList
  | 3 => " (SIGQUIT)".toList
  | 4 => " (SIGILL)".toList
  | 5 => " (SIGTRAP)".toList
  | 6 => " (SIGABRT)".toList
  | 7 => " (SIGBUS)".toList
  | 8 => " (SIGFPE)".toList
  | 9 => " (SIGKILL)".toList
  | 10 => " (SIGUSR1)".toList
  | 11 => " (SIGSEGV)".toList
  | 12 => " (SIGUSR2)".toList
  | 13 => " (SIGPIPE)".toList
  | 14 => " (SIGALRM)".toList
  | 15 => " (SIGTERM)".toList
  | 16 => " (SIGSTKFLT)".toList
  | 24 => " (SIGXCPU)".toList
  | 25 => " (SIGXFSZ)".toList
  | 26 => " (SIGVTALRM)".toList
  | 27 => " (SIGPROF)".toList
  | 29 => " (SIGIO)".toList
  | 30 => " (SIGPWR)".toList
  | 31 => " (SIGSYS)".toList
  | _ => []

def Status.text : Status → Text
  | .exited code => "exit status: ".toList ++ Text.ofNat code
  | .killed signal => "signal: ".toList ++ Text.ofNat signal ++ signalName signal

/-- Why a restart did not succeed. -/
inductive RestartError
  | notStarted (command : Command) (cause : IoError)
  | failed (command : Command) (result : Finished)
  | timedOut (limit : Duration)
  deriving DecidableEq, Repr

def RestartError.message : RestartError → Text
  | notStarted command cause =>
    "failed to run `".toList ++ commandLine command ++ "`: ".toList ++ cause.message
  | failed command result =>
    "`".toList ++ commandLine command ++ "` failed (".toList ++ result.status.text ++
      "): ".toList ++ Text.trim (Utf8.decodeLossy result.errors)
  | timedOut limit => "service restart did not finish within ".toList ++ limit.text

/-- A service: the commands that restart it, and one command for each unit that asks for its
state. -/
structure Service where
  restarts : List Command
  queries : List (Text × Command)

namespace Service

def systemctl (settings : ServiceSettings) (action unit : Text) : Command :=
  (if settings.useSudo then ["sudo".toList] else []) ++ [settings.systemctlPath, action, unit]

def ofSettings (settings : ServiceSettings) : Service where
  restarts := settings.units.map (systemctl settings "restart".toList)
  queries := settings.units.map fun unit => (unit, systemctl settings "is-active".toList unit)

/-- Runs commands one after the other, for as long as there is time and none fails. `limit` is the
time that was given for all, `left` what is left of it; without `left` there is no bound. -/
def runAll (limit : Duration) (left : Option Nat) :
    List Command → Script (Except RestartError Unit)
  | [] => .done (.ok ())
  | command :: rest =>
    (Script.start command left).bind fun
      | .refused cause => .done (.error (.notStarted command cause))
      | .abandoned => .done (.error (.timedOut limit))
      | .finished result took =>
        if result.status.success then runAll limit (left.map (· - took)) rest
        else .done (.error (.failed command result))

/-- Restarts the service and waits for its end, however long it takes. -/
def restart (service : Service) : Script (Except RestartError Unit) :=
  runAll ⟨0⟩ none service.restarts

def restartWithin (service : Service) (limit : Duration) : Script (Except RestartError Unit) :=
  runAll limit (some limit.nanos) service.restarts

/-- The state that the end of a query tells. -/
def stateOf : Ended → UnitState
  | .finished result _ => .ofAnswer (Utf8.decodeLossy result.output)
  | .refused _ => .error
  | .abandoned => .error

/-- Puts the state of a unit into a list sorted by unit, in the place of an older one. -/
def insertState (unit : Text) (state : UnitState) :
    List (Text × UnitState) → List (Text × UnitState)
  | [] => [(unit, state)]
  | (other, old) :: rest =>
    if other == unit then (unit, state) :: rest
    else if Text.lessEq unit other then (unit, state) :: (other, old) :: rest
    else (other, old) :: insertState unit state rest

def askAll (known : List (Text × UnitState)) :
    List (Text × Command) → Script (List (Text × UnitState))
  | [] => .done known
  | (unit, command) :: rest =>
    (Script.start command none).bind fun ended =>
      askAll (insertState unit (stateOf ended) known) rest

/-- The state of each unit, sorted by unit. A unit that is asked for twice has its last state. -/
def status (service : Service) : Script (List (Text × UnitState)) := askAll [] service.queries

end Service

end SambaShares
