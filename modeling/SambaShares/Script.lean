import SambaShares.Disk.Error
import SambaShares.Text.Utf8
/-!
Programs as data: a script is a result, or a request to the machine with what is done after each
answer. The same script is carried out on the real machine, run on a model of it, or cut off
after any number of requests.
-/

namespace SambaShares

/-- A program to start, with its arguments. -/
abbrev Command := List Text

inductive Status
  | exited (code : Nat)
  | killed (signal : Nat)
  deriving DecidableEq, Repr

def Status.success : Status → Bool
  | .exited 0 => true
  | _ => false

structure Finished where
  status : Status
  output : Bytes := []
  errors : Bytes := []
  deriving DecidableEq, Repr

/-- What is known of a program that was to be started. -/
inductive Ended
  | refused (cause : IoError)
  /-- It ended after some time, given in nanoseconds. -/
  | finished (result : Finished) (took : Nat)
  /-- It had not ended in the time given, and was ended then. -/
  | abandoned
  deriving DecidableEq, Repr

inductive Effect
  | read (path : Text)
  | list (path : Text)
  | probe (path : Text)
  | isFile (path : Text)
  | isDirectory (path : Text)
  /-- A new directory in one that exists. -/
  | makeDirectory (path : Text)
  /-- An empty file in a directory, with a new name that begins and ends as given. -/
  | createFresh (directory start finish : Text)
  | write (path : Text) (content : Bytes)
  | setMode (path : Text) (mode : Nat)
  /-- Another name for a file; no other file loses its name if `keep` is set. -/
  | rename (keep : Bool) (source target : Text)
  | remove (path : Text)
  /-- The local time in microseconds. -/
  | clock
  /-- The end of a program, waited for no longer than so many nanoseconds, if a time is given. -/
  | start (command : Command) (patience : Option Nat)
  deriving DecidableEq, Repr

def Effect.Answer : Effect → Type
  | read _ => Except IoError Bytes
  | list _ => Except IoError (List Text)
  | probe _ => Bool
  | isFile _ => Bool
  | isDirectory _ => Bool
  | makeDirectory _ => Except IoError Unit
  | createFresh .. => Except IoError Text
  | write .. => Except IoError Unit
  | setMode .. => Except IoError Unit
  | rename .. => Except IoError Unit
  | remove _ => Except IoError Unit
  | clock => Nat
  | start .. => Ended

/-- A program over the requests. -/
inductive Script (α : Type)
  | done (result : α)
  | ask (effect : Effect) (next : effect.Answer → Script α)

namespace Script

def request (effect : Effect) : Script effect.Answer := .ask effect .done

/-- One script and then another that depends on its result. -/
def bind {α β : Type} : Script α → (α → Script β) → Script β
  | .done result, next => next result
  | .ask effect rest, next => .ask effect fun answer => (rest answer).bind next

instance : Monad Script where
  pure := .done
  bind := .bind

theorem bind_done {α : Type} (script : Script α) : script.bind .done = script := by
  induction script with
  | done => rfl
  | ask effect rest ih => simp only [bind, ih]

theorem bind_assoc {α β γ : Type} (script : Script α) (first : α → Script β)
    (second : β → Script γ) :
    (script.bind first).bind second = script.bind fun a => (first a).bind second := by
  induction script with
  | done => rfl
  | ask effect rest ih => simp only [bind, ih]

def read (path : Text) : Script (Except IoError Bytes) := request (.read path)

def list (path : Text) : Script (Except IoError (List Text)) := request (.list path)

def probe (path : Text) : Script Bool := request (.probe path)

def isFile (path : Text) : Script Bool := request (.isFile path)

def isDirectory (path : Text) : Script Bool := request (.isDirectory path)

def makeDirectory (path : Text) : Script (Except IoError Unit) := request (.makeDirectory path)

def createFresh (directory start finish : Text) : Script (Except IoError Text) :=
  request (.createFresh directory start finish)

def write (path : Text) (content : Bytes) : Script (Except IoError Unit) :=
  request (.write path content)

def setMode (path : Text) (mode : Nat) : Script (Except IoError Unit) :=
  request (.setMode path mode)

def rename (keep : Bool) (source target : Text) : Script (Except IoError Unit) :=
  request (.rename keep source target)

def remove (path : Text) : Script (Except IoError Unit) := request (.remove path)

def clock : Script Nat := request .clock

def start (command : Command) (patience : Option Nat) : Script Ended :=
  request (.start command patience)

/-- Goes on with a result, and stops at an error. -/
def andThen {ε α β : Type} (script : Script (Except ε α)) (next : α → Script (Except ε β)) :
    Script (Except ε β) :=
  script.bind fun
    | .ok result => next result
    | .error e => .done (.error e)

end Script

end SambaShares
