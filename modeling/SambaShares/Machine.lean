import SambaShares.Script
import SambaShares.Disk.Basic
/-!
A model of the machine that scripts run on: a disk, a clock that may show anything, programs that
may end in any way, and changes that may be refused for want of space or of rights. `Script.run` is the
meaning of a script, `Script.after` what is left when it is cut off, and `Script.states` all the machine
goes through.

The process that asks may read everything. It is not the administrator: a change may be refused to it,
and what it writes to loses the permission to run as somebody else.
-/

namespace SambaShares

inductive Course
  | refused (cause : IoError)
  /-- It ends after so many nanoseconds. -/
  | ends (result : Finished) (after : Nat)
  /-- It never ends by itself, and would show this if it did. -/
  | hangs (result : Finished)
  deriving DecidableEq, Repr

/-- What is known of a program that is waited for no longer than `patience`. -/
def Course.within (patience : Option Nat) : Course → Ended
  | .refused cause => .refused cause
  | .ends result after =>
    match patience with
    | some limit => if after ≤ limit then .finished result after else .abandoned
    | none => .finished result after
  | .hangs result =>
    match patience with
    | some _ => .abandoned
    | none => .finished result 0

def Course.starts : Course → Bool
  | .refused _ => false
  | _ => true

/-- Why a change that the disk allows is refused. -/
inductive Want
  /-- Space beyond so many bytes. -/
  | space (room : Nat)
  | rights
  deriving DecidableEq, Repr

def Want.error : Want → IoError
  | space _ => .noSpace
  | rights => .denied

/-- What is left on a disk of a change that is refused for want of something: of a text, as much as
there is space for. -/
def Disk.leftOf (disk : Disk) : Effect → Want → Disk
  | .write path content, .space room => (disk.write path (content.take room)).toOption.getD disk
  | _, _ => disk

structure Machine where
  disk : Disk := {}
  /-- What the clock shows at each reading. -/
  clock : Nat → Nat := id
  readings : Nat := 0
  /-- How a program goes, by the number of programs started before it. -/
  course : Nat → Command → Course := fun _ _ => .refused .noEntry
  started : List Command := []
  /-- What is wanting for a change, by the number of changes that the disk allowed before it. -/
  want : Nat → Effect → Option Want := fun _ _ => none
  changes : Nat := 0

namespace Machine

/-- What is wanting for the next change. For the removal of a file it is nothing: that takes no space,
and is asked for where files could be made. -/
def wanting? (machine : Machine) : Effect → Option Want
  | .remove _ => none
  | effect => machine.want machine.changes effect

/-- What comes of a change, given what the disk makes of it. -/
def changed {α : Type} (machine : Machine) (effect : Effect) :
    Except IoError (Disk × α) → Machine × Except IoError α
  | .error cause => (machine, .error cause)
  | .ok (disk, answer) =>
    let next := { machine with changes := machine.changes + 1 }
    match machine.wanting? effect with
    | none => ({ next with disk }, .ok answer)
    | some want => ({ next with disk := machine.disk.leftOf effect want }, .error want.error)

def perform (machine : Machine) : (effect : Effect) → Machine × effect.Answer
  | .read path => (machine, machine.disk.read path)
  | .list path => (machine, machine.disk.list path)
  | .probe path => (machine, machine.disk.contains path)
  | .isFile path => (machine, machine.disk.isFile path)
  | .isDirectory path => (machine, machine.disk.isDirectory path)
  | .makeDirectory path =>
    machine.changed (.makeDirectory path) ((machine.disk.makeDirectory path).map (·, ()))
  | .createFresh directory start finish =>
    machine.changed (.createFresh directory start finish)
      (machine.disk.createFresh directory start finish)
  | .write path content =>
    machine.changed (.write path content) ((machine.disk.write path content).map (·, ()))
  | .setMode path mode =>
    machine.changed (.setMode path mode) ((machine.disk.setMode path mode).map (·, ()))
  | .rename keep source target =>
    machine.changed (.rename keep source target)
      ((machine.disk.rename keep source target).map (·, ()))
  | .remove path => machine.changed (.remove path) ((machine.disk.remove path).map (·, ()))
  | .clock => ({ machine with readings := machine.readings + 1 }, machine.clock machine.readings)
  | .start command patience =>
    let course := machine.course machine.started.length command
    let started := if course.starts then machine.started ++ [command] else machine.started
    ({ machine with started }, course.within patience)

end Machine

namespace Script

variable {α β : Type}

/-- The machine after the script, and the script's result. -/
def run : Script α → Machine → Machine × α
  | .done result, machine => (machine, result)
  | .ask effect next, machine =>
    (next (machine.perform effect).2).run (machine.perform effect).1

/-- The machine after no more than so many requests of the script. -/
def after : Nat → Script α → Machine → Machine
  | 0, _, machine => machine
  | _ + 1, .done _, machine => machine
  | count + 1, .ask effect next, machine =>
    after count (next (machine.perform effect).2) (machine.perform effect).1

/-- The states that the machine goes through, the first and the last included. -/
def states : Script α → Machine → List Machine
  | .done _, machine => [machine]
  | .ask effect next, machine =>
    machine :: (next (machine.perform effect).2).states (machine.perform effect).1

@[simp] theorem run_done (result : α) (machine : Machine) :
    (Script.done result).run machine = (machine, result) := rfl

@[simp] theorem run_bind (script : Script α) (next : α → Script β) (machine : Machine) :
    (script.bind next).run machine =
      (next (script.run machine).2).run (script.run machine).1 := by
  induction script generalizing machine with
  | done => rfl
  | ask effect rest ih => simp only [bind, run, ih]

/-- What is left of a script that is cut off is one of the states it goes through. -/
theorem after_mem_states (count : Nat) (script : Script α) (machine : Machine) :
    script.after count machine ∈ script.states machine := by
  induction count generalizing script machine with
  | zero => cases script <;> simp [after, states]
  | succ count ih =>
    cases script with
    | done => simp [after, states]
    | ask effect next => simp only [after, states]; exact List.mem_cons_of_mem _ (ih _ _)

end Script

end SambaShares
