import Mathlib.Logic.Function.Basic
import SambaShares.Machine
import SambaShares.Manager
/-!
Calls to one manager that meet. A call that changes shares waits for the lock, keeps it until it ends,
in whatever way, and then gives it up; a call that lists the shares does not wait. Between any two
requests that one call makes to the machine, others may make theirs.
-/

namespace SambaShares

/-- How far a call has come. -/
inductive Progress (α : Type)
  | waiting
  | working (rest : Script α)
  | ended (result : α)

/-- A call that changes shares. -/
abbrev Changing := Progress (Except ChangeError Text)

/-- A call that lists the shares. -/
abbrev Listing := Progress (Except ChangeError (List Share))

/-- Calls that change shares and calls that list them, on one machine. -/
structure Meeting (Changer Lister : Type) where
  machine : Machine
  /-- Who holds the lock. -/
  holder : Option Changer := none
  /-- Who got the lock, in this order. -/
  turns : List Changer := []
  /-- What the changes have asked the machine for. -/
  asked : List Effect := []
  change : Changer → Changing := fun _ => .waiting
  list : Lister → Listing := fun _ => .waiting

namespace Meeting

variable {Changer Lister : Type}

section Changes

variable [DecidableEq Changer]

/-- A caller has got the lock. -/
def locked (meeting : Meeting Changer Lister) (caller : Changer)
    (work : Script (Except ChangeError Text)) : Meeting Changer Lister :=
  { meeting with
    holder := some caller
    turns := meeting.turns ++ [caller]
    change := Function.update meeting.change caller (.working work) }

/-- A change has made a request to the machine. -/
def worked (meeting : Meeting Changer Lister) (caller : Changer) (effect : Effect)
    (next : effect.Answer → Script (Except ChangeError Text)) : Meeting Changer Lister :=
  { meeting with
    machine := (meeting.machine.perform effect).1
    asked := meeting.asked ++ [effect]
    change := Function.update meeting.change caller
      (.working (next (meeting.machine.perform effect).2)) }

/-- A change has ended, and the lock is free. -/
def unlocked (meeting : Meeting Changer Lister) (caller : Changer)
    (result : Except ChangeError Text) : Meeting Changer Lister :=
  { meeting with
    holder := none
    change := Function.update meeting.change caller (.ended result) }

theorem machine_locked (meeting : Meeting Changer Lister) (caller : Changer)
    (work : Script (Except ChangeError Text)) :
    (meeting.locked caller work).machine = meeting.machine := rfl

theorem change_locked (meeting : Meeting Changer Lister) (caller : Changer)
    (work : Script (Except ChangeError Text)) : (meeting.locked caller work).change =
      Function.update meeting.change caller (.working work) := rfl

theorem change_worked (meeting : Meeting Changer Lister) (caller : Changer) (effect : Effect)
    (next : effect.Answer → Script (Except ChangeError Text)) :
    (meeting.worked caller effect next).change = Function.update meeting.change caller
      (.working (next (meeting.machine.perform effect).2)) := rfl

theorem change_unlocked (meeting : Meeting Changer Lister) (caller : Changer)
    (result : Except ChangeError Text) : (meeting.unlocked caller result).change =
      Function.update meeting.change caller (.ended result) := rfl

end Changes

section Lists

variable [DecidableEq Lister]

/-- A call that lists the shares has come so far. -/
def listed (meeting : Meeting Changer Lister) (caller : Lister) (progress : Listing) :
    Meeting Changer Lister :=
  { meeting with list := Function.update meeting.list caller progress }

/-- A call that lists the shares has made a request to the machine. -/
def looked (meeting : Meeting Changer Lister) (caller : Lister) (effect : Effect)
    (next : effect.Answer → Script (Except ChangeError (List Share))) : Meeting Changer Lister :=
  { meeting with
    machine := (meeting.machine.perform effect).1
    list := Function.update meeting.list caller
      (.working (next (meeting.machine.perform effect).2)) }

theorem list_listed (meeting : Meeting Changer Lister) (caller : Lister) (progress : Listing) :
    (meeting.listed caller progress).list = Function.update meeting.list caller progress := rfl

/-- To look leaves the machine as it is. -/
theorem looked_eq_listed {meeting : Meeting Changer Lister} {caller : Lister} {effect : Effect}
    {next : effect.Answer → Script (Except ChangeError (List Share))}
    (same : (meeting.machine.perform effect).1 = meeting.machine) :
    meeting.looked caller effect next =
      meeting.listed caller (.working (next (meeting.machine.perform effect).2)) := by
  rw [looked, listed, same]

end Lists

/-- One of the calls goes on. The lock is looked at only by those who want it. -/
inductive Step [DecidableEq Changer] [DecidableEq Lister] (manager : Manager)
    (requests : Changer → Request) (meeting : Meeting Changer Lister) :
    Meeting Changer Lister → Prop
  | lock {caller : Changer} (free : meeting.holder = none)
    (waits : meeting.change caller = .waiting) :
    Step manager requests meeting (meeting.locked caller (manager.change (requests caller)))
  | work {caller : Changer} {effect : Effect}
    {next : effect.Answer → Script (Except ChangeError Text)}
    (works : meeting.change caller = .working (.ask effect next)) :
    Step manager requests meeting (meeting.worked caller effect next)
  | unlock {caller : Changer} {result : Except ChangeError Text}
    (works : meeting.change caller = .working (.done result)) :
    Step manager requests meeting (meeting.unlocked caller result)
  | list {caller : Lister} (waits : meeting.list caller = .waiting) :
    Step manager requests meeting (meeting.listed caller (.working manager.shares))
  | look {caller : Lister} {effect : Effect}
    {next : effect.Answer → Script (Except ChangeError (List Share))}
    (works : meeting.list caller = .working (.ask effect next)) :
    Step manager requests meeting (meeting.looked caller effect next)
  | answer {caller : Lister} {result : Except ChangeError (List Share)}
    (works : meeting.list caller = .working (.done result)) :
    Step manager requests meeting (meeting.listed caller (.ended result))

end Meeting

end SambaShares
