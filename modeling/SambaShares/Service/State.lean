import SambaShares.Text.Blank
/-!
The state of a service unit, as it is told by what the control program prints.
-/

namespace SambaShares

inductive UnitState
  | active
  | inactive
  | unknown
  | error
  deriving DecidableEq, Repr

namespace UnitState

def name : UnitState → Text
  | active => "active".toList
  | inactive => "inactive".toList
  | unknown => "unknown".toList
  | error => "error".toList

/-- The state that an answer tells. A unit that is on its way to another state is in none of
them. -/
def ofAnswer (answer : Text) : UnitState :=
  let word := answer.trim
  if word == "active".toList then active
  else if word == "inactive".toList then inactive
  else if word == "failed".toList then error
  else unknown

def answer : UnitState → Text
  | active => "active".toList
  | inactive => "inactive".toList
  | unknown => "unknown".toList
  | error => "failed".toList

@[simp] theorem ofAnswer_answer (state : UnitState) : ofAnswer state.answer = state := by
  cases state <;> decide

end UnitState

end SambaShares
