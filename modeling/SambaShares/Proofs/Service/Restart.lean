import SambaShares.Proofs.Script.Ensures
import SambaShares.Service.Control
/-!
How a restart goes, told by how the programs go that it starts. They are started one after the other,
each with the time that those before it have left, up to the first that does not end well.
-/

namespace SambaShares

namespace Service

/-- What comes of commands of which the first is to be the program of this number: how it ends, and
the programs that were started. -/
inductive Goes (course : Nat → Command → Course) (limit : Duration) :
    Nat → Option Nat → List Command → Except RestartError Unit → List Command → Prop
  | done {index : Nat} {left : Option Nat} : Goes course limit index left [] (.ok ()) []
  | next {index took : Nat} {left : Option Nat} {command : Command} {rest started : List Command}
    {result : Finished} {outcome : Except RestartError Unit}
    (ended : (course index command).within left = .finished result took)
    (well : result.status.success = true)
    (later : Goes course limit (index + 1) (left.map (· - took)) rest outcome started) :
    Goes course limit index left (command :: rest) outcome (command :: started)
  | failed {index took : Nat} {left : Option Nat} {command : Command} {rest : List Command}
    {result : Finished} (ended : (course index command).within left = .finished result took)
    (badly : result.status.success = false) :
    Goes course limit index left (command :: rest) (.error (.failed command result)) [command]
  | timedOut {index : Nat} {left : Option Nat} {command : Command} {rest : List Command}
    (ended : (course index command).within left = .abandoned) :
    Goes course limit index left (command :: rest) (.error (.timedOut limit)) [command]
  | notStarted {index : Nat} {left : Option Nat} {command : Command} {rest : List Command}
    {cause : IoError} (ended : (course index command).within left = .refused cause) :
    Goes course limit index left (command :: rest) (.error (.notStarted command cause)) []

variable {course : Nat → Command → Course} {limit : Duration} {index : Nat} {left : Option Nat}
variable {commands started : List Command}

theorem starts_eq (course : Course) (left : Option Nat) :
    course.starts = match course.within left with
      | .refused _ => false
      | _ => true := by
  cases course with
  | refused cause => rfl
  | ends result took =>
    cases left with
    | none => rfl
    | some limit => by_cases inTime : took ≤ limit <;> simp [Course.within, Course.starts, inTime]
  | hangs result => cases left <;> rfl

theorem goes_runAll (limit : Duration) (left : Option Nat) (commands : List Command)
    (machine : Machine) : ∃ started,
      Goes machine.course limit machine.started.length left commands
        ((runAll limit left commands).run machine).2 started ∧
      ((runAll limit left commands).run machine).1 =
        { machine with started := machine.started ++ started } := by
  induction commands generalizing left machine with
  | nil => exact ⟨[], .done, by simp [runAll]⟩
  | cons command rest ih =>
    have starts := starts_eq (machine.course machine.started.length command) left
    unfold runAll Script.start Script.request
    simp only [Script.bind, Script.run, Machine.perform]
    rw [starts]
    cases ended : (machine.course machine.started.length command).within left with
    | refused cause => exact ⟨[], .notStarted ended, by simp⟩
    | abandoned => exact ⟨[command], .timedOut ended, rfl⟩
    | finished result took =>
      dsimp only
      by_cases well : result.status.success = true
      · rw [if_pos well]
        obtain ⟨started, goes, after⟩ := ih (left.map (· - took))
          { machine with started := machine.started ++ [command] }
        refine ⟨command :: started, .next ended well ?_, ?_⟩
        · simpa using goes
        · simpa using after
      · rw [if_neg well]
        exact ⟨[command], .failed ended (by simpa using well), rfl⟩

theorem onlyAsks_runAll (limit : Duration) (left : Nat) (commands : List Command) :
    (runAll limit (some left) commands).OnlyAsks Effect.isLimited := by
  induction commands generalizing left with
  | nil => trivial
  | cons command rest ih =>
    refine ⟨rfl, fun ended => ?_⟩
    cases ended with
    | refused cause => trivial
    | abandoned => trivial
    | finished result took =>
      dsimp only [Script.bind]
      split
      · exact ih _
      · trivial

theorem onlyAsks_askAll (known : List (Text × UnitState)) (queries : List (Text × Command)) :
    (askAll known queries).OnlyAsks Effect.starts := by
  induction queries generalizing known with
  | nil => trivial
  | cons query rest ih => exact ⟨rfl, fun ended => ih _⟩

end Service

end SambaShares
