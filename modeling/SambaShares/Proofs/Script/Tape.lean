import SambaShares.Proofs.Script.Ensures
/-!
Scripts that do nothing but start programs, told by a tape that says how each program goes: the
first that is tried goes as the tape says first, the next as it says next, whether the one before
could be started or not. A program that never ends and is waited for without a bound leaves the
script without a result. What such a script does on a machine, it does by one of the tapes.
-/

namespace SambaShares

/-- Whether a program never ends by itself. -/
def Course.isEndless : Course → Bool
  | .hangs _ => true
  | _ => false

/-- What is ever known of a program that is waited for. -/
def Course.answer? (patience : Option Nat) (course : Course) : Option Ended :=
  if patience.isNone && course.isEndless then none else some (course.within patience)

@[simp] theorem Course.answer?_some (time : Nat) (course : Course) :
    course.answer? (some time) = some (course.within (some time)) := rfl

theorem Course.answer?_of_ends {course : Course} (ends : course.isEndless = false)
    (patience : Option Nat) : course.answer? patience = some (course.within patience) := by
  simp [answer?, ends]

/-- The command that a request starts. -/
def Effect.command? : Effect → Option Command
  | .start command _ => some command
  | _ => none

namespace Script

variable {α : Type} {script : Script α}

/-- The commands that a script tries to start, in order. -/
def tried : (Nat → Course) → Script α → List Command
  | _, .done _ => []
  | tape, .ask (.start command patience) next =>
    command :: match (tape 0).answer? patience with
      | some ended => tried (fun index => tape (index + 1)) (next ended)
      | none => []
  | _, .ask _ _ => []

/-- The result of a script, if it does not wait for ever. -/
def told? : (Nat → Course) → Script α → Option α
  | _, .done result => some result
  | tape, .ask (.start _ patience) next =>
    match (tape 0).answer? patience with
    | some ended => told? (fun index => tape (index + 1)) (next ended)
    | none => none
  | _, .ask _ _ => none

theorem tried_start {next : Ended → Script α} {command : Command} {patience : Option Nat}
    {tape : Nat → Course} {ended : Ended} (answers : (tape 0).answer? patience = some ended) :
    ((start command patience).bind next).tried tape =
      command :: (next ended).tried fun index => tape (index + 1) := by
  simp only [start, request, bind, tried, answers]

theorem told?_start {next : Ended → Script α} {command : Command} {patience : Option Nat}
    {tape : Nat → Course} {ended : Ended} (answers : (tape 0).answer? patience = some ended) :
    ((start command patience).bind next).told? tape =
      (next ended).told? fun index => tape (index + 1) := by
  simp only [start, request, bind, told?, answers]

theorem tried_of_waits {next : Ended → Script α} {command : Command} {patience : Option Nat}
    {tape : Nat → Course} (waits : (tape 0).answer? patience = none) :
    ((start command patience).bind next).tried tape = [command] := by
  simp only [start, request, bind, tried, waits]

theorem told?_of_waits {next : Ended → Script α} {command : Command} {patience : Option Nat}
    {tape : Nat → Course} (waits : (tape 0).answer? patience = none) :
    ((start command patience).bind next).told? tape = none := by
  simp only [start, request, bind, told?, waits]

/-- On this machine the script goes as some tape tells. -/
def GoesByTape (script : Script α) (machine : Machine) : Prop :=
  ∃ tape : Nat → Course, script.told? tape = some (script.run machine).2 ∧
    script.tried tape = (script.asked machine).filterMap Effect.command?

/-- A script may wait without a bound only for a program that ends. -/
theorem goesByTape (only : script.OnlyAsks Effect.starts) {machine : Machine}
    (ends : ∀ command, .start command none ∈ script.asked machine →
      ∀ index, (machine.course index command).isEndless = false) : script.GoesByTape machine := by
  induction script generalizing machine with
  | done result => exact ⟨fun _ => .refused .noEntry, rfl, rfl⟩
  | ask effect next ih =>
    cases effect with
    | start command patience =>
      let course := machine.course machine.started.length command
      have answers : course.answer? patience = some (course.within patience) := by
        cases patience with
        | some time => exact course.answer?_some time
        | none => exact Course.answer?_of_ends (ends command List.mem_cons_self _) none
      let after := (machine.perform (.start command patience)).1
      have endsLater : ∀ later, .start later none ∈ (next (course.within patience)).asked after →
          ∀ index, (after.course index later).isEndless = false :=
        fun later member => ends later (List.mem_cons_of_mem _ member)
      obtain ⟨tape, told, tried⟩ := ih (course.within patience) (only.2 _) endsLater
      refine ⟨fun | 0 => course | index + 1 => tape index, ?_, ?_⟩
      · exact (told?_start answers).trans told
      · exact (tried_start answers).trans (congrArg (command :: ·) tried)
    | _ => cases only.1

theorem goesByTape_of_isLimited (limited : script.OnlyAsks Effect.isLimited) (machine : Machine) :
    script.GoesByTape machine := by
  refine goesByTape (limited.mono fun _ => Effect.starts_of_isLimited) fun command member => ?_
  cases limited.of_mem_asked member

end Script

end SambaShares
