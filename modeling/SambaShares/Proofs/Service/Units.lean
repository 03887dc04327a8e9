import Mathlib.Algebra.BigOperators.Group.Finset.Basic
import Mathlib.Algebra.Order.BigOperators.Group.Finset
import SambaShares.Proofs.Service.Restart
import SambaShares.Proofs.Service.States
/-!
What a restart does for any list of units, however each program goes: it tries them in order, each
once, up to the first program that does not succeed within the time that is left, and tells of that
one. With what a question about the states tells, this is all that is done to a service.
-/

namespace SambaShares

/-- Whether a program starts, ends by itself and reports success. -/
def Course.succeeds : Course → Bool
  | .ends result _ => result.status.success
  | _ => false

/-- The time until a program ends by itself. -/
def Course.duration : Course → Nat
  | .ends _ after => after
  | _ => 0

namespace Service

variable {tape : Nat → Course} {limit : Duration} {left : Nat}

/-- The time that the first programs of a tape take together. -/
def elapsed (tape : Nat → Course) (count : Nat) : Nat :=
  ∑ index ∈ Finset.range count, (tape index).duration

/-- The first programs of a tape all succeed, and together they do not take longer than `time`. -/
def InTime (tape : Nat → Course) (time count : Nat) : Prop :=
  (∀ index < count, (tape index).succeeds = true) ∧ elapsed tape count ≤ time

theorem elapsed_succ (tape : Nat → Course) (count : Nat) :
    elapsed tape (count + 1) =
      elapsed (fun index => tape (index + 1)) count + (tape 0).duration :=
  Finset.sum_range_succ' _ count

theorem inTime_zero (tape : Nat → Course) (time : Nat) : InTime tape time 0 :=
  ⟨fun _ none => absurd none (Nat.not_lt_zero _), Nat.zero_le _⟩

theorem inTime_succ {time count : Nat} :
    InTime tape time (count + 1) ↔
      ((tape 0).succeeds = true ∧ (tape 0).duration ≤ time) ∧
        InTime (fun index => tape (index + 1)) (time - (tape 0).duration) count := by
  have all : (∀ index < count + 1, (tape index).succeeds = true) ↔
      (tape 0).succeeds = true ∧ ∀ index < count, (tape (index + 1)).succeeds = true :=
    Nat.forall_lt_succ_left
  unfold InTime
  rw [all, elapsed_succ]
  constructor
  · rintro ⟨⟨first, later⟩, time⟩
    exact ⟨⟨first, by omega⟩, later, by omega⟩
  · rintro ⟨⟨first, soon⟩, later, time⟩
    exact ⟨⟨first, later⟩, by omega⟩

/-- One program more is in time just if it succeeds in what the ones before it have left of the time. -/
theorem inTime_concat {time count : Nat} :
    InTime tape time (count + 1) ↔ InTime tape time count ∧
      (tape count).succeeds = true ∧ (tape count).duration ≤ time - elapsed tape count := by
  have sum : elapsed tape (count + 1) = elapsed tape count + (tape count).duration :=
    Finset.sum_range_succ _ count
  unfold InTime
  rw [Nat.forall_lt_succ_right, sum]
  constructor
  · rintro ⟨⟨former, last⟩, time⟩
    exact ⟨⟨former, by omega⟩, last, by omega⟩
  · rintro ⟨⟨former, time⟩, last, soon⟩
    exact ⟨⟨former, last⟩, by omega⟩

theorem InTime.mono {time count less : Nat} (inTime : InTime tape time count)
    (fewer : less ≤ count) : InTime tape time less := by
  refine ⟨fun index small => inTime.1 index (by omega), le_trans ?_ inTime.2⟩
  exact Finset.sum_le_sum_of_subset (Finset.range_subset_range.2 fewer)

/-- What a restart tells of a command that does not succeed in the time left. -/
def failure (limit : Duration) (left : Nat) (command : Command) : Course → RestartError
  | .refused cause => .notStarted command cause
  | .ends result after => if after ≤ left then .failed command result else .timedOut limit
  | .hangs _ => .timedOut limit

/-- A script that restarts by these commands: the first `count` succeed in the time, the next one,
if there is one, does not. No other is tried. -/
structure Stops (limit : Duration) (tape : Nat → Course) (left : Nat) (commands : List Command)
    (script : Script (Except RestartError Unit)) (count : Nat) : Prop where
  bound : count ≤ commands.length
  inTime : InTime tape left count
  late : count < commands.length → ¬InTime tape left (count + 1)
  tried : script.tried tape = commands.take (count + 1)
  told : script.told? tape = some (commands[count]?.elim (.ok ()) fun command =>
    .error (failure limit (left - elapsed tape count) command (tape count)))

theorem stops_nil : Stops limit tape left [] (runAll limit (some left) []) 0 where
  bound := le_rfl
  inTime := inTime_zero tape left
  late := fun none => absurd none (Nat.lt_irrefl 0)
  tried := rfl
  told := rfl

/-- The first command is the last that is tried. -/
theorem stops_first {command : Command} {rest : List Command}
    (fails : ¬((tape 0).succeeds = true ∧ (tape 0).duration ≤ left)) :
    Stops limit tape left (command :: rest) (runAll limit (some left) (command :: rest)) 0 := by
  have answers := Course.answer?_some left (tape 0)
  have stops : (runAll limit (some left) (command :: rest)).tried tape = [command] ∧
      (runAll limit (some left) (command :: rest)).told? tape =
        some (.error (failure limit left command (tape 0))) := by
    rw [runAll, Script.tried_start answers, Script.told?_start answers]
    cases course : tape 0 with
    | refused cause => exact ⟨rfl, rfl⟩
    | hangs result => exact ⟨rfl, rfl⟩
    | ends result after =>
      simp only [course, Course.succeeds, Course.duration, not_and] at fails
      by_cases soon : after ≤ left
      · have badly : result.status.success = false :=
          Bool.eq_false_iff.2 fun well => fails well soon
        simp only [Course.within, soon, if_true, failure]
        rw [badly]
        exact ⟨rfl, rfl⟩
      · simp only [Course.within, soon, if_false, failure]
        exact ⟨rfl, rfl⟩
  exact {
    bound := Nat.zero_le _
    inTime := inTime_zero tape left
    late := fun _ inTime => fails (inTime_succ.1 inTime).1
    tried := stops.1
    told := stops.2 }

/-- After a command that succeeds in time, the restart goes on with the time it left. -/
theorem Stops.next {command : Command} {rest : List Command} {count : Nat}
    (well : (tape 0).succeeds = true) (soon : (tape 0).duration ≤ left)
    (later : Stops limit (fun index => tape (index + 1)) (left - (tape 0).duration) rest
      (runAll limit (some (left - (tape 0).duration)) rest) count) :
    Stops limit tape left (command :: rest) (runAll limit (some left) (command :: rest))
      (count + 1) := by
  have answers := Course.answer?_some left (tape 0)
  have step : (runAll limit (some left) (command :: rest)).tried tape =
        command :: (runAll limit (some (left - (tape 0).duration)) rest).tried
          (fun index => tape (index + 1)) ∧
      (runAll limit (some left) (command :: rest)).told? tape =
        (runAll limit (some (left - (tape 0).duration)) rest).told?
          (fun index => tape (index + 1)) := by
    rw [runAll, Script.tried_start answers, Script.told?_start answers]
    cases course : tape 0 with
    | refused cause => simp [course, Course.succeeds] at well
    | hangs result => simp [course, Course.succeeds] at well
    | ends result after =>
      simp only [course, Course.succeeds, Course.duration] at well soon
      simp only [Course.within, soon, if_true, well, Course.duration, Option.map_some, and_self]
  have rest_time : left - elapsed tape (count + 1) =
      left - (tape 0).duration - elapsed (fun index => tape (index + 1)) count := by
    rw [elapsed_succ]
    omega
  exact {
    bound := Nat.succ_le_succ later.bound
    inTime := inTime_succ.2 ⟨⟨well, soon⟩, later.inTime⟩
    late := fun more inTime =>
      later.late (Nat.lt_of_succ_lt_succ more) (inTime_succ.1 inTime).2
    tried := by rw [step.1, later.tried, List.take_succ_cons]
    told := by rw [step.2, later.told, rest_time, List.getElem?_cons_succ] }

theorem exists_stops (limit : Duration) (tape : Nat → Course) (left : Nat)
    (commands : List Command) :
    ∃ count, Stops limit tape left commands (runAll limit (some left) commands) count := by
  induction commands generalizing tape left with
  | nil => exact ⟨0, stops_nil⟩
  | cons command rest ih =>
    by_cases first : (tape 0).succeeds = true ∧ (tape 0).duration ≤ left
    · obtain ⟨count, later⟩ := ih (fun index => tape (index + 1)) (left - (tape 0).duration)
      exact ⟨count + 1, later.next first.1 first.2⟩
    · exact ⟨0, stops_first first⟩

theorem Stops.told_ok_iff {commands : List Command} {script : Script (Except RestartError Unit)}
    {count : Nat} (stops : Stops limit tape left commands script count) :
    script.told? tape = some (.ok ()) ↔ InTime tape left commands.length := by
  rw [stops.told]
  rcases Nat.lt_or_eq_of_le stops.bound with fewer | all
  · rw [List.getElem?_eq_getElem fewer]
    constructor
    · rintro ⟨⟩
    · intro inTime
      exact absurd (inTime.mono fewer) (stops.late fewer)
  · rw [List.getElem?_eq_none all.ge]
    exact ⟨fun _ => all ▸ stops.inTime, fun _ => rfl⟩

/-- The error that a restart ends with when a program goes so that does not succeed in the time left. -/
inductive Blames (limit : Duration) (left : Nat) (command : Command) : Course → RestartError → Prop
  | notStarted (cause : IoError) :
    Blames limit left command (.refused cause) (.notStarted command cause)
  | failed {result : Finished} {after : Nat} (soon : after ≤ left)
    (badly : result.status.success = false) :
    Blames limit left command (.ends result after) (.failed command result)
  | late (result : Finished) {after : Nat} (late : left < after) :
    Blames limit left command (.ends result after) (.timedOut limit)
  | endless (result : Finished) : Blames limit left command (.hangs result) (.timedOut limit)

theorem blames_failure {command : Command} {course : Course}
    (fails : ¬(course.succeeds = true ∧ course.duration ≤ left)) :
    Blames limit left command course (failure limit left command course) := by
  cases course with
  | refused cause => exact .notStarted cause
  | hangs result => exact .endless result
  | ends result after =>
    by_cases soon : after ≤ left
    · rw [failure, if_pos soon]
      exact .failed soon (Bool.eq_false_iff.2 fun well => fails ⟨well, soon⟩)
    · rw [failure, if_neg soon]
      exact .late result (Nat.lt_of_not_le soon)

/-- An error that does not tell of the bound has the words of the command in its message. -/
theorem Blames.names {command : Command} {course : Course} {error : RestartError}
    (blames : Blames limit left command course error) :
    error = .timedOut limit ∨ [' '].intercalate command <:+: error.message := by
  cases blames with
  | late => exact Or.inl rfl
  | endless => exact Or.inl rfl
  | notStarted cause =>
    have part : [' '].intercalate command <:+:
        "failed to run `".toList ++ [' '].intercalate command ++ "`: ".toList :=
      List.infix_append _ _ _
    exact Or.inr (part.trans (List.prefix_append _ cause.message).isInfix)
  | @failed result after soon badly =>
    have part : [' '].intercalate command <:+:
        "`".toList ++ [' '].intercalate command ++ "` failed (".toList :=
      List.infix_append _ _ _
    have status := part.trans (List.prefix_append _ result.status.text).isInfix
    have mark := status.trans (List.prefix_append _ "): ".toList).isInfix
    exact Or.inr (mark.trans (List.prefix_append _ _).isInfix)

/-- How a restart goes: the first `count` units are restarted well and in time, the next one, if there
is one, is not. Up to this one each is tried once, and no other. The restart succeeds just if there is
no such unit; else its error tells of the command that was called for it, and why. -/
structure RestartsUnits (settings : ServiceSettings) (limit : Duration) (tape : Nat → Course)
    (count : Nat) : Prop where
  bound : count ≤ settings.units.length
  inTime : InTime tape limit.nanos count
  late : count < settings.units.length → ¬InTime tape limit.nanos (count + 1)
  tried : List.Forall₂ (Calls settings "restart".toList) (settings.units.take (count + 1))
    (((ofSettings settings).restartWithin limit).tried tape)
  ok_iff : ((ofSettings settings).restartWithin limit).told? tape = some (.ok ()) ↔
    InTime tape limit.nanos settings.units.length
  failed : ∀ unit, settings.units[count]? = some unit → ∃ command error,
    Calls settings "restart".toList unit command ∧
      ((ofSettings settings).restartWithin limit).told? tape = some (.error error) ∧
      Blames limit (limit.nanos - elapsed tape count) command (tape count) error ∧
      (error = .timedOut limit ∨ [' '].intercalate command <:+: error.message)

theorem exists_restartsUnits (settings : ServiceSettings) (limit : Duration)
    (tape : Nat → Course) : ∃ count, RestartsUnits settings limit tape count := by
  obtain ⟨count, stops⟩ := exists_stops limit tape limit.nanos
    (settings.units.map (systemctl settings "restart".toList))
  have total : (settings.units.map (systemctl settings "restart".toList)).length =
      settings.units.length := List.length_map _
  refine ⟨count, {
    bound := total ▸ stops.bound
    inTime := stops.inTime
    late := fun more => stops.late (total.symm ▸ more)
    tried := ?_
    ok_iff := total ▸ stops.told_ok_iff
    failed := fun unit here => ?_ }⟩
  · have tried : ((ofSettings settings).restartWithin limit).tried tape = _ := stops.tried
    rw [tried, ← List.map_take]
    exact forall₂_calls settings _ _
  · have told : ((ofSettings settings).restartWithin limit).told? tape = _ := stops.told
    rw [List.getElem?_map, here] at told
    have more : count < settings.units.length := (List.getElem?_eq_some_iff.1 here).1
    have fails : ¬((tape count).succeeds = true ∧
        (tape count).duration ≤ limit.nanos - elapsed tape count) := fun well =>
      stops.late (total.symm ▸ more) (inTime_concat.2 ⟨stops.inTime, well⟩)
    have blames := @blames_failure limit _ (systemctl settings "restart".toList unit) _ fails
    exact ⟨_, _, calls_iff.2 rfl, told, blames, blames.names⟩

/-- However the programs go, units are restarted in order, each tried once, up to the first that is
not restarted well and in time, and they are asked for their states in order, whatever is answered.
On a machine the programs go in one of these ways. -/
theorem units_in_turn (settings : ServiceSettings) (limit : Duration) :
    (∀ tape, ∃ count, RestartsUnits settings limit tape count) ∧
      (∀ tape, AsksUnits settings tape) ∧
      (∀ machine, ((ofSettings settings).restartWithin limit).GoesByTape machine) ∧
      ∀ machine : Machine,
        (∀ index command, (machine.course index command).isEndless = false) →
        (ofSettings settings).status.GoesByTape machine := by
  refine ⟨exists_restartsUnits settings limit, asksUnits settings, fun machine => ?_,
    fun machine ends => ?_⟩
  · exact Script.goesByTape_of_isLimited (onlyAsks_runAll limit limit.nanos _) machine
  · exact Script.goesByTape (onlyAsks_askAll [] _) fun command _ index => ends index command

/-- The second of three restarts fails, or the third comes too late; and the first of three queries
cannot be made, but the third is about the same unit again. -/
theorem units_in_turn_of_three :
    let settings : ServiceSettings :=
      { units := ["b".toList, "a".toList, "b".toList], useSudo := true }
    let limit : Duration := ⟨12⟩
    let well : Course := .ends { status := .exited 0, output := Utf8.encode "active\n".toList } 5
    let killed : Finished := { status := .killed 9 }
    let failing : Nat → Course := fun index => if index = 1 then .ends killed 5 else well
    let refusing : Nat → Course := fun index => if index = 0 then .refused .denied else well
    let restart := (ofSettings settings).restartWithin limit
    let second : Command := ["sudo", "systemctl", "restart", "a"].map String.toList
    let states := [("a".toList, UnitState.active), ("b".toList, UnitState.active)]
    (RestartsUnits settings limit failing 1 ∧
        restart.told? failing = some (.error (.failed second killed))) ∧
      (RestartsUnits settings limit (fun _ => well) 2 ∧
        restart.told? (fun _ => well) = some (.error (.timedOut limit))) ∧
      ((ofSettings settings).status.told? refusing = some states ∧ ∀ unit state,
        (unit, state) ∈ states ↔ LastAnswer refusing settings.units unit state) ∧
      (ofSettings settings).status.GoesByTape { course := fun _ _ => well } := by
  intro settings limit well killed failing refusing restart second states
  obtain ⟨restarts, asks, -, byTape⟩ := units_in_turn settings limit
  have three : settings.units.length = 3 := rfl
  have failed : restart.told? failing = some (.error (.failed second killed)) := by decide +kernel
  have late : restart.told? (fun _ => well) = some (.error (.timedOut limit)) := by decide +kernel
  have told : (ofSettings settings).status.told? refusing = some states := by decide +kernel
  refine ⟨⟨?_, failed⟩, ⟨?_, late⟩, ⟨told, ?_⟩, byTape _ fun _ _ => rfl⟩
  · obtain ⟨count, second⟩ := restarts failing
    have tried := second.tried.length_eq
    have two : (restart.tried failing).length = 2 := by decide +kernel
    rw [two, List.length_take, three] at tried
    obtain rfl : count = 1 := by omega
    exact second
  · obtain ⟨count, third⟩ := restarts fun _ => well
    have tried := third.tried.length_eq
    have all : (restart.tried fun _ => well).length = 3 := by decide +kernel
    rw [all, List.length_take, three] at tried
    have bound := third.bound
    have inTime := third.inTime
    rcases Nat.lt_or_eq_of_le (three ▸ bound) with fewer | whole
    · obtain rfl : count = 2 := by omega
      exact third
    · have done := third.ok_iff.2 (three.symm ▸ whole ▸ inTime)
      cases late.symm.trans done
  · have ends : ∀ index < settings.units.length, (refusing index).isEndless = false := by
      intro index _
      cases index <;> rfl
    obtain ⟨-, shown, same, -, -, last⟩ := (asks refusing).answered ends
    obtain rfl : shown = states := Option.some.inj (same.symm.trans told)
    exact last

end Service

end SambaShares
