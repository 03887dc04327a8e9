import Mathlib.Data.List.Forall2
import SambaShares.Proofs.Script.Tape
import SambaShares.Proofs.Text.Order
import SambaShares.Service.Control
/-!
The commands that are called for units, and the states that a question about units tells, however each
query goes. Every unit is asked for in turn, and a unit that is asked for again has the state that the
last query told. Only a query that is never answered keeps the later ones from being made.
-/

namespace SambaShares

namespace Service

variable {tape : Nat → Course} {settings : ServiceSettings} {action unit : Text}

/-- The command for an action on a unit: the control program is told both, by the administrator if the
settings want it. -/
inductive Calls (settings : ServiceSettings) (action unit : Text) : Command → Prop
  | direct (own : settings.useSudo = false) :
    Calls settings action unit [settings.systemctlPath, action, unit]
  | raised (wanted : settings.useSudo = true) :
    Calls settings action unit ["sudo".toList, settings.systemctlPath, action, unit]

theorem calls_iff {command : Command} :
    Calls settings action unit command ↔ command = systemctl settings action unit := by
  unfold systemctl
  cases wanted : settings.useSudo with
  | false =>
    constructor
    · rintro (_ | other)
      · rfl
      · cases wanted.symm.trans other
    · rintro rfl
      exact .direct wanted
  | true =>
    constructor
    · rintro (own | _)
      · cases wanted.symm.trans own
      · rfl
    · rintro rfl
      exact .raised wanted

/-- Commands for units, one for each in their order. -/
theorem forall₂_calls (settings : ServiceSettings) (action : Text) (units : List Text) :
    List.Forall₂ (Calls settings action) units (units.map (systemctl settings action)) := by
  rw [List.forall₂_map_right_iff, List.forall₂_same]
  exact fun unit _ => calls_iff.2 rfl

/-- The state of a unit by how the query about it went: by the word that the control program printed. -/
inductive Tells : Ended → UnitState → Prop
  | active {result : Finished} {took : Nat}
    (word : (Utf8.decodeLossy result.output).trim = "active".toList) :
    Tells (.finished result took) .active
  | inactive {result : Finished} {took : Nat}
    (word : (Utf8.decodeLossy result.output).trim = "inactive".toList) :
    Tells (.finished result took) .inactive
  | failed {result : Finished} {took : Nat}
    (word : (Utf8.decodeLossy result.output).trim = "failed".toList) :
    Tells (.finished result took) .error
  | unknown {result : Finished} {took : Nat}
    (other : (Utf8.decodeLossy result.output).trim ∉
      ["active".toList, "inactive".toList, "failed".toList]) :
    Tells (.finished result took) .unknown
  | unanswered {ended : Ended} (none : ∀ result took, ended ≠ .finished result took) :
    Tells ended .error

theorem tells_stateOf (ended : Ended) : Tells ended (stateOf ended) := by
  cases ended with
  | refused cause => exact .unanswered (by simp)
  | abandoned => exact .unanswered (by simp)
  | finished result took =>
    simp only [stateOf, UnitState.ofAnswer, beq_iff_eq]
    split
    · next word => exact .active word
    split
    · next word => exact .inactive word
    split
    · next word => exact .failed word
    · exact .unknown (by simp_all)

theorem tells_iff {ended : Ended} {state : UnitState} :
    Tells ended state ↔ state = stateOf ended := by
  constructor
  · intro tells
    cases tells with
    | active word =>
      simp only [stateOf, UnitState.ofAnswer, word]
      rfl
    | inactive word =>
      simp only [stateOf, UnitState.ofAnswer, word]
      rfl
    | failed word =>
      simp only [stateOf, UnitState.ofAnswer, word]
      rfl
    | unknown other =>
      simp only [List.mem_cons, List.not_mem_nil, or_false, not_or] at other
      simp only [stateOf, UnitState.ofAnswer, beq_iff_eq, other, if_false]
    | unanswered none =>
      cases ended with
      | finished result took => exact absurd rfl (none result took)
      | refused cause => rfl
      | abandoned => rfl
  · rintro rfl
    exact tells_stateOf ended

/-- The units of which a list of states tells, in their order and each once. -/
def Listed (states : List (Text × UnitState)) : Prop := Text.Sorted (states.map Prod.fst)

theorem mem_keys_insertState {other : Text} {state : UnitState}
    {known : List (Text × UnitState)} :
    other ∈ (insertState unit state known).map Prod.fst ↔
      other = unit ∨ other ∈ known.map Prod.fst := by
  induction known with
  | nil => simp [insertState]
  | cons entry rest ih =>
    rcases entry with ⟨key, old⟩
    unfold insertState
    by_cases same : key = unit
    · simp [same]
    · by_cases before : Text.lessEq unit key = true
      · simp [same, before]
      · rw [if_neg (by simpa using same), if_neg before, List.map_cons, List.mem_cons, ih,
          List.map_cons, List.mem_cons]
        exact or_left_comm

theorem listed_insertState {known : List (Text × UnitState)} (listed : Listed known) (unit : Text)
    (state : UnitState) : Listed (insertState unit state known) := by
  induction known with
  | nil => exact Text.sorted_cons.2 ⟨by simp, listed⟩
  | cons entry rest ih =>
    rcases entry with ⟨key, old⟩
    obtain ⟨later, restListed⟩ := Text.sorted_cons.1 listed
    unfold insertState
    by_cases same : key = unit
    · rw [if_pos (by simpa using same)]
      exact Text.sorted_cons.2 ⟨same ▸ later, restListed⟩
    · rw [if_neg (by simpa using same)]
      by_cases before : Text.lessEq unit key = true
      · rw [if_pos before]
        refine Text.sorted_cons.2 ⟨fun other member => ?_, listed⟩
        rcases List.mem_cons.1 member with rfl | inRest
        · exact ⟨before, same⟩
        · have less := Text.lessEq_trans before (later other inRest).1
          refine ⟨less, ?_⟩
          rintro rfl
          exact same (Text.lessEq_antisymm (later other inRest).1 before)
      · rw [if_neg before]
        refine Text.sorted_cons.2 ⟨fun other member => ?_, ih restListed⟩
        rcases mem_keys_insertState.1 member with rfl | inRest
        · have total := Text.lessEq_total key other
          rw [Bool.or_eq_true] at total
          exact ⟨total.resolve_right before, fun equal => same equal.symm⟩
        · exact later other inRest

/-- A unit has the state that was put in for it last; the others keep theirs. -/
theorem mem_insertState {unit other : Text} {state told : UnitState}
    {known : List (Text × UnitState)} (listed : Listed known) :
    (other, told) ∈ insertState unit state known ↔
      other = unit ∧ told = state ∨ other ≠ unit ∧ (other, told) ∈ known := by
  induction known with
  | nil => simp [insertState]
  | cons entry rest ih =>
    rcases entry with ⟨key, old⟩
    obtain ⟨later, restListed⟩ := Text.sorted_cons.1 listed
    have keyed : ∀ {name : Text}, (name, told) ∈ rest → name ∈ rest.map Prod.fst :=
      fun member => List.mem_map_of_mem (f := Prod.fst) member
    unfold insertState
    by_cases same : key = unit
    · rw [if_pos (by simpa using same)]
      have apart : (other, told) ∈ rest → other ≠ unit := fun member =>
        same ▸ (later other (keyed member)).2
      grind
    · rw [if_neg (by simpa using same)]
      by_cases before : Text.lessEq unit key = true
      · rw [if_pos before]
        have apart : (other, told) ∈ rest → other ≠ unit := by
          rintro member rfl
          exact same (Text.lessEq_antisymm (later other (keyed member)).1 before)
        grind
      · rw [if_neg before, List.mem_cons, ih restListed]
        grind

/-- What the last query about a unit was answered. -/
def LastAnswer (tape : Nat → Course) (units : List Text) (unit : Text) (state : UnitState) : Prop :=
  ∃ index, units[index]? = some unit ∧ (∀ later, index < later → units[later]? ≠ some unit) ∧
    Tells ((tape index).within none) state

theorem lastAnswer_cons {first unit : Text} {rest : List Text} {state : UnitState} :
    LastAnswer tape (first :: rest) unit state ↔
      LastAnswer (fun index => tape (index + 1)) rest unit state ∨
        unit ∉ rest ∧ unit = first ∧ Tells ((tape 0).within none) state := by
  constructor
  · rintro ⟨index, here, last, told⟩
    cases index with
    | zero =>
      refine Or.inr ⟨fun member => ?_, (Option.some.inj here).symm, told⟩
      obtain ⟨index, found⟩ := List.mem_iff_getElem?.1 member
      exact last (index + 1) (Nat.succ_pos index) found
    | succ index =>
      exact Or.inl ⟨index, here, fun later more => last (later + 1) (Nat.succ_lt_succ more), told⟩
  · rintro (⟨index, here, last, told⟩ | ⟨absent, rfl, told⟩)
    · refine ⟨index + 1, here, fun later more => ?_, told⟩
      cases later with
      | zero => exact absurd more (Nat.not_lt_zero _)
      | succ later => exact last later (Nat.lt_of_succ_lt_succ more)
    · refine ⟨0, rfl, fun later more found => ?_, told⟩
      cases later with
      | zero => exact Nat.lt_irrefl 0 more
      | succ later => exact absent (List.mem_iff_getElem?.2 ⟨later, found⟩)

theorem exists_lastAnswer_iff {units : List Text} {unit : Text} :
    (∃ state, LastAnswer tape units unit state) ↔ unit ∈ units := by
  induction units generalizing tape with
  | nil => simp [LastAnswer]
  | cons first rest ih =>
    simp only [lastAnswer_cons, tells_iff, exists_or, ih, exists_and_left, exists_eq, and_true,
      List.mem_cons]
    grind

/-- All are asked if every query is answered, and the states that were known before are kept for
units that are not asked for. -/
theorem askAll_of_answers (query : Text → Command) {units : List Text}
    (ends : ∀ index < units.length, (tape index).isEndless = false)
    {known : List (Text × UnitState)} (listed : Listed known) :
    (askAll known (units.map fun unit => (unit, query unit))).tried tape = units.map query ∧
      ∃ states, (askAll known (units.map fun unit => (unit, query unit))).told? tape = some states ∧
        Listed states ∧ ∀ unit state, (unit, state) ∈ states ↔
          LastAnswer tape units unit state ∨ unit ∉ units ∧ (unit, state) ∈ known := by
  induction units generalizing tape known with
  | nil =>
    refine ⟨rfl, known, rfl, listed, fun unit state => ?_⟩
    simp [LastAnswer]
  | cons first rest ih =>
    have answers := Course.answer?_of_ends (ends 0 (Nat.succ_pos _)) none
    have later := listed_insertState listed first (stateOf ((tape 0).within none))
    obtain ⟨tried, states, told, statesListed, member⟩ := ih
      (fun index small => ends (index + 1) (Nat.succ_lt_succ small)) later
    refine ⟨?_, states, ?_, statesListed, fun unit state => ?_⟩
    · rw [List.map_cons, askAll, Script.tried_start answers, tried, List.map_cons]
    · rw [List.map_cons, askAll, Script.told?_start answers, told]
    · rw [member, lastAnswer_cons, mem_insertState listed, tells_iff, List.mem_cons]
      grind

/-- A query that is never answered is the last. -/
theorem askAll_of_waits (query : Text → Command) {units : List Text} {count : Nat}
    (bound : count < units.length) (ends : ∀ index < count, (tape index).isEndless = false)
    (waits : (tape count).isEndless = true) (known : List (Text × UnitState)) :
    (askAll known (units.map fun unit => (unit, query unit))).tried tape =
        (units.take (count + 1)).map query ∧
      (askAll known (units.map fun unit => (unit, query unit))).told? tape = none := by
  induction units generalizing tape known count with
  | nil => exact absurd bound (Nat.not_lt_zero count)
  | cons first rest ih =>
    cases count with
    | zero =>
      have answers : (tape 0).answer? none = none := by simp [Course.answer?, waits]
      rw [List.map_cons, askAll, Script.tried_of_waits answers, Script.told?_of_waits answers]
      exact ⟨rfl, rfl⟩
    | succ count =>
      have answers := Course.answer?_of_ends (ends 0 (Nat.succ_pos _)) none
      have later := ih (Nat.lt_of_succ_lt_succ bound)
        (fun index small => ends (index + 1) (Nat.succ_lt_succ small)) waits
        (insertState first (stateOf ((tape 0).within none)) known)
      rw [List.map_cons, askAll, Script.tried_start answers, Script.told?_start answers, later.1,
        later.2, List.take_succ_cons, List.map_cons]
      exact ⟨rfl, rfl⟩

/-- A question about units: all are asked for, up to a query that is never answered. -/
structure AsksUnits (settings : ServiceSettings) (tape : Nat → Course) : Prop where
  answered : (∀ index < settings.units.length, (tape index).isEndless = false) →
    List.Forall₂ (Calls settings "is-active".toList) settings.units
        ((ofSettings settings).status.tried tape) ∧
      ∃ states, (ofSettings settings).status.told? tape = some states ∧ Listed states ∧
        (∀ unit, unit ∈ states.map Prod.fst ↔ unit ∈ settings.units) ∧
        ∀ unit state, (unit, state) ∈ states ↔ LastAnswer tape settings.units unit state
  waiting : ∀ count < settings.units.length, (∀ index < count, (tape index).isEndless = false) →
    (tape count).isEndless = true →
    List.Forall₂ (Calls settings "is-active".toList) (settings.units.take (count + 1))
        ((ofSettings settings).status.tried tape) ∧
      (ofSettings settings).status.told? tape = none

theorem asksUnits (settings : ServiceSettings) (tape : Nat → Course) :
    AsksUnits settings tape where
  answered := by
    intro ends
    have sorted : Listed [] := ⟨.nil, .nil⟩
    obtain ⟨tried, states, told, listed, member⟩ :=
      askAll_of_answers (systemctl settings "is-active".toList) ends sorted
    have last : ∀ unit state,
        (unit, state) ∈ states ↔ LastAnswer tape settings.units unit state := by
      intro unit state
      simpa using member unit state
    refine ⟨tried ▸ forall₂_calls settings _ _, states, told, listed, fun unit => ?_, last⟩
    calc
      unit ∈ states.map Prod.fst ↔ ∃ state, (unit, state) ∈ states := by simp
      _ ↔ ∃ state, LastAnswer tape settings.units unit state := by simp only [last]
      _ ↔ unit ∈ settings.units := exists_lastAnswer_iff
  waiting := by
    intro count bound ends waits
    obtain ⟨tried, told⟩ :=
      askAll_of_waits (systemctl settings "is-active".toList) bound ends waits []
    exact ⟨tried ▸ forall₂_calls settings _ _, told⟩

end Service

end SambaShares
