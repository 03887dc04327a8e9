import SambaShares.Invocation.Run
import SambaShares.Proofs.Manager.Outcome
/-!
How a run of the program comes to its action. To find and load the settings is to look, so the action
starts on the machine as it was; without valid settings there is no action, and the run has failed.
-/

namespace SambaShares

namespace Settings

theorem onlyAsks_resolve (explicit? : Option Text) (home : Home) :
    (resolve explicit? home).OnlyAsks Effect.looks := by
  unfold resolve
  split
  · trivial
  · split
    · trivial
    · exact (Script.onlyAsks_request rfl).bind fun _ => trivial

theorem onlyAsks_load (path : Text) : (load path).OnlyAsks Effect.looks := by
  refine (Script.onlyAsks_request rfl).bind fun answer => ?_
  split <;> trivial

end Settings

namespace Manager

variable (manager : Manager)

theorem onlyAsks_registry : manager.registry.OnlyAsks Effect.looks :=
  manager.onlyAsks_load.bind fun _ => trivial

theorem onlyAsks_share? (name : Text) : (manager.share? name).OnlyAsks Effect.looks :=
  manager.onlyAsks_registry.bind fun _ => trivial

end Manager

namespace Invocation

variable {invocation : Invocation} {home : Settings.Home} {machine : Machine}

/-- The settings that a run of the program finds. -/
def loaded (invocation : Invocation) (home : Settings.Home) (machine : Machine) :
    Except SettingsError Settings :=
  (((Settings.resolve invocation.config home).bind Settings.load).run machine).2

/-- The manager that a run of the program works with, if its settings describe one. -/
def manager? (invocation : Invocation) (home : Settings.Home) (machine : Machine) :
    Option Manager :=
  match invocation.loaded home machine with
  | .ok settings => (manager invocation.conf settings).toOption
  | .error _ => none

theorem run_run (invocation : Invocation) (home : Settings.Home) (machine : Machine) :
    (invocation.run home).run machine = match invocation.loaded home machine with
      | .ok settings => (invocation.runWith
          ((Settings.resolve invocation.config home).run machine).2 settings).run machine
      | .error e => (machine, Output.failure [e.message]) := by
  have same := (Settings.onlyAsks_resolve invocation.config home).run_of_looks machine
  have still := (Settings.onlyAsks_load
    ((Settings.resolve invocation.config home).run machine).2).run_of_looks machine
  unfold run loaded
  simp only [Script.run_bind, same, still]
  cases ((Settings.load _).run machine).2 <;> rfl

theorem run_of_manager?_eq_some {task : Task} (asks : invocation.action = .manage task)
    {manager : Manager} (ready : invocation.manager? home machine = some manager) :
    (invocation.run home).run machine =
      (carryOut manager invocation.json task).run machine := by
  rw [run_run]
  unfold manager? at ready
  cases found : invocation.loaded home machine with
  | error e => simp [found] at ready
  | ok settings =>
    simp only [found] at ready
    cases built : Invocation.manager invocation.conf settings with
    | error e => simp [built, Except.toOption] at ready
    | ok described =>
      simp only [built, Except.toOption, Option.some.injEq] at ready
      simp only [runWith, asks, built, ready]

/-- Without a manager nothing is done. -/
theorem run_of_manager?_eq_none {task : Task} (asks : invocation.action = .manage task)
    (missing : invocation.manager? home machine = none) :
    ((invocation.run home).run machine).1 = machine ∧
      ((invocation.run home).run machine).2.status = 1 := by
  rw [run_run]
  unfold manager? at missing
  cases found : invocation.loaded home machine with
  | error e => exact ⟨rfl, rfl⟩
  | ok settings =>
    simp only [found] at missing
    cases built : Invocation.manager invocation.conf settings with
    | error e =>
      simp only [runWith, asks, built]
      exact ⟨rfl, rfl⟩
    | ok described => simp [built, Except.toOption] at missing

/-- Where the configuration and its backups lie; the path that is asked for goes first. -/
def storage (conf? : Option Text) (settings : Settings) : StorageSettings :=
  match conf? with
  | some confPath => { settings.storage with confPath }
  | none => settings.storage

theorem manager_eq (conf? : Option Text) (settings : Settings) :
    manager conf? settings = (Store.ofSettings (storage conf? settings)).map fun store =>
      { store, service := .ofSettings settings.service,
        restartLimit := settings.service.restartTimeout } := rfl

/-- What the manager of the program is made of. -/
structure Describes (invocation : Invocation) (settings : Settings) (manager : Manager) :
    Prop where
  store : Store.ofSettings (storage invocation.conf settings) = .ok manager.store
  service : manager.service = .ofSettings settings.service
  restartLimit : manager.restartLimit = settings.service.restartTimeout
  probe : manager.probe = Script.probe

theorem describes_of_manager?_eq_some {manager : Manager}
    (ready : invocation.manager? home machine = some manager) : ∃ settings,
      invocation.loaded home machine = .ok settings ∧ invocation.Describes settings manager := by
  unfold manager? at ready
  cases found : invocation.loaded home machine with
  | error e => simp [found] at ready
  | ok settings =>
    simp only [found, manager_eq] at ready
    cases built : Store.ofSettings (storage invocation.conf settings) with
    | error e => simp [built, Except.map, Except.toOption] at ready
    | ok store =>
      simp only [built, Except.map, Except.toOption, Option.some.injEq] at ready
      subst ready
      exact ⟨settings, rfl, built, rfl, rfl, rfl⟩

theorem Describes.stamp_eq {settings : Settings} {manager : Manager}
    (describes : invocation.Describes settings manager) : manager.store.stamp = Stamp.text := by
  have built := describes.store
  unfold Store.ofSettings at built
  generalize StorageSettings.modeBits _ = bits at built
  cases bits with
  | error e => cases built
  | ok mode =>
    have made := Except.ok.inj built
    exact (congrArg Store.stamp made).symm

theorem whole_of_manager?_eq_some {manager : Manager}
    (ready : invocation.manager? home machine = some manager) :
    (∀ time, '/' ∉ manager.store.stamp time) ∧
      ∀ path, (manager.probe path).OnlyAsks Effect.looks := by
  obtain ⟨settings, -, describes⟩ := describes_of_manager?_eq_some ready
  rw [describes.stamp_eq, describes.probe]
  exact ⟨Stamp.whole_text, Manager.onlyAsks_probe⟩

end Invocation

end SambaShares
