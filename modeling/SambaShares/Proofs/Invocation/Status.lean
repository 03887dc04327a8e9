import SambaShares.Proofs.Invocation.Edit
import SambaShares.Proofs.Service.Restart
/-!
What the exit status of a run tells. If the arguments can be read it tells the truth: 1 means that the
live file is as it was, 2 that it was replaced but that a restart did not go well, and 0, where a share
was to be changed, that it was replaced and that the service was restarted. For arguments that cannot be
read the status is 2 as well, and then nothing was done.
-/

namespace SambaShares

namespace Store

open Disk

variable {store : Store} {before after : Disk}

/-- The live path leads to what it led to, and a file that it leads to was there before. If a directory
that was missing on the way to it has been made, this file may be found only now; and where nothing was,
there may be a directory, if that is where the backups go. -/
structure LiveKept (store : Store) (before after : Disk) : Prop where
  found : ∀ node, before.find store.confPath = .ok node → after.find store.confPath = .ok node
  file : ∀ content mode, after.find store.confPath = .ok (.file content mode) →
    before.node? (before.placeOf store.confPath) = some (.file content mode)

/-- Directories and backups are no live file. -/
theorem liveKept_of_grows (formed : before.WellFormed)
    (grows : Grows (store.Beside before fun name => store.backupStart.isPrefixOf name = true)
      before after) : store.LiveKept before after := by
  refine ⟨fun node found => grows.find formed found, fun content mode found => ?_⟩
  obtain ⟨place, leads, there, -⟩ := find_eq_ok found
  have placed : place = before.placeOf store.confPath :=
    (grows.formed.locate_eq_placeOf leads).trans (placeOf_congr grows.here _)
  rw [← placed]
  rcases grows.node place with same | ⟨-, node, here, made⟩
  · rw [← same, there]
  · rw [there, Option.some.injEq] at here
    subst here
    rcases made with ⟨directory, -⟩ | ⟨name, up, _, _, rfl, -, start⟩
    · cases directory
    · exact absurd start (not_isPrefixOf_of_fileName? (fileName?_of_live grows.formed leads there))

theorem liveKept_of_eq (formed : before.WellFormed) (same : after = before) :
    store.LiveKept before after := by
  rw [same]
  exact liveKept_of_grows formed (.refl formed)

end Store

namespace Manager

variable {manager : Manager} {machine : Machine} {request : Request}

theorem liveKept_of_persist (stamped : ∀ time, '/' ∉ manager.store.stamp time)
    (formed : machine.disk.WellFormed) {current next : Document} {cause : StoreError}
    (failed : ((manager.store.persist current next).run machine).2 = .error cause) :
    manager.store.LiveKept machine.disk
      ((manager.store.persist current next).run machine).1.disk := by
  have ending := manager.store.persist_persistence stamped formed current next
  rw [failed] at ending
  cases cause with
  | backup path cause => exact Store.liveKept_of_grows formed (ending.mono fun _ _ => Or.inl)
  | write path cause =>
    obtain ⟨path, name, backup⟩ := ending
    exact Store.liveKept_of_grows formed backup.beside
  | read => exact ending.elim
  | notUtf8 => exact ending.elim

/-- What is left to a change that was saved is the restart. -/
theorem change_run_of_saved (looks : ∀ path, (manager.probe path).OnlyAsks Effect.looks)
    {current next : Document} {backup : Text}
    (loaded : (manager.load.run machine).2 = .ok current)
    (planned : ((manager.plan current request).run machine).2 = .ok next)
    (done : ((manager.store.persist current next).run machine).2 = .ok backup) :
    (manager.change request).run machine =
      (manager.reconcile backup).run ((manager.store.persist current next).run machine).1 := by
  unfold change
  rw [Script.run_andThen, (onlyAsks_load manager).run_of_looks, loaded]
  dsimp only
  rw [Script.run_andThen, (onlyAsks_plan looks current request).run_of_looks, planned]
  dsimp only
  rw [Script.run_andThen]
  simp only [saved, Script.run_bind, Script.run_done, done, Except.mapError]

theorem goes_of_saved (looks : ∀ path, (manager.probe path).OnlyAsks Effect.looks)
    {current next : Document} {backup : Text}
    (loaded : (manager.load.run machine).2 = .ok current)
    (planned : ((manager.plan current request).run machine).2 = .ok next)
    (done : ((manager.store.persist current next).run machine).2 = .ok backup) :
    ∃ started, Service.Goes machine.course manager.restartLimit machine.started.length
        (some manager.restartLimit.nanos) manager.service.restarts
        ((manager.service.restartWithin manager.restartLimit).run machine).2 started ∧
      ((manager.change request).run machine).1.started = machine.started ++ started := by
  rw [change_run_of_saved looks loaded planned done, reconcile_run,
    ← (manager.restart_after_persist current next machine).2]
  have same := (manager.store.quiet_persist current next).invariant
    (fun state => (state.started, state.course)) (fun state _ => state.perform_of_quiet) machine
  rw [Prod.mk.injEq] at same
  obtain ⟨started, goes, after⟩ := Service.goes_runAll manager.restartLimit
    (some manager.restartLimit.nanos) manager.service.restarts
    ((manager.store.persist current next).run machine).1
  rw [same.1, same.2] at goes
  refine ⟨started, goes, ?_⟩
  have all : ∀ state, ((manager.service.restartWithin manager.restartLimit).run state).1 =
      ((Service.runAll manager.restartLimit (some manager.restartLimit.nanos)
        manager.service.restarts).run state).1 := fun _ => rfl
  dsimp only
  rw [all, after, same.1]

theorem onlyAsks_shares (manager : Manager) : manager.shares.OnlyAsks Effect.looks :=
  manager.onlyAsks_registry.bind fun _ => trivial

theorem onlyAsks_users (manager : Manager) (name : Text) :
    (manager.users name).OnlyAsks Effect.looks :=
  manager.onlyAsks_registry.bind fun _ => trivial

theorem onlyAsks_backups (manager : Manager) : manager.backups.OnlyAsks Effect.looks :=
  manager.store.onlyAsks_listBackups.bind fun _ => trivial

theorem disk_status (manager : Manager) (state : Machine) :
    (manager.status.run state).1.disk = state.disk :=
  (Service.onlyAsks_askAll [] manager.service.queries).invariant Machine.disk
    (fun state _ starts => state.disk_perform_of_starts starts) state

end Manager

/-- Whether a task is to change a share. -/
def Task.isChange : Task → Bool
  | .add _ | .update .. | .delete _ | .setUsers .. => true
  | .list | .describe _ | .users _ | .status | .restart | .backups => false

namespace Output

variable {α : Type}

theorem status_ofResult {render : α → Output} (never : ∀ result, (render result).status ≤ 1)
    (result : Except ChangeError α) : (ofResult render result).status ≤ 1 := by
  cases result with
  | ok result => exact never result
  | error e => exact Nat.le_refl 1

theorem status_ofStore (json : Bool) (cause : StoreError) :
    (ofChange json (.error (.ofStore cause))).status = 1 := by
  rw [status_ofChange]
  cases cause <;> rfl

theorem status_reported (json : Bool) (backup : Text) (outcome : Except RestartError Unit) :
    (ofChange json (Manager.reported backup outcome)).status = if outcome.isOk then 0 else 2 := by
  rw [status_ofChange]
  cases outcome <;> rfl

theorem status_ofRestart (json restarted : Bool) : (ofRestart json restarted).status ≤ 1 := by
  cases restarted
  · exact Nat.le_refl 1
  · exact Nat.zero_le 1

theorem status_ofSettings (json : Bool) (path : Text) (settings : Settings) :
    (ofSettings json path settings).status ≤ 1 := by
  unfold ofSettings
  split
  · exact Nat.zero_le 1
  · cases settings.write with
    | ok text => exact Nat.zero_le 1
    | error e => exact Nat.le_refl 1

end Output

namespace Invocation

variable {manager : Manager} {invocation : Invocation} {home : Settings.Home} {machine : Machine}
variable {task : Task} {json : Bool}

/-- The request that a task comes to. -/
def request? (manager : Manager) (machine : Machine) : Task → Option Request
  | .add spec => some (.add spec)
  | .update old edit =>
    match ((manager.share? old).run machine).2 with
    | .ok share? => some (request old edit share?)
    | .error _ => none
  | .delete name => some (.delete name)
  | .setUsers name users => some (.setUsers name users)
  | .list | .describe _ | .users _ | .status | .restart | .backups => none

theorem carryOut_of_request? {request : Request}
    (asks : request? manager machine task = some request) :
    (carryOut manager json task).run machine = (change manager json request).run machine := by
  cases task with
  | update old edit =>
    rw [carryOut_update_run]
    rcases shown : ((manager.share? old).run machine).2 with e | share?
    · simp only [request?, shown, reduceCtorEq] at asks
    · simp only [request?, shown, Option.some.injEq] at asks
      simp only [asks]
  | add | delete | setUsers => rw [← Option.some.inj asks]; rfl
  | list | describe | users | status | restart | backups => cases asks

/-- A task that comes to no request leaves the disk as it is; if it was to change a share, it has
failed. -/
theorem carryOut_of_no_request (asks : request? manager machine task = none) :
    let run := (carryOut manager json task).run machine
    run.1.disk = machine.disk ∧ run.2.status ≤ 1 ∧ (task.isChange = true → run.2.status = 1) := by
  cases task with
  | update old edit =>
    dsimp only
    rw [carryOut_update_run]
    rcases shown : ((manager.share? old).run machine).2 with e | share?
    · exact ⟨rfl, Nat.le_refl 1, fun _ => rfl⟩
    · simp only [request?, shown, reduceCtorEq] at asks
  | add | delete | setUsers => cases asks
  | list =>
    simp only [carryOut, Script.run_bind, Script.run_done, manager.onlyAsks_shares.run_of_looks]
    exact ⟨trivial, Output.status_ofResult (fun _ => Nat.zero_le 1) _, fun change => nomatch change⟩
  | describe name =>
    simp only [carryOut, Script.run_bind, Script.run_done,
      (manager.onlyAsks_share? name).run_of_looks]
    refine ⟨trivial, Output.status_ofResult (fun share? => ?_) _, fun change => nomatch change⟩
    cases share?
    · exact Nat.le_refl 1
    · exact Nat.zero_le 1
  | users name =>
    simp only [carryOut, Script.run_bind, Script.run_done,
      (manager.onlyAsks_users name).run_of_looks]
    exact ⟨trivial, Output.status_ofResult (fun _ => Nat.zero_le 1) _, fun change => nomatch change⟩
  | backups =>
    simp only [carryOut, Script.run_bind, Script.run_done, manager.onlyAsks_backups.run_of_looks]
    exact ⟨trivial, Output.status_ofResult (fun _ => Nat.zero_le 1) _, fun change => nomatch change⟩
  | status =>
    simp only [carryOut, Script.run_bind, Script.run_done]
    exact ⟨manager.disk_status machine, Nat.zero_le 1, fun change => nomatch change⟩
  | restart =>
    simp only [carryOut, Manager.restart, Script.run_bind, Script.run_done]
    exact ⟨Manager.disk_restart _ _ machine, Output.status_ofRestart _ _,
      fun change => nomatch change⟩

/-- A change that was asked for is in effect, and this has come of the restart after it. -/
inductive Saves (invocation : Invocation) (home : Settings.Home) (before after : Machine)
    (outcome : Except RestartError Unit) : Prop
  | intro {task : Task} {settings : Settings} {manager : Manager} {request : Request}
    {current next : Document} {started : List Command}
    (asks : invocation.action = .manage task)
    (found : invocation.loaded home before = .ok settings)
    (describes : invocation.Describes settings manager)
    (requests : request? manager before task = some request)
    (loaded : (manager.load.run before).2 = .ok current)
    (planned : request.plan (manager.found before) current = .ok next)
    (live : manager.store.Live next after.disk)
    (goes : Service.Goes before.course settings.service.restartTimeout before.started.length
      (some settings.service.restartTimeout.nanos)
      (settings.service.units.map (Service.systemctl settings.service "restart".toList))
      outcome started)
    (startedAll : after.started = before.started ++ started)

/-- The live file of the manager, if there is one, is as it was. -/
def KeepsLive (invocation : Invocation) (home : Settings.Home) (before after : Machine) : Prop :=
  match invocation.manager? home before with
  | some manager => manager.store.LiveKept before.disk after.disk
  | none => after.disk = before.disk

/-- The exit status of a run tells what it has done. -/
structure Truthful (invocation : Invocation) (home : Settings.Home) (before after : Machine)
    (status : Nat) : Prop where
  done : ∀ task, invocation.action = .manage task → task.isChange = true → status = 0 →
    invocation.Saves home before after (.ok ())
  failed : status = 1 → invocation.KeepsLive home before after
  warned : status = 2 → ∃ cause, invocation.Saves home before after (.error cause)
  bounded : status ≤ 2

theorem keepsLive_of_eq {after : Machine} (formed : machine.disk.WellFormed)
    (same : after.disk = machine.disk) : invocation.KeepsLive home machine after := by
  unfold KeepsLive
  split
  · exact Store.liveKept_of_eq formed same
  · exact same

theorem truthful_of_failed {after : Machine} (kept : invocation.KeepsLive home machine after) :
    invocation.Truthful home machine after 1 where
  done _ _ _ zero := nomatch zero
  failed _ := kept
  warned two := nomatch two
  bounded := by decide

theorem truthful_of_saves {after : Machine} {outcome : Except RestartError Unit}
    (saves : invocation.Saves home machine after outcome) :
    invocation.Truthful home machine after (if outcome.isOk then 0 else 2) := by
  cases outcome with
  | ok =>
    exact {
      done := fun _ _ _ _ => saves
      failed := fun one => nomatch one
      warned := fun two => nomatch two
      bounded := Nat.zero_le 2 }
  | error cause =>
    exact {
      done := fun _ _ _ zero => nomatch zero
      failed := fun one => nomatch one
      warned := fun _ => ⟨cause, saves⟩
      bounded := Nat.le_refl 2 }

/-- The status of a run that changes nothing. -/
theorem truthful_of_eq {after : Machine} {status : Nat} (formed : machine.disk.WellFormed)
    (same : after.disk = machine.disk) (small : status ≤ 1)
    (failed : ∀ task, invocation.action = .manage task → task.isChange = true → status = 1) :
    invocation.Truthful home machine after status where
  done task asks change zero := by
    rw [zero] at failed
    cases failed task asks change
  failed _ := keepsLive_of_eq formed same
  warned two := by omega
  bounded := by omega

/-- The status of a change. -/
theorem truthful_of_request (formed : machine.disk.WellFormed)
    (ready : invocation.manager? home machine = some manager)
    (asks : invocation.action = .manage task) {request : Request}
    (requests : request? manager machine task = some request) :
    let run := (change manager invocation.json request).run machine
    invocation.Truthful home machine run.1 run.2.status := by
  obtain ⟨stamped, looks⟩ := whole_of_manager?_eq_some ready
  obtain ⟨settings, found, describes⟩ := describes_of_manager?_eq_some ready
  have changes := Manager.changes_of_change looks machine request
  generalize ((manager.change request).asked machine).filter Effect.starts = starts at changes
  dsimp only
  rw [change_run]
  dsimp only
  generalize left : ((manager.change request).run machine).1 = after at changes ⊢
  generalize ended : ((manager.change request).run machine).2 = result at changes ⊢
  have kept (live : manager.store.LiveKept machine.disk after.disk) :
      invocation.KeepsLive home machine after := by
    unfold KeepsLive
    rw [ready]
    exact live
  cases changes with
  | unread _ same =>
    rw [Output.status_ofChange]
    exact truthful_of_failed (kept (Store.liveKept_of_eq formed same))
  | refused _ _ same =>
    rw [Output.status_ofChange]
    exact truthful_of_failed (kept (Store.liveKept_of_eq formed same))
  | unsaved _ _ failed disk =>
    rw [Output.status_ofStore]
    have live := Manager.liveKept_of_persist stamped formed failed
    rw [← disk] at live
    exact truthful_of_failed (kept live)
  | saved loaded planned done disk =>
    rw [Output.status_reported]
    have live := Store.live_persist stamped formed done
    rw [← disk] at live
    obtain ⟨started, goes, all⟩ := Manager.goes_of_saved looks loaded planned done
    rw [left] at all
    rw [describes.restartLimit, describes.service] at goes ⊢
    exact truthful_of_saves (.intro asks found describes requests loaded
      (Manager.plan_run_eq_ok_iff.1 planned) live goes all)

theorem truthful_run (formed : machine.disk.WellFormed) (invocation : Invocation)
    (home : Settings.Home) :
    let run := (invocation.run home).run machine
    invocation.Truthful home machine run.1 run.2.status := by
  dsimp only
  cases action : invocation.action with
  | config =>
    have other : ∀ task, invocation.action ≠ .manage task := by simp [action]
    rw [run_run]
    cases invocation.loaded home machine with
    | error e =>
      exact truthful_of_eq formed rfl (Nat.le_refl 1) fun task asks => absurd asks (other task)
    | ok settings =>
      simp only [runWith, action]
      exact truthful_of_eq formed rfl (Output.status_ofSettings _ _ _)
        fun task asks => absurd asks (other task)
  | manage task =>
    cases ready : invocation.manager? home machine with
    | none =>
      obtain ⟨same, failed⟩ := run_of_manager?_eq_none action ready
      rw [failed]
      exact truthful_of_eq formed (congrArg _ same) (Nat.le_refl 1) fun _ _ _ => rfl
    | some manager =>
      rw [run_of_manager?_eq_some action ready]
      cases requests : request? manager machine task with
      | none =>
        obtain ⟨same, small, failed⟩ := @carryOut_of_no_request _ _ _ invocation.json requests
        refine truthful_of_eq formed same small fun other asks change => failed ?_
        cases asks.symm.trans action
        exact change
      | some request =>
        rw [carryOut_of_request? requests]
        exact truthful_of_request formed ready action requests

/-- The exit status tells the truth for all arguments that can be read. Others end the run at once,
without success unless they ask for help or the version. -/
theorem program_status (environment : Environment) (arguments : List Text) (machine : Machine)
    (formed : machine.disk.WellFormed) :
    let run := (program environment arguments).run machine
    match read environment arguments with
    | .ok invocation => invocation.Truthful environment.home machine run.1 run.2.status
    | .error refusal => run.1 = machine ∧ run.2.status = if refusal = .misuse then 2 else 0 := by
  unfold program
  cases read environment arguments with
  | ok invocation => exact truthful_run formed invocation environment.home
  | error refusal => cases refusal <;> exact ⟨rfl, rfl⟩

/-- A share is added and one of the units is restarted, but the other one is not. -/
theorem program_status_half_restarted :
    let environment : Environment := { conf := some "/smb.conf".toList }
    let arguments := ["add".toList, "m".toList, "/srv".toList]
    let machine : Machine :=
      { disk := (Disk.put {} ["srv".toList] .directory).put ["smb.conf".toList]
          (.file (Utf8.encode "[global]\n".toList) 0o644)
        course := fun index _ => .ends { status := .exited index } 5 }
    let run := (program environment arguments).run machine
    run.2.status = 2 ∧ ∃ invocation cause, read environment arguments = .ok invocation ∧
      invocation.Saves environment.home machine run.1 (.error cause) := by
  intro environment arguments machine run
  let spec : ShareSpec := { name := "m".toList, path := "/srv".toList }
  let invocation : Invocation := ⟨.manage (.add spec), none, environment.conf, false⟩
  have formed : machine.disk.WellFormed := by decide +kernel
  have understood : read environment arguments = .ok invocation := by decide +kernel
  have warned : run.2.status = 2 := by decide +kernel
  have truthful := program_status environment arguments machine formed
  rw [understood] at truthful
  obtain ⟨cause, saves⟩ := truthful.warned warned
  exact ⟨warned, invocation, cause, understood, saves⟩

/-- An option that does not exist: the status is that of a change that was saved, and nothing was. -/
theorem misuse_status_same_as_saved :
    let environment : Environment := { conf := some "/smb.conf".toList }
    let arguments := ["list".toList, "--frobnicate".toList]
    let machine : Machine :=
      { disk := Disk.put {} ["smb.conf".toList] (.file (Utf8.encode "[global]\n".toList) 0o644) }
    let run := (program environment arguments).run machine
    run.2.status = 2 ∧ run.1 = machine := by
  intro environment arguments machine run
  have misused : read environment arguments = .error .misuse := by decide +kernel
  have ended : run = (machine, Output.ofRefusal .misuse) := by
    simp only [run, program, misused, Script.run_done]
  rw [ended]
  exact ⟨rfl, rfl⟩

end Invocation

end SambaShares
