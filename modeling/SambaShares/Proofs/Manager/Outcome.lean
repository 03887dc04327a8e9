import SambaShares.Manager
import SambaShares.Proofs.Service.Restart
import SambaShares.Proofs.Stamp
import SambaShares.Proofs.Store.Persist
import SambaShares.Proofs.Store.Quiet
/-!
What a change leaves behind, by how it ends. A change that is refused leaves the disk as it is. One
that cannot be saved leaves the live file and the backups as they are, with one backup more if it
failed after that. One that is saved leaves the planned document as the live file, and only then the
service is restarted, once.
-/

namespace SambaShares

namespace Manager

variable {manager : Manager} {machine : Machine} {request : Request}

/-- To look whether a path exists is to look. -/
theorem onlyAsks_probe (path : Text) : (Script.probe path).OnlyAsks Effect.looks :=
  Script.onlyAsks_request rfl

theorem onlyAsks_load (manager : Manager) : manager.load.OnlyAsks Effect.looks :=
  manager.store.onlyAsks_load.bind fun _ => trivial

theorem onlyAsks_plan (looks : ∀ path, (manager.probe path).OnlyAsks Effect.looks)
    (document : Document) (request : Request) :
    (manager.plan document request).OnlyAsks Effect.looks :=
  (looks _).bind fun _ => trivial

theorem onlyAsks_restartWithin (service : Service) (limit : Duration) :
    (service.restartWithin limit).OnlyAsks Effect.starts :=
  (Service.onlyAsks_runAll limit limit.nanos service.restarts).mono
    fun _ => Effect.starts_of_isLimited

theorem load_eq_error {e : ChangeError} (failed : (manager.load.run machine).2 = .error e) :
    ∃ cause, e = .readFailed cause := by
  unfold load at failed
  rw [Script.run_bind, Script.run_done] at failed
  rcases loaded : (manager.store.load.run machine).2 with cause | current
  · rw [loaded] at failed
    cases failed
    rcases Store.load_eq_error loaded with ⟨path, reason, rfl⟩ | ⟨path, offset, rfl⟩
    · exact ⟨_, rfl⟩
    · exact ⟨_, rfl⟩
  · rw [loaded] at failed
    cases failed

theorem load_eq_ok {current : Document} (loaded : (manager.load.run machine).2 = .ok current) :
    (manager.store.load.run machine).2 = .ok current := by
  unfold load at loaded
  rw [Script.run_bind, Script.run_done] at loaded
  rcases found : (manager.store.load.run machine).2 with cause | document
  · rw [found] at loaded
    cases loaded
  · rw [found] at loaded
    exact congrArg Except.ok (Except.ok.inj loaded)

theorem plan_eq_error {current : Document} {e : ChangeError}
    (failed : ((manager.plan current request).run machine).2 = .error e) :
    ∃ cause, e = .rejected cause := by
  unfold plan at failed
  rw [Script.run_bind, Script.run_done] at failed
  generalize request.plan _ current = planned at failed
  rcases planned with cause | next
  · exact ⟨cause, (Except.error.inj failed).symm⟩
  · cases failed

/-- A restart leaves the disk as it is. -/
theorem disk_restart (service : Service) (limit : Duration) (state : Machine) :
    ((service.restartWithin limit).run state).1.disk = state.disk :=
  (onlyAsks_restartWithin service limit).invariant Machine.disk
    (fun state _ starts => state.disk_perform_of_starts starts) state

/-- Saving does not change how a restart goes. -/
theorem restart_after_persist (manager : Manager) (current next : Document) (machine : Machine) :
    let service := manager.service.restartWithin manager.restartLimit
    let state := ((manager.store.persist current next).run machine).1
    service.asked state = service.asked machine ∧
      (service.run state).2 = (service.run machine).2 := by
  intro service state
  have same := (manager.store.quiet_persist current next).invariant
    (fun state => (state.started, state.course)) (fun state _ => state.perform_of_quiet) machine
  rw [Prod.mk.injEq] at same
  exact (onlyAsks_restartWithin _ _).starts_congr same.1 same.2

/-- How a change ends that was saved. -/
def reported (backup : Text) : Except RestartError Unit → Except ChangeError Text
  | .ok () => .ok backup
  | .error cause => .error (.notReconciled backup cause)

/-- All that a change can do: how it ends, what it leaves, and which programs it starts. -/
inductive Changes (manager : Manager) (request : Request) (before : Machine) (after : Disk)
    (starts : List Effect) : Except ChangeError Text → Prop
  | unread {cause : StoreError}
    (failed : (manager.load.run before).2 = .error (.readFailed cause))
    (same : after = before.disk) (silent : starts = []) :
    Changes manager request before after starts (.error (.readFailed cause))
  | refused {current : Document} {cause : ShareError}
    (loaded : (manager.load.run before).2 = .ok current)
    (failed : ((manager.plan current request).run before).2 = .error (.rejected cause))
    (same : after = before.disk) (silent : starts = []) :
    Changes manager request before after starts (.error (.rejected cause))
  | unsaved {current next : Document} {cause : StoreError}
    (loaded : (manager.load.run before).2 = .ok current)
    (planned : ((manager.plan current request).run before).2 = .ok next)
    (failed : ((manager.store.persist current next).run before).2 = .error cause)
    (left : after = ((manager.store.persist current next).run before).1.disk)
    (silent : starts = []) :
    Changes manager request before after starts (.error (.ofStore cause))
  | saved {current next : Document} {backup : Text}
    (loaded : (manager.load.run before).2 = .ok current)
    (planned : ((manager.plan current request).run before).2 = .ok next)
    (done : ((manager.store.persist current next).run before).2 = .ok backup)
    (left : after = ((manager.store.persist current next).run before).1.disk)
    (restarted : starts = (manager.service.restartWithin manager.restartLimit).asked before) :
    Changes manager request before after starts
      (reported backup ((manager.service.restartWithin manager.restartLimit).run before).2)

theorem reconcile_run (manager : Manager) (backup : Text) (state : Machine) :
    (manager.reconcile backup).run state =
      (((manager.service.restartWithin manager.restartLimit).run state).1, reported backup
        ((manager.service.restartWithin manager.restartLimit).run state).2) := by
  unfold reconcile
  rw [Script.run_bind]
  cases ((manager.service.restartWithin manager.restartLimit).run state).2 <;> rfl

theorem reconcile_asked (manager : Manager) (backup : Text) (state : Machine) :
    (manager.reconcile backup).asked state =
      (manager.service.restartWithin manager.restartLimit).asked state := by
  unfold reconcile
  rw [Script.asked_bind]
  cases ((manager.service.restartWithin manager.restartLimit).run state).2 <;>
    exact List.append_nil _

theorem changes_of_change (looks : ∀ path, (manager.probe path).OnlyAsks Effect.looks)
    (machine : Machine) (request : Request) :
    manager.Changes request machine ((manager.change request).run machine).1.disk
      (((manager.change request).asked machine).filter Effect.starts)
      ((manager.change request).run machine).2 := by
  have loads := onlyAsks_load manager
  have quiet := (loads.mono fun _ => Effect.quiet_of_looks).filter_starts_asked machine
  unfold change
  rw [Script.run_andThen, Script.asked_andThen, List.filter_append, quiet, List.nil_append,
    loads.run_of_looks]
  rcases loaded : (manager.load.run machine).2 with e | current
  · obtain ⟨cause, rfl⟩ := load_eq_error loaded
    exact .unread loaded rfl rfl
  have plans := onlyAsks_plan looks current request
  have quiet := (plans.mono fun _ => Effect.quiet_of_looks).filter_starts_asked machine
  dsimp only
  rw [Script.run_andThen, Script.asked_andThen, List.filter_append, quiet, List.nil_append,
    plans.run_of_looks]
  rcases planned : ((manager.plan current request).run machine).2 with e | next
  · obtain ⟨cause, rfl⟩ := plan_eq_error planned
    exact .refused loaded planned rfl rfl
  have silent := (manager.store.quiet_persist current next).filter_starts_asked machine
  have restart := manager.restart_after_persist current next machine
  dsimp only
  rw [Script.run_andThen, Script.asked_andThen, List.filter_append]
  simp only [saved, Script.run_bind, Script.run_done, Script.asked_bind, Script.asked,
    List.append_nil, silent, List.nil_append]
  rcases result : ((manager.store.persist current next).run machine).2 with cause | backup
  · exact .unsaved loaded planned result rfl rfl
  · have starts := onlyAsks_restartWithin manager.service manager.restartLimit
    have same : Except.mapError ChangeError.ofStore (.ok backup : Except StoreError Text) =
        .ok backup := rfl
    rw [same]
    dsimp only
    rw [reconcile_run, reconcile_asked, starts.filter_starts_asked_of_starts, restart.1, restart.2]
    exact .saved loaded planned result (disk_restart _ _ _) rfl

/-- Whether a change that ends so is in effect on the disk. -/
def committed : Except ChangeError Text → Bool
  | .ok _ => true
  | .error e => e.isCommitted

/-- What is left on the disk when a change ends so. -/
def Outcome (manager : Manager) (request : Request) (before : Machine) (after : Disk) :
    Except ChangeError Text → Prop
  | .error (.rejected _) => after = before.disk
  | .error (.readFailed _) => after = before.disk
  | .error (.backupFailed _) => manager.store.Untouched before.disk after ∧
    Disk.Grows (manager.store.BackupDirectory before.disk) before.disk after
  | .error (.writeFailed _) => manager.store.Untouched before.disk after ∧
    ∃ current path name, (manager.load.run before).2 = .ok current ∧
      manager.store.BackedUp before.disk after path name (Utf8.encode current.render)
  | .error (.notReconciled ..) | .ok _ => ∃ current next,
    (manager.load.run before).2 = .ok current ∧
      ((manager.plan current request).run before).2 = .ok next ∧ manager.store.Live next after

theorem committed_reported (backup : Text) (restarted : Except RestartError Unit) :
    committed (reported backup restarted) = true := by
  cases restarted <;> rfl

theorem committed_ofStore (cause : StoreError) :
    committed (.error (.ofStore cause)) = false := by
  cases cause <;> rfl

/-- A document that could not be saved. -/
theorem outcome_unsaved (stamped : ∀ time, '/' ∉ manager.store.stamp time)
    (formed : machine.disk.WellFormed) (apart : manager.store.LiveApart machine.disk)
    {current next : Document} {cause : StoreError}
    (loaded : (manager.load.run machine).2 = .ok current)
    (failed : ((manager.store.persist current next).run machine).2 = .error cause) :
    manager.Outcome request machine ((manager.store.persist current next).run machine).1.disk
      (.error (.ofStore cause)) := by
  have ending := manager.store.persist_persistence stamped formed current next
  rw [failed] at ending
  cases cause with
  | backup path cause => exact ⟨Store.untouched_of_directories formed apart ending, ending⟩
  | write path cause =>
    obtain ⟨path, name, backup⟩ := ending
    exact ⟨backup.untouched formed apart, current, path, name, loaded, backup⟩
  | read => exact ending.elim
  | notUtf8 => exact ending.elim

/-- What a change leaves on the disk, and when it restarts the service: a change that is in effect
restarts it once and ends as the restart does, any other change does not restart it. -/
theorem change_outcome (stamped : ∀ time, '/' ∉ manager.store.stamp time)
    (looks : ∀ path, (manager.probe path).OnlyAsks Effect.looks)
    (formed : machine.disk.WellFormed) (apart : manager.store.LiveApart machine.disk)
    (request : Request) :
    let restart := manager.service.restartWithin manager.restartLimit
    let after := ((manager.change request).run machine).1.disk
    let result := ((manager.change request).run machine).2
    manager.Outcome request machine after result ∧
      ((manager.change request).asked machine).filter Effect.starts =
        (if committed result then restart.asked machine else []) ∧
      (committed result = true →
        ∃ backup, result = reported backup (restart.run machine).2) := by
  intro restart after result
  have changes : manager.Changes request machine after
      (((manager.change request).asked machine).filter Effect.starts) result :=
    changes_of_change looks machine request
  generalize ((manager.change request).asked machine).filter Effect.starts = starts at changes ⊢
  clear_value after result
  cases changes with
  | unread _ same silent => exact ⟨same, silent, fun done => absurd done Bool.false_ne_true⟩
  | refused _ _ same silent => exact ⟨same, silent, fun done => absurd done Bool.false_ne_true⟩
  | unsaved loaded planned failed left silent =>
    rw [committed_ofStore]
    refine ⟨?_, silent, fun done => absurd done Bool.false_ne_true⟩
    rw [left]
    exact outcome_unsaved stamped formed apart loaded failed
  | @saved current next backup loaded planned done left restarted =>
    have live := Store.live_persist stamped formed done
    rw [← left] at live
    rw [committed_reported, if_pos rfl]
    refine ⟨?_, restarted, fun _ => ⟨backup, rfl⟩⟩
    rcases (restart.run machine).2 with cause | _
    · exact ⟨current, next, loaded, planned, live⟩
    · exact ⟨current, next, loaded, planned, live⟩

/-- The directory of the live file does not exist: the change fails when it writes there, and the
backup of the built-in configuration stays. -/
theorem change_outcome_write_failed :
    let manager : Manager :=
      { store := { confPath := "/etc/smb.conf".toList, backupDir := "/b".toList }
        service := ⟨[["restart".toList]], []⟩ }
    let machine : Machine := { disk := Disk.put {} ["b".toList] .directory }
    let request : Request := .add { name := "m".toList, path := "/b".toList }
    let after := ((manager.change request).run machine).1.disk
    ((manager.change request).run machine).2 =
        .error (.writeFailed (.write "/etc/smb.conf".toList .noEntry)) ∧
      manager.store.Untouched machine.disk after ∧
      (∃ current path name, (manager.load.run machine).2 = .ok current ∧
        manager.store.BackedUp machine.disk after path name (Utf8.encode current.render)) ∧
      ((manager.change request).asked machine).filter Effect.starts = [] := by
  intro manager machine request after
  have failed : ((manager.change request).run machine).2 =
      .error (.writeFailed (.write "/etc/smb.conf".toList .noEntry)) := by
    decide +kernel
  have formed : machine.disk.WellFormed := by decide +kernel
  have apart : manager.store.LiveApart machine.disk := by decide +kernel
  have outcome := @change_outcome manager machine Stamp.whole_text onlyAsks_probe formed apart
    request
  dsimp only at outcome
  rw [failed] at outcome
  obtain ⟨⟨untouched, backup⟩, silent, -⟩ := outcome
  exact ⟨failed, untouched, backup, silent⟩

/-- Permissions that let a file run as its owner are lost on the way: the document is written after
they were set. -/
theorem change_loses_set_user_id :
    let manager : Manager :=
      { store := { confPath := "/smb.conf".toList, backupDir := "/b".toList, maxBackups := 0,
                   fileMode := 0o4755 }
        service := ⟨[], []⟩ }
    let disk : Disk := Disk.put {} ["b".toList] .directory
    let machine : Machine :=
      { disk := disk.put ["smb.conf".toList] (.file (Utf8.encode "[global]\n".toList) 0o644) }
    let spec : ShareSpec := { name := "m".toList, path := "/b".toList }
    let next := (Document.parse "[global]\n".toList).push spec.toBlock
    ((manager.change (.add spec)).run machine).2 =
        .ok "/b/smb.conf.backup.19700101_000000.000000".toList ∧
      ((manager.change (.add spec)).run machine).1.disk.find "/smb.conf".toList =
        .ok (.file (Utf8.encode next.render) 0o755) ∧
      0o755 ≠ manager.store.fileMode := by
  decide +kernel

end Manager

end SambaShares
