import SambaShares.Proofs.Manager.Outcome
/-!
The backup that a change reports. It holds the live file as it was before the change, byte for byte,
unless it is pruned at once, and whether it is follows from the names beside it.
-/

namespace SambaShares

namespace Manager

variable {manager : Manager} {machine : Machine} {request : Request} {backup : Text}
variable {restarted : Except RestartError Unit}

theorem reported_inj {first second : Text} {ended other : Except RestartError Unit}
    (same : reported first ended = reported second other) : first = second := by
  rcases ended with cause | _ <;> rcases other with reason | _ <;> cases same <;> rfl

/-- A change whose document could be saved ends as the restart does. -/
theorem result_of_persist (looks : ∀ path, (manager.probe path).OnlyAsks Effect.looks)
    {current next : Document} (loaded : (manager.load.run machine).2 = .ok current)
    (planned : ((manager.plan current request).run machine).2 = .ok next)
    (persisted : ((manager.store.persist current next).run machine).2 = .ok backup) :
    ((manager.change request).run machine).2 =
      reported backup ((manager.service.restartWithin manager.restartLimit).run machine).2 := by
  have changes := changes_of_change looks machine request
  generalize ((manager.change request).run machine).2 = result at changes
  cases changes with
  | unread failed =>
    rw [loaded] at failed
    cases failed
  | refused other failed =>
    rw [loaded, Except.ok.injEq] at other
    rw [← other, planned] at failed
    cases failed
  | unsaved other more failed =>
    rw [loaded, Except.ok.injEq] at other
    rw [← other, planned, Except.ok.injEq] at more
    rw [← other, ← more, persisted] at failed
    cases failed
  | saved other more done =>
    rw [loaded, Except.ok.injEq] at other
    rw [← other, planned, Except.ok.injEq] at more
    rw [← other, ← more, persisted, Except.ok.injEq] at done
    rw [done]

/-- A change that is in effect has saved the live file, and then pruned the backups. -/
theorem saved_of_reported (stamped : ∀ time, '/' ∉ manager.store.stamp time)
    (looks : ∀ path, (manager.probe path).OnlyAsks Effect.looks)
    (formed : machine.disk.WellFormed)
    (made : ((manager.change request).run machine).2 = reported backup restarted) :
    ∃ current next replaced name, Utf8.encode current.render =
        manager.store.liveBytes machine.disk ∧
      manager.store.Saved current next machine.disk replaced.disk backup name ∧
      ((manager.change request).run machine).1.disk =
        (manager.store.prune.run replaced).1.disk := by
  have changes : manager.Changes request machine ((manager.change request).run machine).1.disk
      (((manager.change request).asked machine).filter Effect.starts) (reported backup restarted) :=
    made ▸ changes_of_change looks machine request
  generalize ended : reported backup restarted = result at changes
  have done : committed result = true := by rw [← ended, committed_reported]
  cases changes with
  | unread => cases done
  | refused => cases done
  | unsaved =>
    rw [committed_ofStore] at done
    cases done
  | @saved current next other loaded planned persisted left =>
    cases reported_inj ended
    have ending := manager.store.persist_persistence stamped formed current next
    rw [persisted] at ending
    obtain ⟨replaced, name, saved, last⟩ := ending
    rw [last] at left
    exact ⟨current, next, replaced, name, Store.encode_render_of_load (load_eq_ok loaded), saved,
      left⟩

/-- What the backup that a change reports is read as afterwards: the live file as it was before, but
if as many backups as are kept come after it by their names, it is gone with the surplus. -/
theorem read_reported_backup (stamped : ∀ time, '/' ∉ manager.store.stamp time)
    (looks : ∀ path, (manager.probe path).OnlyAsks Effect.looks)
    (formed : machine.disk.WellFormed) (request : Request)
    (made : ((manager.change request).run machine).2 = reported backup restarted) :
    let store := manager.store
    let place := store.backupPlace machine.disk
    let after := ((manager.change request).run machine).1.disk
    ∃ name, backup = Path.join store.backupDir name ∧ machine.disk.node? (name :: place) = none ∧
      after.read backup =
        if store.backupDir ≠ [] ∧ store.maxBackups ≠ 0 ∧ store.maxBackups ≤
          (Text.laterThan name (store.backupNames (after.namesIn place))).length
        then .error .noEntry else .ok (store.liveBytes machine.disk) := by
  intro store place after
  obtain ⟨current, next, replaced, name, read, saved, left⟩ :=
    saved_of_reported stamped looks formed made
  have same : after = (store.prune.run replaced).1.disk := left
  refine ⟨name, saved.named, saved.free, ?_⟩
  rw [same, saved.read_prune, read]

/-- With all backups kept, the reported one is there. -/
theorem read_reported_backup_unbounded :
    let manager : Manager :=
      { store := { confPath := "/smb.conf".toList, backupDir := "/b".toList, maxBackups := 0 }
        service := ⟨[], []⟩ }
    let disk : Disk := Disk.put {} ["b".toList] .directory
    let machine : Machine :=
      { disk := disk.put ["smb.conf".toList] (.file (Utf8.encode "[global]".toList) 0o644) }
    let request : Request := .add { name := "m".toList, path := "/b".toList }
    let backup := "/b/smb.conf.backup.19700101_000000.000000".toList
    ((manager.change request).run machine).2 = .ok backup ∧
      ((manager.change request).run machine).1.disk.read backup =
        .ok (Utf8.encode "[global]".toList) := by
  intro manager disk machine request backup
  have made : ((manager.change request).run machine).2 = reported backup (.ok ()) := by
    decide +kernel
  have formed : machine.disk.WellFormed := by decide +kernel
  obtain ⟨name, -, -, read⟩ :=
    @read_reported_backup manager machine backup (.ok ()) Stamp.whole_text onlyAsks_probe formed
      request made
  rw [if_neg (by simp [manager])] at read
  refine ⟨made, read.trans ?_⟩
  decide +kernel

/-- A single name that comes after all points in time makes every new backup the surplus one. -/
theorem reported_backup_gone :
    let manager : Manager :=
      { store := { confPath := "/smb.conf".toList, backupDir := "/b".toList, maxBackups := 1 }
        service := ⟨[], []⟩ }
    let disk : Disk := Disk.put {} ["b".toList] .directory
    let beside := disk.put ["smb.conf.backup.z".toList, "b".toList] (.file [] 0o600)
    let machine : Machine :=
      { disk := beside.put ["smb.conf".toList] (.file (Utf8.encode "[global]".toList) 0o644) }
    let request : Request := .add { name := "m".toList, path := "/b".toList }
    let backup := "/b/smb.conf.backup.19700101_000000.000000".toList
    ((manager.change request).run machine).2 = .ok backup ∧
      ((manager.change request).run machine).1.disk.read backup = .error .noEntry := by
  intro manager disk beside machine request backup
  let old := Document.parse "[global]".toList
  let new := old.push (ShareSpec.toBlock { name := "m".toList, path := "/b".toList })
  have persisted : ((manager.store.persist old new).run machine).2 = .ok backup := by
    rw [Store.result_persist]
    decide +kernel
  have made : ((manager.change request).run machine).2 = reported backup (.ok ()) :=
    result_of_persist onlyAsks_probe (by decide +kernel)
      (by decide +kernel) persisted
  have formed : machine.disk.WellFormed := by decide +kernel
  obtain ⟨current, next, replaced, name, -, saved, left⟩ :=
    @saved_of_reported manager machine request backup (.ok ()) Stamp.whole_text onlyAsks_probe
      formed made
  have known : name = "smb.conf.backup.19700101_000000.000000".toList := by
    have joined : Path.join manager.store.backupDir name = Path.join manager.store.backupDir
        "smb.conf.backup.19700101_000000.000000".toList := saved.named.symm
    exact Path.join_inj saved.isEntry.some saved.isEntry.whole (by decide) (by decide) joined
  subst known
  refine ⟨made, ?_⟩
  rw [left]
  refine saved.read_prune_of_later (by decide) (by decide) ?_
  have listed : "smb.conf.backup.z".toList ∈ manager.store.backupNames
      (machine.disk.namesIn (manager.store.backupPlace machine.disk)) :=
    Store.mem_backupNames.2 ⟨Disk.mem_namesIn.2 (by decide +kernel), by decide +kernel⟩
  exact List.length_pos_of_mem (Text.mem_laterThan.2 ⟨listed, by decide⟩)

end Manager

end SambaShares
