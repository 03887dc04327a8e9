import SambaShares.Proofs.Store.Backup
/-!
What is listed of the backup directory. Once it can be read it can be read for as long as no way is
lost.
-/

namespace SambaShares

namespace Store

open Disk

variable {store : Store} {before disk after : Disk}

/-- The backup directory is there. -/
structure Ready (store : Store) (disk : Disk) : Prop where
  leads : disk.locate store.backupDir = .ok (store.backupPlace disk)
  directory : disk.node? (store.backupPlace disk) = some .directory

theorem ready_of_list {names : List Text} (formed : disk.WellFormed)
    (listed : disk.list store.backupDir = .ok names) :
    store.Ready disk ∧ names = disk.namesIn (store.backupPlace disk) := by
  obtain ⟨place, leads, directory, rfl⟩ := list_eq_ok listed
  have placed := formed.locate_eq_placeOf leads
  subst placed
  exact ⟨⟨leads, directory⟩, rfl⟩

theorem Ready.list_eq (ready : store.Ready disk) (formed : disk.WellFormed) :
    disk.list store.backupDir = .ok (disk.namesIn (store.backupPlace disk)) := by
  have seen := formed.closed.lookup ready.directory
  simp [Disk.list, ready.leads, seen, bind, Except.bind, pure, Except.pure]

theorem Ready.of_keepsWays (ready : store.Ready before) (ways : before.KeepsWays after)
    (formed : before.WellFormed) (formedAfter : after.WellFormed) : store.Ready after := by
  have same := store.backupPlace_congr ways.here
  constructor
  · rw [same]
    exact ways.locate formed formedAfter ready.leads
  · rw [same]
    exact ways.directory _ ready.directory

theorem Ready.listBackups_run {machine : Machine} (ready : store.Ready machine.disk)
    (formed : machine.disk.WellFormed) :
    (store.listBackups.run machine).2 =
      .ok ((store.backupNames (machine.disk.namesIn (store.backupPlace machine.disk))).map
        (Path.join store.backupDir)) := by
  have answered : (Script.list store.backupDir).run machine =
      (machine, machine.disk.list store.backupDir) := rfl
  rw [listBackups, Script.run_bind, answered, ready.list_eq formed]
  rfl

end Store

end SambaShares
