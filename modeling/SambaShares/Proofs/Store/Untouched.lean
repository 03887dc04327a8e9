import SambaShares.Proofs.Store.Live
/-!
What saving does not touch before it replaces the live file: the live path, provided that nothing
that is made on the way can stand in its place, and the backups that there were.
-/

namespace SambaShares

namespace Store

open Disk

variable {store : Store} {before disk after : Disk} {path name : Text} {content : Bytes}

/-- The live path is neither the backup directory nor one that it stands in. -/
def LiveApart (store : Store) (disk : Disk) : Prop :=
  ∀ above ∈ Path.ancestors store.backupDir, disk.placeOf above ≠ disk.placeOf store.confPath

instance (store : Store) (disk : Disk) : Decidable (store.LiveApart disk) :=
  inferInstanceAs (Decidable (∀ above ∈ Path.ancestors store.backupDir,
    disk.placeOf above ≠ disk.placeOf store.confPath))

/-- If there is no live file, it is not to have a name that an unfinished file may have. -/
def LiveNamed (store : Store) (disk : Disk) : Prop :=
  disk.node? (disk.placeOf store.confPath) = none →
    ∀ name, Path.fileName? store.confPath = some name → ¬Unfinished name

/-- The live path keeps what it leads to when files of other names are made. -/
theorem keeps_live {names : Text → Prop} (formed : before.WellFormed)
    (apart : store.LiveApart before) (grows : Grows (store.Beside before names) before after)
    (others : ∀ name, names name → before.node? (before.placeOf store.confPath) = none →
      Path.fileName? store.confPath ≠ some name) : Keeps before after store.confPath := by
  refine grows.keeps formed fun place node made free there leads => ?_
  have placed : place = before.placeOf store.confPath :=
    (grows.formed.locate_eq_placeOf leads).trans (placeOf_congr grows.here _)
  rcases made with ⟨-, above, member, same⟩ | ⟨name, up, content, mode, rfl, rfl, given⟩
  · exact apart above member (same.symm.trans placed)
  · exact others name given (placed ▸ free) (fileName?_of_live grows.formed leads there)

/-- Each backup that there was is still there. -/
def BackupsKept (store : Store) (before after : Disk) : Prop :=
  ∀ place node, store.BackupPlace before place → before.node? place = some node →
    after.node? place = some node

/-- The live path and the backups are as they were. If a directory that was missing on the way to the live
path has been made, a file that stood there may be found only now. -/
structure Untouched (store : Store) (before after : Disk) : Prop where
  live : Keeps before after store.confPath
  backups : store.BackupsKept before after

theorem untouched_of_grows {names : Text → Prop} (formed : before.WellFormed)
    (apart : store.LiveApart before) (grows : Grows (store.Beside before names) before after)
    (others : ∀ name, names name → before.node? (before.placeOf store.confPath) = none →
      Path.fileName? store.confPath ≠ some name) : store.Untouched before after :=
  ⟨keeps_live formed apart grows others, fun _ _ _ => grows.kept⟩

/-- A directory on the way to the backups is not the live path. -/
theorem untouched_of_directories (formed : before.WellFormed) (apart : store.LiveApart before)
    (grows : Grows (store.BackupDirectory before) before after) : store.Untouched before after := by
  have beside : Grows (store.Beside before fun _ => False) before after :=
    grows.mono fun _ _ => Or.inl
  exact untouched_of_grows formed apart beside fun _ none => none.elim

/-- A backup is not the live file. -/
theorem BackedUp.untouched (formed : before.WellFormed) (apart : store.LiveApart before)
    (backup : store.BackedUp before after path name content) : store.Untouched before after :=
  untouched_of_grows formed apart backup.beside fun _ start _ live =>
    not_isPrefixOf_of_fileName? live start

end Store

end SambaShares
