import SambaShares.Proofs.Stamp
import SambaShares.Proofs.Store.Saved
/-!
Saving a document, wherever it is cut off. Until the live file takes its new content in one step it
is as it was, and so are the backups; from then on it holds the new document, and a backup holds the
old one for as long as nothing is pruned.
-/

namespace SambaShares

namespace Store

open Disk

variable {store : Store} {machine : Machine} {old new : Document}

/-- What can be found before anything is pruned. -/
theorem untouched_or_saved (stamped : ∀ time, '/' ∉ store.stamp time)
    (formed : machine.disk.WellFormed) (apart : store.LiveApart machine.disk)
    (named : store.LiveNamed machine.disk) {state : Machine}
    (member : state ∈ (store.replace old new).states machine) :
    store.Untouched machine.disk state.disk ∨
      ∃ path name, store.Saved old new machine.disk state.disk path name := by
  rcases (replace_ensures stamped formed old new).1 state member with grows | saved
  · left
    refine untouched_of_grows formed apart grows ?_
    rintro name (unfinished | start) free live
    · exact named free name live unfinished
    · exact not_isPrefixOf_of_fileName? live start
  · exact Or.inr saved

/-- What is found on the disk when saving is cut off after so many requests: the live path and the
backups as they were, or the new document as the live file, and before anything is pruned also all
backups and a new one that holds the old document. -/
theorem persist_cut_off (stamped : ∀ time, '/' ∉ store.stamp time)
    (formed : machine.disk.WellFormed) (apart : store.LiveApart machine.disk)
    (named : store.LiveNamed machine.disk) (old new : Document) (count : Nat) :
    let left := ((store.persist old new).after count machine).disk
    store.Untouched machine.disk left ∨ store.Live new left ∧
      (count ≤ ((store.replace old new).asked machine).length →
        store.BackupsKept machine.disk left ∧ ∃ place, store.BackupPlace machine.disk place ∧
          machine.disk.node? place = none ∧
            left.node? place = some (.file (Utf8.encode old.render) 0o600)) := by
  intro left
  have found : ∀ state ∈ (store.replace old new).states machine,
      store.Untouched machine.disk state.disk ∨ store.Live new state.disk ∧
        store.BackupsKept machine.disk state.disk ∧ ∃ place, store.BackupPlace machine.disk place ∧
          machine.disk.node? place = none ∧
            state.disk.node? place = some (.file (Utf8.encode old.render) 0o600) := by
    intro state member
    rcases untouched_or_saved stamped formed apart named member with same | ⟨path, name, saved⟩
    · exact Or.inl same
    · exact Or.inr ⟨saved.live, saved.kept, _, saved.backupPlace, saved.free, saved.there⟩
  have cut : left = ((store.persist old new).after count machine).disk := rfl
  rw [persist_eq_replace, Script.andThen, Script.after_bind] at cut
  split at cut
  · next early =>
    rw [cut]
    refine (found _ (Script.after_mem_states _ _ _)).imp id ?_
    rintro ⟨live, rest⟩
    exact ⟨live, fun _ => rest⟩
  · next late =>
    have ending := (replace_ensures stamped formed old new).2
    rcases result : ((store.replace old new).run machine).2 with e | path
    · rw [result] at cut
      dsimp only at cut
      rw [Script.after_done] at cut
      rw [cut]
      refine (found _ (Script.run_mem_states _ _)).imp id ?_
      rintro ⟨live, -⟩
      exact ⟨live, fun early => absurd early late⟩
    · rw [result] at cut ending
      obtain ⟨name, middle, -, replaced⟩ := ending
      right
      rw [cut]
      refine ⟨replaced.live_prune ?_, fun early => absurd early late⟩
      exact Script.mem_states_bind_done.1 (Script.after_mem_states _ _ _)

/-- Cut off right before the last step, with an older backup beside the new one. -/
theorem persist_cut_off_before_rename :
    let store : Store := { confPath := "/smb.conf".toList, backupDir := "/b".toList }
    let directory : Disk := Disk.put {} ["b".toList] .directory
    let earlier := directory.put ["smb.conf.backup.1".toList, "b".toList] (.file [] 0o600)
    let machine : Machine :=
      { disk := earlier.put ["smb.conf".toList] (.file (Utf8.encode "[a]".toList) 0o600) }
    let old := Document.parse "[a]".toList
    let new := Document.parse "[b]".toList
    let left := ((store.persist old new).after 9 machine).disk
    store.Untouched machine.disk left ∨ store.Live new left ∧
      store.BackupsKept machine.disk left ∧ ∃ place, store.BackupPlace machine.disk place ∧
        machine.disk.node? place = none ∧
          left.node? place = some (.file (Utf8.encode old.render) 0o600) := by
  intro store directory earlier machine old new left
  have formed : machine.disk.WellFormed := by decide +kernel
  have apart : store.LiveApart machine.disk := by decide +kernel
  have there : machine.disk.node? (machine.disk.placeOf store.confPath) ≠ none := by decide +kernel
  have named : store.LiveNamed machine.disk := fun none => absurd none there
  have early : 9 ≤ ((store.replace old new).asked machine).length := by decide +kernel
  refine (@persist_cut_off store machine Stamp.whole_text formed apart named old new 9).imp id ?_
  rintro ⟨live, rest⟩
  exact ⟨live, rest early⟩

-- A live file that does not exist may not be named like an unfinished one: the unfinished backup
-- would stand in its place.
example :
    let store : Store :=
      { confPath := "/.smbshare-backup.000000".toList, backupDir := "/".toList }
    let left := ((store.persist (.parse []) (.parse [])).after 3 {}).disk
    Disk.find {} store.confPath = .error .noEntry ∧
      left.find store.confPath = .ok (.file [] 0o600) := by
  decide +kernel

/-- With permissions that let it run as its owner configured, the live file is neither as it was nor
has it these permissions, when saving is cut off after its last step before pruning. -/
theorem persist_loses_set_user_id :
    let store : Store :=
      { confPath := "/smb.conf".toList, backupDir := "/b".toList, fileMode := 0o4755 }
    let directory : Disk := Disk.put {} ["b".toList] .directory
    let machine : Machine :=
      { disk := directory.put ["smb.conf".toList] (.file (Utf8.encode "[a]".toList) 0o600) }
    let new := Document.parse "[b]".toList
    let left := ((store.persist (.parse "[a]".toList) new).after 10 machine).disk
    left.find store.confPath = .ok (.file (Utf8.encode new.render) 0o755) ∧
      left.find store.confPath ≠ .ok (.file (Utf8.encode new.render) store.fileMode) ∧
      left.find store.confPath ≠ machine.disk.find store.confPath := by
  decide +kernel

end Store

end SambaShares
