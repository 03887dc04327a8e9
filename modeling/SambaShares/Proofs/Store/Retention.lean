import SambaShares.Proofs.Stamp
import SambaShares.Proofs.Store.Saved
import SambaShares.Proofs.Text.Bytewise
/-!
What pruning leaves. Of the entries whose names begin like those of backups, in the order of the bytes
of their names, the first ones beyond the number to keep are surplus. Each of them that is a file and
can be reached by its path is gone afterwards, the others stay, and nothing else is touched; whatever
can be removed of them, the result is the same.
-/

namespace SambaShares

namespace Store

open Disk

variable {store : Store} {machine : Machine} {before after : Disk} {old new : Document}
variable {names entries : List Text} {path name : Text}

/-- The backups among the names in a directory, in the order of their bytes. -/
structure Lineup (store : Store) (names backups : List Text) : Prop where
  perm : backups.Perm (names.filter store.backupStart.isPrefixOf)
  increasing : backups.Pairwise fun first second => Utf8.encode first < Utf8.encode second

theorem lineup_backupNames (store : Store) (once : names.Nodup) :
    store.Lineup names (store.backupNames names) :=
  ⟨List.mergeSort_perm _ _, (store.sorted_backupNames once).bytewise⟩

/-- A file in the backup directory whose path is no longer than paths may be. -/
structure Removable (store : Store) (disk : Disk) (name : Text) : Prop where
  file : ∃ content mode, disk.node? (name :: store.backupPlace disk) = some (.file content mode)
  short : Utf8.size (Path.join store.backupDir name) ≤ longestPath

/-- `after` is `before` without those of these entries of the backup directory that can be removed. -/
structure Prunes (store : Store) (entries : List Text) (before after : Disk) : Prop where
  gone : ∀ name ∈ entries, store.Removable before name →
    after.node? (name :: store.backupPlace before) = none
  kept : ∀ place, (∀ name ∈ entries, store.Removable before name →
    place ≠ name :: store.backupPlace before) → after.node? place = before.node? place

theorem Prunes.kept_entry (prunes : store.Prunes entries before after)
    (stays : name ∈ entries → ¬store.Removable before name) :
    after.node? (name :: store.backupPlace before) =
      before.node? (name :: store.backupPlace before) := by
  refine prunes.kept _ fun other member removable same => ?_
  rw [List.cons.injEq] at same
  obtain ⟨rfl, -⟩ := same
  exact stays member removable

theorem prunes_prune (formed : machine.disk.WellFormed) (ready : store.Ready machine.disk)
    (bound : store.maxBackups ≠ 0) :
    store.Prunes (store.surplus (machine.disk.namesIn (store.backupPlace machine.disk)))
      machine.disk (store.prune.run machine).1.disk := by
  have victims := ready.victims formed bound
  rw [(prune_eq_removeAll store machine).1]
  constructor
  · intro name member removable
    obtain ⟨content, mode, there⟩ := removable.file
    have entry := (formed.up there).2
    have leads := formed.locate_join ready.leads ready.directory entry removable.short
    refine node?_removeAll formed ?_ leads (Path.endsInSlash_join entry.some entry.whole)
      (Or.inr ⟨content, mode, there⟩)
    rw [victims]
    exact List.mem_map_of_mem member
  · intro place others
    have loses := loses_removeAll formed (store.victims machine.disk) _ (Script.run_mem_states _ _)
    rcases loses.node place with same | ⟨⟨path, member, leads⟩, -, content, mode, there⟩
    · exact same
    · obtain ⟨name, surplus, rfl, placed⟩ := mem_victims formed member
      have here := (formed.locate_eq_placeOf leads).trans placed
      exact absurd here (others name surplus ⟨⟨content, mode, here ▸ there⟩, size_le_of_locate leads⟩)

/-- The backups among these names that are no surplus. -/
def retained (store : Store) (names : List Text) : List Text :=
  (store.backupNames names).drop ((store.backupNames names).length - store.maxBackups)

theorem surplus_append_retained (store : Store) (names : List Text) :
    store.surplus names ++ store.retained names = store.backupNames names :=
  List.take_append_drop _ _

theorem not_mem_surplus_of_mem_retained (once : names.Nodup) (back : name ∈ store.retained names) :
    name ∉ store.surplus names := fun front =>
  List.disjoint_take_drop (store.sorted_backupNames once).once (Nat.le_refl _) front back

/-- If all backups can be removed, the surplus ones are gone and the others are left. -/
theorem Prunes.backupNames_eq
    (prunes : store.Prunes (store.surplus (before.namesIn (store.backupPlace before))) before after)
    (removable : ∀ name ∈ store.backupNames (before.namesIn (store.backupPlace before)),
      store.Removable before name) :
    store.backupNames (after.namesIn (store.backupPlace before)) =
      store.retained (before.namesIn (store.backupPlace before)) := by
  have once := nodup_namesIn before (store.backupPlace before)
  have parts := store.surplus_append_retained (before.namesIn (store.backupPlace before))
  refine (store.sorted_backupNames (nodup_namesIn _ _)).eq_of_mem_iff
    ((store.sorted_backupNames once).drop _) fun name => ?_
  rw [mem_backupNames, mem_namesIn]
  constructor
  · rintro ⟨there, backup⟩
    have listed : name ∈ store.backupNames (before.namesIn (store.backupPlace before)) := by
      rw [mem_backupNames, mem_namesIn]
      refine ⟨?_, backup⟩
      by_contra free
      rw [prunes.kept_entry, Option.not_isSome_iff_eq_none.1 free] at there
      · cases there
      · rintro - ⟨⟨content, mode, file⟩, -⟩
        exact free (by simp [file])
    have spared : name ∉ store.surplus (before.namesIn (store.backupPlace before)) := by
      intro surplus
      rw [prunes.gone name surplus (removable name listed)] at there
      cases there
    rw [← parts, List.mem_append] at listed
    exact listed.resolve_left spared
  · intro back
    have listed := mem_backupNames.1 (List.mem_of_mem_drop back)
    rw [mem_namesIn] at listed
    refine ⟨?_, listed.2⟩
    rw [prunes.kept_entry fun surplus => absurd surplus (not_mem_surplus_of_mem_retained once back)]
    exact listed.1

/-- What saving leaves of the backups that were there when the live file had been replaced. -/
structure Retains (store : Store) (replaced : Disk) (left : Machine) (names backups : List Text) :
    Prop where
  listed : replaced.list store.backupDir = .ok names
  lineup : store.Lineup names backups
  prunes : store.Prunes (backups.take (backups.length - store.maxBackups)) replaced left.disk
  rest : (∀ name ∈ backups, store.Removable replaced name) →
    (store.listBackups.run left).2 =
      .ok ((backups.drop (backups.length - store.maxBackups)).map (Path.join store.backupDir))
  count : (backups.drop (backups.length - store.maxBackups)).length =
    min store.maxBackups backups.length

theorem retains_prune (formed : machine.disk.WellFormed) (ready : store.Ready machine.disk)
    (bound : store.maxBackups ≠ 0) :
    ∃ names backups, store.Retains machine.disk (store.prune.run machine).1 names backups := by
  have prunes := prunes_prune formed ready bound
  have loses := loses_prune store formed _ (Script.run_mem_states _ machine)
  refine ⟨_, store.backupNames (machine.disk.namesIn (store.backupPlace machine.disk)),
    ready.list_eq formed, store.lineup_backupNames (nodup_namesIn _ _), prunes, ?_, ?_⟩
  · intro removable
    have ways : machine.disk.KeepsWays (store.prune.run machine).1.disk :=
      ⟨loses.here, fun _ => loses.directory⟩
    have readyLeft := ready.of_keepsWays ways formed loses.formed
    rw [readyLeft.listBackups_run loses.formed, store.backupPlace_congr loses.here,
      prunes.backupNames_eq removable, retained]
  · rw [List.length_drop]
    omega

/-- A backup leads through the directory that it was made in. -/
theorem Saved.ready (saved : store.Saved old new before after path name)
    (given : store.backupDir ≠ []) : store.Ready after := by
  have leads := saved.leads
  rw [← store.backupPlace_congr saved.here] at leads
  exact ⟨saved.formed.locate_of_join given leads, (saved.formed.locate_cons leads).1⟩

theorem ready_of_replace (stamped : ∀ time, '/' ∉ store.stamp time)
    (formed : machine.disk.WellFormed) (given : store.backupDir ≠ [])
    (done : ((store.replace old new).run machine).2 = .ok path) :
    let replaced := ((store.replace old new).run machine).1
    replaced.disk.WellFormed ∧ store.Ready replaced.disk := by
  have ending := (replace_ensures stamped formed old new).2
  rw [done] at ending
  obtain ⟨name, saved⟩ := ending
  exact ⟨saved.formed, saved.ready given⟩

/-- Once the live file is replaced, saving is pruning. -/
theorem persist_run_of_replace (done : ((store.replace old new).run machine).2 = .ok path) :
    ((store.persist old new).run machine).1 =
      (store.prune.run ((store.replace old new).run machine).1).1 := by
  rw [persist_eq_replace, Script.run_andThen, done]
  simp only [Script.run_bind, Script.run_done]

/-- Once the live file is replaced saving succeeds, and of the backups that are there then it leaves
all but the surplus ones that can be removed. -/
theorem persist_retains (stamped : ∀ time, '/' ∉ store.stamp time)
    (formed : machine.disk.WellFormed) (given : store.backupDir ≠ [])
    (bound : store.maxBackups ≠ 0) (old new : Document)
    (done : ((store.replace old new).run machine).2 = .ok path) :
    ((store.persist old new).run machine).2 = .ok path ∧
      ∃ names backups, store.Retains ((store.replace old new).run machine).1.disk
        ((store.persist old new).run machine).1 names backups := by
  obtain ⟨formedReplaced, ready⟩ := ready_of_replace stamped formed given done
  refine ⟨(store.result_persist old new machine).trans done, ?_⟩
  rw [persist_run_of_replace done]
  exact retains_prune formedReplaced ready bound

/-- Two are to be kept of a directory, an older file, the new backup and a later file: the first two are
surplus, and only the file can be removed. -/
theorem persist_retains_directory :
    let store : Store :=
      { confPath := "/smb.conf".toList, backupDir := "/b".toList, maxBackups := 2 }
    let first : Disk := Disk.put {} ["b".toList] .directory
    let second := first.put ["smb.conf.backup.0".toList, "b".toList] .directory
    let third := second.put ["smb.conf.backup.1".toList, "b".toList] (.file [] 0o600)
    let machine : Machine :=
      { disk := third.put ["smb.conf.backup.z".toList, "b".toList] (.file [] 0o600) }
    let old := Document.parse "[a]".toList
    let new := Document.parse "[b]".toList
    ((store.replace old new).run machine).2 = .ok (store.backupPath 0) ∧
      ((store.persist old new).run machine).2 = .ok (store.backupPath 0) ∧
      ∃ names backups, store.Retains ((store.replace old new).run machine).1.disk
        ((store.persist old new).run machine).1 names backups := by
  intro store first second third machine old new
  have formed : machine.disk.WellFormed := by decide +kernel
  have done : ((store.replace old new).run machine).2 = .ok (store.backupPath 0) := by
    decide +kernel
  exact ⟨done, @persist_retains store machine _ Stamp.whole_text formed (by decide) (by decide)
    old new done⟩

set_option maxRecDepth 100000 in
/-- A file among the surplus backups that the backup directory can hold, but whose path is too long,
is still there when saving is done. -/
theorem persist_keeps_long_path :
    let store : Store :=
      { confPath := "/smb.conf".toList, backupDir := "/b".toList ++ List.replicate 3850 '/',
        maxBackups := 1 }
    let earlier : Text := "smb.conf.backup.".toList ++ List.replicate 239 '0'
    let directory : Disk := Disk.put {} ["b".toList] .directory
    let machine : Machine := { disk := directory.put [earlier, "b".toList] (.file [] 0o600) }
    let old := Document.parse "[a]".toList
    let new := Document.parse "[b]".toList
    let replaced := ((store.replace old new).run machine).1.disk
    let backups := [earlier, store.backupStart ++ store.stamp 0]
    ((store.persist old new).run machine).2 = .ok (store.backupPath 0) ∧
      replaced.list store.backupDir = .ok backups ∧ store.Lineup backups backups ∧
      earlier ∈ backups.take (backups.length - store.maxBackups) ∧
      replaced.node? [earlier, "b".toList] = some (.file [] 0o600) ∧
      ((store.persist old new).run machine).1.disk.node? [earlier, "b".toList] =
        some (.file [] 0o600) := by
  intro store earlier directory machine old new replaced backups
  have formed : machine.disk.WellFormed := by decide +kernel
  have found : ((store.replace old new).run machine).2 = .ok (store.backupPath 0) ∧
      replaced.list store.backupDir = .ok backups ∧ store.backupPlace replaced = ["b".toList] ∧
      replaced.node? [earlier, "b".toList] = some (.file [] 0o600) := by
    decide +kernel
  have long : ¬Utf8.size (Path.join store.backupDir earlier) ≤ longestPath := by decide +kernel
  have lineup : store.Lineup backups backups := ⟨by decide +kernel, by decide +kernel⟩
  obtain ⟨done, listed, placed, there⟩ := found
  obtain ⟨formedReplaced, ready⟩ :=
    @ready_of_replace store machine old new _ Stamp.whole_text formed (by decide) done
  have stays := @Prunes.kept_entry store _ _ _ earlier
    (prunes_prune formedReplaced ready (by decide)) fun _ removable => long removable.short
  rw [placed] at stays
  have result := (store.result_persist old new machine).trans done
  rw [persist_run_of_replace done]
  exact ⟨result, listed, lineup, List.mem_cons_self, there, stays.trans there⟩

end Store

end SambaShares
