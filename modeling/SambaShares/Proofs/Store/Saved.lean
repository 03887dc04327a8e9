import SambaShares.Proofs.Store.Prune
import SambaShares.Proofs.Store.Untouched
/-!
How saving ends. With the new document as the live file there is a backup of the old one under a
name that was free, and pruning takes it away again just if enough others come after it. Before that
nothing but this backup and directories on the way to it is left.
-/

namespace SambaShares

namespace Store

open Disk

variable {store : Store} {machine : Machine} {before disk after : Disk} {old new : Document}
variable {path name : Text} {content : Bytes}

/-- A backup was made and then the live file replaced. -/
def Saved (store : Store) (old new : Document) (before after : Disk) (path name : Text) : Prop :=
  ∃ middle, store.BackedUp before middle path name (Utf8.encode old.render) ∧
    store.Replaced new middle after

/-- Saving without pruning. -/
def replace (store : Store) (old new : Document) : Script (Except StoreError Text) :=
  (store.writeBackup old).andThen fun backup =>
    (store.writeLive new).andThen fun () => .done (.ok backup)

theorem persist_eq_replace (store : Store) (old new : Document) :
    store.persist old new = (store.replace old new).andThen fun backup =>
      store.prune.bind fun () => .done (.ok backup) := by
  simp only [persist, replace, Script.andThen_assoc]
  rfl

/-- Pruning has no part in the result. -/
theorem result_persist (store : Store) (old new : Document) (machine : Machine) :
    ((store.persist old new).run machine).2 = ((store.replace old new).run machine).2 := by
  rw [persist_eq_replace, Script.run_andThen]
  cases result : ((store.replace old new).run machine).2 with
  | error e => rfl
  | ok path => simp only [Script.run_bind, Script.run_done]

/-- How saving without pruning ends. -/
def Replacement (store : Store) (old new : Document) (before : Disk) :
    Except StoreError Text → Machine → Prop
  | .ok path, state => ∃ name, store.Saved old new before state.disk path name
  | .error (.backup ..), state => Grows (store.BackupDirectory before) before state.disk
  | .error (.write ..), state =>
    ∃ path name, store.BackedUp before state.disk path name (Utf8.encode old.render)
  | .error _, _ => False

theorem replace_ensures (stamped : ∀ time, '/' ∉ store.stamp time)
    (formed : machine.disk.WellFormed) (old new : Document) :
    (store.replace old new).Ensures machine
      (fun state => Grows (store.Beside machine.disk store.GivenName) machine.disk state.disk ∨
        ∃ path name, store.Saved old new machine.disk state.disk path name)
      (store.Replacement old new machine.disk) := by
  have backs := writeBackup_ensures stamped formed old
  refine (backs.mono (fun _ => Or.inl) fun _ _ _ => id).andThen ?_ ?_
  · rintro e state - ⟨⟨path, cause, rfl⟩, grows⟩
    exact grows
  · rintro path state - ⟨name, backup⟩
    have formedState := backup.grows.formed
    have given : Grows (store.Beside machine.disk store.GivenName) machine.disk state.disk :=
      backup.beside.mono (Beside.mono fun _ => Or.inr)
    have replaces := writeLive_ensures store formedState new
    have during : ∀ later : Machine,
        store.Replacing new state.disk later.disk ((store.writeLive new).run state).2 →
        Grows (store.Beside machine.disk store.GivenName) machine.disk later.disk ∨
          ∃ path name, store.Saved old new machine.disk later.disk path name := by
      rintro later (unfinished | ⟨-, replaced⟩)
      · left
        refine given.trans (unfinished.mono ?_)
        rintro place node ⟨name, up, content, mode, shape, file, named⟩
        exact Or.inr ⟨name, up, content, mode, shape, file, Or.inl named⟩
      · exact Or.inr ⟨path, name, state.disk, backup, replaced⟩
    refine (replaces.mono during fun _ _ _ => id).andThen ?_ ?_
    · rintro e later - ⟨⟨path, cause, rfl⟩, same⟩
      exact ⟨_, _, backup.of_nothing formedState same⟩
    · rintro ⟨⟩ later holds replaced
      exact Script.ensures_done.2 ⟨holds, name, state.disk, backup, replaced⟩

theorem Saved.live (saved : store.Saved old new before after path name) : store.Live new after := by
  obtain ⟨middle, -, replaced⟩ := saved
  exact replaced.live

theorem Saved.isPrefixOf (saved : store.Saved old new before after path name) :
    store.backupStart.isPrefixOf name = true := by
  obtain ⟨middle, backup, -⟩ := saved
  exact backup.isPrefixOf

theorem Saved.backupPlace (saved : store.Saved old new before after path name) :
    store.BackupPlace before (name :: store.backupPlace before) :=
  ⟨name, saved.isPrefixOf, rfl⟩

theorem Saved.free (saved : store.Saved old new before after path name) :
    before.node? (name :: store.backupPlace before) = none := by
  obtain ⟨middle, backup, -⟩ := saved
  exact backup.free

theorem Saved.there (saved : store.Saved old new before after path name) :
    after.node? (name :: store.backupPlace before) =
      some (.file (Utf8.encode old.render) 0o600) := by
  have spot := saved.backupPlace
  obtain ⟨middle, backup, replaced⟩ := saved
  rw [replaced.node?_backup spot, backup.there]

theorem Saved.kept (saved : store.Saved old new before after path name) :
    store.BackupsKept before after := by
  obtain ⟨middle, backup, replaced⟩ := saved
  intro place node spot there
  rw [replaced.node?_backup spot, backup.grows.kept there]

/-- Pruning does not touch the live file. -/
theorem Replaced.live_prune (replaced : store.Replaced new disk machine.disk) {state : Machine}
    (member : state ∈ store.prune.states machine) : store.Live new state.disk := by
  obtain ⟨place, puts, apart⟩ := replaced.not_backupPlace
  have loses := loses_prune store puts.formed state member
  have stays : state.disk.node? place = machine.disk.node? place := by
    refine loses.kept ?_
    rintro ⟨name, surplus, same⟩
    exact apart machine.disk ⟨name, isPrefixOf_of_mem_surplus surplus, same⟩
  exact loses.formed.find_of_locate (loses.locate puts.formed puts.leads)
    (stays.trans puts.there) (Or.inr puts.noSlash)

theorem Saved.formed (saved : store.Saved old new before after path name) : after.WellFormed := by
  obtain ⟨middle, -, place, puts⟩ := saved
  exact puts.formed

theorem Saved.here (saved : store.Saved old new before after path name) :
    after.here = before.here := by
  obtain ⟨middle, backup, place, puts⟩ := saved
  exact puts.here.trans backup.grows.here

theorem Saved.leads (saved : store.Saved old new before after path name) :
    after.locate (Path.join store.backupDir name) = .ok (name :: store.backupPlace before) := by
  obtain ⟨middle, backup, place, puts⟩ := saved
  exact puts.locate backup.grows.formed (backup.named ▸ backup.leads)

theorem Saved.named (saved : store.Saved old new before after path name) :
    path = Path.join store.backupDir name := by
  obtain ⟨middle, backup, -⟩ := saved
  exact backup.named

theorem Saved.isEntry (saved : store.Saved old new before after path name) :
    Path.IsEntry name :=
  (saved.formed.locate_cons saved.leads).2

/-- What the new backup is read as when pruning is done. -/
theorem Saved.read_prune {replaced : Machine}
    (saved : store.Saved old new before replaced.disk path name) :
    (store.prune.run replaced).1.disk.read path =
      if store.backupDir ≠ [] ∧ store.maxBackups ≠ 0 ∧
        store.maxBackups ≤ (Text.laterThan name (store.backupNames
          ((store.prune.run replaced).1.disk.namesIn (store.backupPlace before)))).length
      then .error .noEntry else .ok (Utf8.encode old.render) := by
  have formed := saved.formed
  have leads := saved.leads
  have there := saved.there
  have loses := loses_prune store formed _ (Script.run_mem_states _ _)
  have located := loses.locate formed leads
  rw [← store.backupPlace_congr saved.here] at leads there located ⊢
  have left := node?_prune_eq formed leads saved.isPrefixOf there
  rw [saved.named]
  split at left
  · next surplus =>
    have stands : (replaced.disk.node? (name :: store.backupPlace replaced.disk)).isSome := by
      rw [there]
      rfl
    have fits := (formed.closed name _ stands).2
    rw [if_pos surplus]
    exact read_of_none located fits left
  · next spared =>
    have entry := saved.isEntry
    rw [if_neg spared]
    exact loses.formed.read_of_file located left (Path.endsInSlash_join entry.some entry.whole)

/-- As many backups with later names as are kept, there from the beginning, make the new one go. -/
theorem Saved.read_prune_of_later {replaced : Machine}
    (saved : store.Saved old new before replaced.disk path name) (given : store.backupDir ≠ [])
    (bound : store.maxBackups ≠ 0)
    (later : store.maxBackups ≤ (Text.laterThan name (store.backupNames
      (before.namesIn (store.backupPlace before)))).length) :
    (store.prune.run replaced).1.disk.read path = .error .noEntry := by
  have same := store.backupPlace_congr saved.here
  have stands : (replaced.disk.node? (name :: store.backupPlace replaced.disk)).isSome := by
    rw [same, saved.there]
    rfl
  rw [saved.read_prune, if_pos]
  refine ⟨given, bound, ?_⟩
  rw [← same, ← mem_surplus_iff_after_prune saved.formed saved.isPrefixOf stands,
    mem_surplus_iff (nodup_namesIn _ _)
      (mem_backupNames.2 ⟨mem_namesIn.2 stands, saved.isPrefixOf⟩)]
  refine Nat.le_trans later (List.Nodup.subperm ?_ ?_).length_le
  · exact (store.sorted_backupNames (nodup_namesIn _ _)).once.filter _
  · intro other member
    obtain ⟨listed, after⟩ := Text.mem_laterThan.1 member
    obtain ⟨inside, start⟩ := mem_backupNames.1 listed
    obtain ⟨node, there⟩ := Option.isSome_iff_exists.1 (mem_namesIn.1 inside)
    have kept := saved.kept _ node ⟨other, start, rfl⟩ there
    refine Text.mem_laterThan.2 ⟨mem_backupNames.2 ⟨mem_namesIn.2 ?_, start⟩, after⟩
    rw [same, kept]
    rfl

/-- How saving ends. -/
def Persistence (store : Store) (old new : Document) (before : Disk) :
    Except StoreError Text → Machine → Prop
  | .ok path, state => ∃ replaced name,
      store.Saved old new before replaced.disk path name ∧ state = (store.prune.run replaced).1
  | .error e, state => store.Replacement old new before (.error e) state

theorem persist_persistence (stamped : ∀ time, '/' ∉ store.stamp time)
    (formed : machine.disk.WellFormed) (old new : Document) :
    store.Persistence old new machine.disk ((store.persist old new).run machine).2
      ((store.persist old new).run machine).1 := by
  have ending := (replace_ensures stamped formed old new).2
  rw [persist_eq_replace, Script.run_andThen]
  rcases result : ((store.replace old new).run machine).2 with e | path
  · rw [result] at ending
    exact ending
  · rw [result] at ending
    obtain ⟨name, saved⟩ := ending
    simp only [Script.run_bind, Script.run_done]
    exact ⟨_, name, saved, rfl⟩

theorem live_persist (stamped : ∀ time, '/' ∉ store.stamp time)
    (formed : machine.disk.WellFormed)
    (done : ((store.persist old new).run machine).2 = .ok path) :
    store.Live new ((store.persist old new).run machine).1.disk := by
  have ending := persist_persistence stamped formed old new
  rw [done] at ending
  obtain ⟨replaced, name, ⟨middle, -, live⟩, last⟩ := ending
  rw [last]
  exact live.live_prune (Script.run_mem_states _ _)

end Store

end SambaShares
