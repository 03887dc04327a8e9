import Mathlib.Data.List.Perm.Subperm
import SambaShares.Proofs.Store.Listing
import SambaShares.Proofs.Text.Order
/-!
Pruning. Only backups are removed, and which ones follows from the order of their names alone: a
backup goes just if at least as many as are kept come after it.
-/

namespace SambaShares

namespace Store

open Disk

variable {store : Store} {machine : Machine} {names : List Text} {name : Text} {place : Place}
variable {path : Text} {paths : List Text}

theorem mem_backupNames :
    name ∈ store.backupNames names ↔ name ∈ names ∧ store.backupStart.isPrefixOf name = true := by
  rw [backupNames, List.mem_mergeSort, List.mem_filter]

theorem sorted_backupNames (store : Store) (once : names.Nodup) :
    Text.Sorted (store.backupNames names) := by
  refine ⟨?_, (List.mergeSort_perm _ _).nodup_iff.2 (once.filter _)⟩
  refine List.pairwise_mergeSort ?_ Text.lessEq_total _
  exact fun _ _ _ => Text.lessEq_trans

theorem loses_perform_remove (formed : machine.disk.WellFormed) (path : Text) :
    Loses (fun place => machine.disk.locate path = .ok place) machine.disk
      (machine.perform (.remove path)).1.disk := by
  rcases machine.disk_perform_remove path with ⟨cause, -, same⟩ | ⟨after, removed, done⟩
  · rw [same]
    exact .refl formed
  · rw [done]
    exact formed.loses_remove removed

theorem loses_removeAll (formed : machine.disk.WellFormed) (paths : List Text) :
    ∀ state ∈ (removeAll paths).states machine,
      Loses (fun place => ∃ path ∈ paths, machine.disk.locate path = .ok place)
        machine.disk state.disk := by
  induction paths generalizing machine with
  | nil =>
    intro state member
    rw [List.mem_singleton.1 member]
    exact .refl formed
  | cons first rest ih =>
    intro state member
    rcases List.mem_cons.1 member with rfl | later
    · exact .refl formed
    · have one := loses_perform_remove formed first
      refine (one.mono ?_).trans ((ih one.formed state later).mono ?_)
      · exact fun place leads => ⟨first, List.mem_cons_self, leads⟩
      · rintro place ⟨path, inside, leads⟩
        exact ⟨path, List.mem_cons_of_mem _ inside, one.locate_before formed leads⟩

/-- A file at the end of one of the paths is gone in the end. -/
theorem node?_removeAll (formed : machine.disk.WellFormed) (member : path ∈ paths)
    (leads : machine.disk.locate path = .ok place) (noSlash : Path.endsInSlash path = false)
    (file : machine.disk.node? place = none ∨
      ∃ content mode, machine.disk.node? place = some (.file content mode)) :
    ((removeAll paths).run machine).1.disk.node? place = none := by
  induction paths generalizing machine with
  | nil => cases member
  | cons first rest ih =>
    have one := loses_perform_remove formed first
    have stays : ∀ next : Machine, next.disk.WellFormed → next.disk.node? place = none →
        ((removeAll rest).run next).1.disk.node? place = none :=
      fun next formed free => (loses_removeAll formed rest _ (Script.run_mem_states _ _)).free free
    change ((removeAll rest).run (machine.perform (.remove first)).1).1.disk.node? place = none
    rcases file with free | ⟨content, mode, there⟩
    · exact stays _ one.formed (one.free free)
    · rcases List.mem_cons.1 member with rfl | later
      · refine stays _ one.formed ?_
        have seen := formed.closed.lookup there
        have removed : machine.disk.remove path = .ok (machine.disk.erase place) := by
          simp [Disk.remove, leads, noSlash, seen, bind, Except.bind, pure, Except.pure]
        rcases machine.disk_perform_remove path with ⟨cause, refused, -⟩ | ⟨after, done, gone⟩
        · rw [removed] at refused
          cases refused
        · cases removed.symm.trans done
          rw [gone, node?_erase_of_ne_nil _ (ne_nil_of_file there), if_pos rfl]
      · refine ih one.formed later (one.locate formed leads) ?_
        rcases one.node place with same | ⟨-, gone, -⟩
        · exact Or.inr ⟨content, mode, same.trans there⟩
        · exact Or.inl gone

/-- The surplus backups among these names. -/
def surplus (store : Store) (names : List Text) : List Text :=
  (store.backupNames names).take ((store.backupNames names).length - store.maxBackups)

theorem mem_surplus_iff (once : names.Nodup) (member : name ∈ store.backupNames names) :
    name ∈ store.surplus names ↔
      store.maxBackups ≤ (Text.laterThan name (store.backupNames names)).length :=
  (store.sorted_backupNames once).mem_take_iff member store.maxBackups

/-- Whether a backup is surplus can still be seen where only surplus ones are gone. -/
theorem mem_surplus_iff_of_kept {rest : List Text} (once : names.Nodup) (onceLeft : rest.Nodup)
    (inside : ∀ other ∈ rest, other ∈ names)
    (kept : ∀ other ∈ names, other ∉ store.surplus names → other ∈ rest)
    (member : name ∈ store.backupNames names) :
    name ∈ store.surplus names ↔
      store.maxBackups ≤ (Text.laterThan name (store.backupNames rest)).length := by
  have sorted := store.sorted_backupNames once
  constructor
  · intro surplus
    -- The backups that are no surplus all come after this one, and all are left.
    have bound := (mem_surplus_iff once member).1 surplus
    have most : store.maxBackups ≤ (store.backupNames names).length :=
      Nat.le_trans bound (List.length_filter_le _ _)
    have counted : ((store.backupNames names).drop
        ((store.backupNames names).length - store.maxBackups)).length = store.maxBackups := by
      rw [List.length_drop]
      omega
    rw [← counted]
    refine (List.Nodup.subperm (sorted.once.sublist (List.drop_sublist _ _)) ?_).length_le
    intro other back
    have listed := mem_backupNames.1 (List.mem_of_mem_drop back)
    have spared : other ∉ store.surplus names := fun front =>
      List.disjoint_take_drop sorted.once (Nat.le_refl _) front back
    exact Text.mem_laterThan.2 ⟨mem_backupNames.2 ⟨kept other listed.1 spared, listed.2⟩,
      sorted.lessEq_eq_false surplus back⟩
  · intro enough
    refine (mem_surplus_iff once member).2 (Nat.le_trans enough ?_)
    have onceLater := (store.sorted_backupNames onceLeft).once.filter fun other =>
      !Text.lessEq other name
    refine (List.Nodup.subperm onceLater ?_).length_le
    intro other later
    obtain ⟨left, after⟩ := Text.mem_laterThan.1 later
    obtain ⟨listed, backup⟩ := mem_backupNames.1 left
    exact Text.mem_laterThan.2 ⟨mem_backupNames.2 ⟨inside other listed, backup⟩, after⟩

/-- The paths of what is to be removed. -/
def victims (store : Store) (disk : Disk) : List Text :=
  if store.maxBackups = 0 then []
  else match disk.list store.backupDir with
    | .ok names => (store.surplus names).map (Path.join store.backupDir)
    | .error _ => []

theorem Ready.victims {disk : Disk} (ready : store.Ready disk) (formed : disk.WellFormed)
    (bound : store.maxBackups ≠ 0) :
    store.victims disk = (store.surplus (disk.namesIn (store.backupPlace disk))).map
      (Path.join store.backupDir) := by
  rw [Store.victims, if_neg bound, ready.list_eq formed]

/-- Pruning is to remove what is found at its beginning. -/
theorem prune_eq_removeAll (store : Store) (machine : Machine) :
    store.prune.run machine = (removeAll (store.victims machine.disk)).run machine ∧
      ∀ state ∈ store.prune.states machine,
        state ∈ (removeAll (store.victims machine.disk)).states machine := by
  have start : ∀ paths, machine ∈ (removeAll paths).states machine := by
    intro paths
    cases paths <;> exact List.mem_cons_self
  unfold prune victims
  split
  · exact ⟨rfl, fun state => id⟩
  · unfold listBackups Script.list Script.request
    simp only [Script.bind, Script.run, Script.states, Machine.perform]
    cases machine.disk.list store.backupDir with
    | ok names =>
      simp only [Script.bind, List.length_map, ← List.map_take]
      refine ⟨rfl, fun state member => ?_⟩
      rcases List.mem_cons.1 member with rfl | later
      · exact start _
      · exact later
    | error cause =>
      cases cause <;> simp [Script.bind, Script.states, removeAll]

theorem isEntry_of_mem_namesIn {disk : Disk} (formed : disk.WellFormed) {up : Place}
    (member : name ∈ disk.namesIn up) : Path.IsEntry name :=
  formed.entry name up (mem_namesIn.1 member)

theorem mem_victims {disk : Disk} (formed : disk.WellFormed) (member : path ∈ store.victims disk) :
    ∃ name ∈ store.surplus (disk.namesIn (store.backupPlace disk)),
      path = Path.join store.backupDir name ∧
        disk.placeOf path = name :: store.backupPlace disk := by
  unfold victims at member
  split at member
  · cases member
  · split at member
    · next names listed =>
      obtain ⟨-, rfl⟩ := ready_of_list formed listed
      obtain ⟨name, inside, rfl⟩ := List.mem_map.1 member
      have listed := (mem_backupNames.1 (List.mem_of_mem_take inside)).1
      have entry := isEntry_of_mem_namesIn formed listed
      exact ⟨name, inside, rfl, placeOf_join disk _ entry.some entry.whole entry.plain⟩
    · cases member

/-- Pruning removes surplus backups and nothing else, wherever it is cut off. -/
theorem loses_prune (store : Store) (formed : machine.disk.WellFormed) :
    ∀ state ∈ store.prune.states machine,
      Loses (fun place => ∃ name ∈ store.surplus
          (machine.disk.namesIn (store.backupPlace machine.disk)),
        place = name :: store.backupPlace machine.disk) machine.disk state.disk := by
  intro state member
  refine (loses_removeAll formed _ _ ((prune_eq_removeAll store machine).2 _ member)).mono ?_
  rintro place ⟨path, inside, leads⟩
  obtain ⟨name, surplus, -, placed⟩ := mem_victims formed inside
  exact ⟨name, surplus, (formed.locate_eq_placeOf leads).trans placed⟩

theorem isPrefixOf_of_mem_surplus (member : name ∈ store.surplus names) :
    store.backupStart.isPrefixOf name = true :=
  (mem_backupNames.1 (List.mem_of_mem_take member)).2

/-- Whether a backup was surplus can still be seen when the surplus ones are gone. -/
theorem mem_surplus_iff_after_prune (formed : machine.disk.WellFormed)
    (backup : store.backupStart.isPrefixOf name = true)
    (there : (machine.disk.node? (name :: store.backupPlace machine.disk)).isSome) :
    name ∈ store.surplus (machine.disk.namesIn (store.backupPlace machine.disk)) ↔
      store.maxBackups ≤ (Text.laterThan name (store.backupNames
        ((store.prune.run machine).1.disk.namesIn (store.backupPlace machine.disk)))).length := by
  have loses := loses_prune store formed _ (Script.run_mem_states _ _)
  refine mem_surplus_iff_of_kept (nodup_namesIn _ _) (nodup_namesIn _ _) ?_ ?_
    (mem_backupNames.2 ⟨mem_namesIn.2 there, backup⟩)
  · intro other member
    rw [mem_namesIn] at member ⊢
    by_contra missing
    rw [loses.free (Option.not_isSome_iff_eq_none.1 missing)] at member
    cases member
  · intro other member spared
    rw [mem_namesIn] at member ⊢
    rwa [loses.kept]
    rintro ⟨gone, surplus, same⟩
    rw [List.cons.injEq] at same
    exact spared (same.1 ▸ surplus)

section

variable (formed : machine.disk.WellFormed)
variable (leads : machine.disk.locate (Path.join store.backupDir name) =
  .ok (name :: store.backupPlace machine.disk))
include formed leads

/-- A backup that a path leads to is to be removed if it is surplus, provided that there is a bound
and that the backup directory has a name. -/
theorem mem_victims_iff :
    Path.join store.backupDir name ∈ store.victims machine.disk ↔
      store.backupDir ≠ [] ∧ store.maxBackups ≠ 0 ∧
        name ∈ store.surplus (machine.disk.namesIn (store.backupPlace machine.disk)) := by
  constructor
  · intro member
    obtain ⟨other, surplus, -, placed⟩ := mem_victims formed member
    have same : name :: store.backupPlace machine.disk = other :: store.backupPlace machine.disk :=
      (formed.locate_eq_placeOf leads).trans placed
    rw [← (List.cons.inj same).1] at surplus
    refine ⟨?_, ?_, surplus⟩
    · intro none
      have unlisted : machine.disk.list store.backupDir = .error .noEntry := by rw [none]; rfl
      simp [victims, unlisted] at member
    · intro none
      simp [victims, none] at member
  · rintro ⟨given, bound, surplus⟩
    have ready : store.Ready machine.disk :=
      ⟨formed.locate_of_join given leads, (formed.locate_cons leads).1⟩
    rw [ready.victims formed bound]
    exact List.mem_map_of_mem surplus

theorem node?_prune {content : Bytes} {mode : Nat}
    (there : machine.disk.node? (name :: store.backupPlace machine.disk) =
      some (.file content mode)) :
    (store.prune.run machine).1.disk.node? (name :: store.backupPlace machine.disk) =
      if Path.join store.backupDir name ∈ store.victims machine.disk then none
      else some (.file content mode) := by
  rw [(prune_eq_removeAll store machine).1]
  split
  · next member =>
    obtain ⟨-, some, whole, -⟩ := formed.locate_cons leads
    exact node?_removeAll formed member leads (Path.endsInSlash_join some whole)
      (Or.inr ⟨content, mode, there⟩)
  · next spared =>
    rw [← there]
    refine (loses_removeAll formed _ _ (Script.run_mem_states _ _)).kept ?_
    rintro ⟨path, member, found⟩
    obtain ⟨other, -, rfl, same⟩ := mem_victims formed member
    have placed := (formed.locate_eq_placeOf found).trans same
    rw [List.cons.injEq] at placed
    exact spared (placed.1 ▸ member)

/-- What is left of a backup when pruning is done, told by the backups that are left beside it. -/
theorem node?_prune_eq {content : Bytes} {mode : Nat}
    (backup : store.backupStart.isPrefixOf name = true)
    (there : machine.disk.node? (name :: store.backupPlace machine.disk) =
      some (.file content mode)) :
    (store.prune.run machine).1.disk.node? (name :: store.backupPlace machine.disk) =
      if store.backupDir ≠ [] ∧ store.maxBackups ≠ 0 ∧
        store.maxBackups ≤ (Text.laterThan name (store.backupNames
          ((store.prune.run machine).1.disk.namesIn (store.backupPlace machine.disk)))).length
      then none else some (.file content mode) := by
  have seen := mem_surplus_iff_after_prune formed backup (by simp [there])
  simp only [node?_prune formed leads there, mem_victims_iff formed leads, seen]

end

end Store

end SambaShares
