import SambaShares.Proofs.Store.Saved
/-!
What a reader finds at the live path while a document is being saved: the file as it was before or as
it is in the end, and nothing between the two. This takes a way to the live file from the beginning:
where directories are missing on it, those that are made for the backups may open the way to a file that
stood at its place all along.
-/

namespace SambaShares

namespace Store

open Disk

variable {store : Store} {machine state : Machine} {disk after : Disk} {old new : Document}

/-- There is a way to the live file, and nothing unfinished takes its name. -/
structure Settled (store : Store) (disk : Disk) : Prop where
  way : ∃ place, disk.locate store.confPath = .ok place
  named : store.LiveNamed disk

theorem beside_of_unfinished {place : Place} {node : Node}
    (made : FileNamed Unfinished place node) : store.Beside disk store.GivenName place node := by
  obtain ⟨name, up, content, mode, shape, file, unfinished⟩ := made
  exact Or.inr ⟨name, up, content, mode, shape, file, Or.inl unfinished⟩

/-- Before the live file is replaced, only a directory can come to stand at its place. -/
theorem read_of_grows (formed : disk.WellFormed) (settled : store.Settled disk)
    (grows : Grows (store.Beside disk store.GivenName) disk after) :
    after.read store.confPath = disk.read store.confPath ∨
      ∃ place, after.locate store.confPath = .ok place ∧ after.node? place = some .directory := by
  obtain ⟨place, leads⟩ := settled.way
  rcases grows.read_cases formed leads with same | ⟨node, free, there, made⟩
  · exact Or.inl same
  have leads := grows.locate formed leads
  rcases made with ⟨rfl, -⟩ | ⟨name, up, content, mode, rfl, rfl, given⟩
  · exact Or.inr ⟨place, leads, there⟩
  · have live := fileName?_of_live grows.formed leads there
    have placed := grows.formed.locate_eq_placeOf leads
    rw [placeOf_congr grows.here] at placed
    rcases given with unfinished | start
    · exact absurd unfinished (settled.named (placed ▸ free) name live)
    · exact absurd start (not_isPrefixOf_of_fileName? live)

/-- A directory at the live path stays there. -/
theorem read_of_directory {α : Type} (formed : state.disk.WellFormed) {place : Place}
    (leads : state.disk.locate store.confPath = .ok place)
    (there : state.disk.node? place = some .directory) (rest : Script α) :
    (rest.run state).1.disk.read store.confPath = .error .isDirectory := by
  have keeps := rest.keepsWays_run state
  have formedLast := rest.wellFormed_of_mem_states formed (Script.run_mem_states _ _)
  exact formedLast.read_of_directory (keeps.locate formed formedLast leads)
    (keeps.directory place there)

/-- If the live file is not replaced in the end, it never was. -/
theorem grows_of_replace_failed (stamped : ∀ time, '/' ∉ store.stamp time)
    (formed : machine.disk.WellFormed) {e : StoreError}
    (failed : ((store.replace old new).run machine).2 = .error e)
    (member : state ∈ (store.replace old new).states machine) :
    Grows (store.Beside machine.disk store.GivenName) machine.disk state.disk := by
  have backs := writeBackup_ensures stamped formed old
  unfold replace at failed member
  rcases Script.mem_states_andThen.1 member with early | ⟨path, made, late⟩
  · exact backs.1 state early
  have backup := backs.2
  rw [made] at backup
  obtain ⟨name, backup⟩ := backup
  rw [Script.run_andThen, made] at failed
  dsimp only at failed
  rw [Script.run_andThen] at failed
  rcases Script.mem_states_andThen.1 late with during | ⟨⟨⟩, done, -⟩
  · rcases (writeLive_ensures store backup.grows.formed new).1 state during with
      unfinished | ⟨done, -⟩
    · exact backs.always_run.trans (unfinished.mono fun _ _ => beside_of_unfinished)
    · rw [done] at failed
      cases failed
  · rw [done] at failed
    cases failed

/-- Whoever reads the live file meanwhile reads what was there before or what is there in the end. -/
theorem read_of_mem_persist (stamped : ∀ time, '/' ∉ store.stamp time)
    (formed : machine.disk.WellFormed) (settled : store.Settled machine.disk)
    (member : state ∈ (store.persist old new).states machine) :
    state.disk.read store.confPath = machine.disk.read store.confPath ∨
      state.disk.read store.confPath =
        ((store.persist old new).run machine).1.disk.read store.confPath := by
  obtain ⟨rest, goesOn⟩ := Script.exists_rest_of_mem_states member
  have before (grows : Grows (store.Beside machine.disk store.GivenName) machine.disk state.disk) :
      state.disk.read store.confPath = machine.disk.read store.confPath ∨
        state.disk.read store.confPath =
          ((store.persist old new).run machine).1.disk.read store.confPath := by
    rcases read_of_grows formed settled grows with same | ⟨place, leads, there⟩
    · exact Or.inl same
    · right
      rw [← goesOn, read_of_directory grows.formed leads there rest,
        grows.formed.read_of_directory leads there]
  have ensures := replace_ensures stamped formed old new
  have result := store.result_persist old new machine
  rw [persist_eq_replace] at member
  rcases Script.mem_states_andThen.1 member with early | ⟨path, done, late⟩
  · rcases ended : ((store.replace old new).run machine).2 with e | path
    · exact before (grows_of_replace_failed stamped formed ended early)
    · rcases ensures.1 state early with grows | ⟨path', name, saved⟩
      · exact before grows
      · have live := live_persist stamped formed (result.trans ended)
        right
        rw [saved.live.read, live.read]
  · have ending := ensures.2
    rw [done] at ending
    obtain ⟨name, middle, -, replaced⟩ := ending
    have here := replaced.live_prune (Script.mem_states_bind_done.1 late)
    have live := live_persist stamped formed (result.trans done)
    right
    rw [here.read, live.read]

/-- Where saving fails, the disk has grown by a backup and unfinished work at most. -/
theorem grows_of_persist_failed (stamped : ∀ time, '/' ∉ store.stamp time)
    (formed : machine.disk.WellFormed) {e : StoreError}
    (failed : ((store.persist old new).run machine).2 = .error e) :
    Grows (store.Beside machine.disk store.GivenName) machine.disk
      ((store.persist old new).run machine).1.disk := by
  have ending := persist_persistence stamped formed old new
  rw [failed] at ending
  cases e with
  | backup => exact Grows.mono ending fun _ _ => Or.inl
  | write =>
    obtain ⟨path, name, backup⟩ := ending
    exact backup.beside.mono (Beside.mono fun _ => Or.inr)
  | read => exact ending.elim
  | notUtf8 => exact ending.elim

/-- Saving that fails leaves the live file as it was, or a directory where there was none. -/
theorem read_of_persist_failed (stamped : ∀ time, '/' ∉ store.stamp time)
    (formed : machine.disk.WellFormed) (settled : store.Settled machine.disk) {e : StoreError}
    (failed : ((store.persist old new).run machine).2 = .error e) :
    let after := ((store.persist old new).run machine).1.disk
    after.read store.confPath = machine.disk.read store.confPath ∨
      after.read store.confPath = .error .isDirectory := by
  intro after
  have grows := grows_of_persist_failed stamped formed failed
  rcases read_of_grows formed settled grows with same | ⟨place, leads, there⟩
  · exact Or.inl same
  · exact Or.inr (grows.formed.read_of_directory leads there)

/-- Saving does not take the live file away, and without one it leaves none. -/
theorem settled_persist (stamped : ∀ time, '/' ∉ store.stamp time)
    (formed : machine.disk.WellFormed) (settled : store.Settled machine.disk)
    (old new : Document) :
    store.Settled ((store.persist old new).run machine).1.disk := by
  have keeps := (store.persist old new).keepsWays_run machine
  have formedLast :=
    (store.persist old new).wellFormed_of_mem_states formed (Script.run_mem_states _ _)
  obtain ⟨place, leads⟩ := settled.way
  refine ⟨⟨place, keeps.locate formed formedLast leads⟩, fun free => ?_⟩
  rcases result : ((store.persist old new).run machine).2 with e | path
  · rw [placeOf_congr keeps.here] at free
    exact settled.named ((grows_of_persist_failed stamped formed result).free free)
  · obtain ⟨place, leads, there, -⟩ := find_eq_ok (live_persist stamped formed result)
    rw [← formedLast.locate_eq_placeOf leads, there] at free
    cases free

end Store

end SambaShares
