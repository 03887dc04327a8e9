import SambaShares.Proofs.Files
import SambaShares.Store.Persist
/-!
Saving starts no program, whatever the machine answers.
-/

namespace SambaShares.Store

theorem quiet_giveUp {α : Type} (unfinished : Text) (e : StoreError) :
    (giveUp unfinished e : Script (Except StoreError α)).OnlyAsks Effect.quiet :=
  ⟨rfl, fun _ => trivial⟩

theorem quiet_nameBackup (store : Store) (unfinished : Text) (attempts time : Nat) :
    (store.nameBackup unfinished attempts time).OnlyAsks Effect.quiet := by
  induction attempts generalizing time with
  | zero => exact quiet_giveUp _ _
  | succ attempts ih =>
    refine ⟨rfl, fun answer => ?_⟩
    rcases answer with cause | done
    · cases cause with
      | alreadyExists => exact ih _
      | _ => exact quiet_giveUp _ _
    · trivial

theorem quiet_writeBackup (store : Store) (old : Document) :
    (store.writeBackup old).OnlyAsks Effect.quiet := by
  have makes : (Files.makeDirectories store.backupDir).OnlyAsks Effect.quiet := by
    refine (Files.onlyAsks_makeAll _).mono fun effect allows => ?_
    cases effect <;> first | rfl | cases allows
  refine makes.bind fun result => ?_
  rcases result with cause | made
  · trivial
  · refine ⟨rfl, fun created => ?_⟩
    rcases created with cause | unfinished
    · trivial
    · refine ⟨rfl, fun written => ?_⟩
      rcases written with cause | filled
      · exact quiet_giveUp _ _
      · exact ⟨rfl, fun time => quiet_nameBackup _ _ _ _⟩

theorem quiet_writeLive (store : Store) (new : Document) :
    (store.writeLive new).OnlyAsks Effect.quiet := by
  refine ⟨rfl, fun created => ?_⟩
  rcases created with cause | unfinished
  · trivial
  · refine ⟨rfl, fun changed => ?_⟩
    rcases changed with cause | granted
    · exact quiet_giveUp _ _
    · refine ⟨rfl, fun written => ?_⟩
      rcases written with cause | filled
      · exact quiet_giveUp _ _
      · refine ⟨rfl, fun renamed => ?_⟩
        rcases renamed with cause | placed
        · exact quiet_giveUp _ _
        · trivial

theorem quiet_removeAll (paths : List Text) : (removeAll paths).OnlyAsks Effect.quiet := by
  induction paths with
  | nil => trivial
  | cons path rest ih => exact ⟨rfl, fun _ => ih⟩

theorem onlyAsks_listBackups (store : Store) : store.listBackups.OnlyAsks Effect.looks := by
  refine (Script.onlyAsks_request rfl).bind fun listed => ?_
  rcases listed with cause | names
  · cases cause <;> trivial
  · trivial

theorem quiet_prune (store : Store) : store.prune.OnlyAsks Effect.quiet := by
  unfold prune
  split
  · trivial
  · refine (store.onlyAsks_listBackups.mono fun _ => Effect.quiet_of_looks).bind fun found => ?_
    rcases found with e | backups
    · trivial
    · exact quiet_removeAll _

/-- Saving starts no program. -/
theorem quiet_persist (store : Store) (old new : Document) :
    (store.persist old new).OnlyAsks Effect.quiet :=
  (quiet_writeBackup store old).andThen fun _ =>
    (quiet_writeLive store new).andThen fun _ => (quiet_prune store).bind fun _ => trivial

end SambaShares.Store
