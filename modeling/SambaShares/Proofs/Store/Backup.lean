import SambaShares.Proofs.Files
import SambaShares.Store.Persist
/-!
Backing up a document. Directories are made on the way to the backups as far as they are missing,
and a file is prepared beside the backups, which takes a free name in the end or is removed. Nothing
else is touched, wherever the work is cut off.
-/

namespace SambaShares

namespace Store

open Disk

variable {store : Store} {machine : Machine} {before disk after : Disk} {place : Place}
variable {unfinished path name : Text} {content : Bytes} {mode : Nat}

/-- A name that a file may have while it is prepared, as a backup or as the live file. -/
def Unfinished (name : Text) : Prop :=
  Temporary ".smbshare-backup.".toList [] name ∨ Temporary ".smbshare.".toList ".tmp".toList name

/-- The place where the backups stand. -/
def backupPlace (store : Store) (disk : Disk) : Place := disk.placeOf store.backupDir

/-- A directory in which the backups stand, directly or not. -/
def BackupDirectory (store : Store) (disk : Disk) : Place → Node → Prop :=
  Files.DirectoryAt disk (Path.ancestors store.backupDir)

/-- A file with one of these names. -/
def FileNamed (names : Text → Prop) (place : Place) (node : Node) : Prop :=
  ∃ name up content mode, place = name :: up ∧ node = .file content mode ∧ names name

/-- A directory on the way to the backups, or a file with one of these names. -/
def Beside (store : Store) (disk : Disk) (names : Text → Prop) (place : Place) (node : Node) :
    Prop :=
  store.BackupDirectory disk place node ∨ FileNamed names place node

/-- A name given to a file in the course of saving, other than that of the live file. -/
def GivenName (store : Store) (name : Text) : Prop :=
  Unfinished name ∨ store.backupStart.isPrefixOf name = true

/-- The place of an entry whose name begins like that of a backup. -/
def BackupPlace (store : Store) (disk : Disk) (place : Place) : Prop :=
  ∃ name, store.backupStart.isPrefixOf name = true ∧ place = name :: store.backupPlace disk

/-- Beyond directories on the way to it, `after` has one file more: a backup with this content under
a name that was free. -/
structure BackedUp (store : Store) (before after : Disk) (path name : Text) (content : Bytes) :
    Prop where
  stamped : ∃ time, name = store.backupStart ++ store.stamp time
  named : path = Path.join store.backupDir name
  free : before.node? (name :: store.backupPlace before) = none
  leads : after.locate path = .ok (name :: store.backupPlace before)
  there : after.node? (name :: store.backupPlace before) = some (.file content 0o600)
  grows : Grows (fun place node => store.BackupDirectory before place node ∨
    place = name :: store.backupPlace before ∧ node = .file content 0o600) before after

/-- A file for its owner only that cannot be run stays so when it is written to. -/
theorem modeAfter_private (content : Bytes) : modeAfter content 0o600 = 0o600 := by
  unfold modeAfter
  split <;> rfl

theorem whole_backupStart (store : Store) : '/' ∉ store.backupStart := by
  unfold backupStart
  rw [List.mem_append, not_or]
  refine ⟨?_, by decide⟩
  cases found : Path.fileName? store.confPath with
  | none => decide
  | some name => exact (Path.whole_of_fileName? found).2

/-- A backup has a name that an entry can have. -/
theorem isName_backup (store : Store) (time : Nat) :
    store.backupStart ++ store.stamp time ≠ [] ∧
      isName (store.backupStart ++ store.stamp time) = true := by
  have long : 2 < (store.backupStart ++ store.stamp time).length := by
    simp [backupStart]
    omega
  have other : ∀ short : Text, short.length ≤ 2 →
      store.backupStart ++ store.stamp time ≠ short := by
    rintro short small same
    rw [same] at long
    omega
  exact ⟨other [] (by decide), by simp [isName, other]⟩

theorem placeOf_backupPath (stamped : ∀ time, '/' ∉ store.stamp time) (disk : Disk) (time : Nat) :
    disk.placeOf (store.backupPath time) =
      (store.backupStart ++ store.stamp time) :: store.backupPlace disk := by
  obtain ⟨some, plain⟩ := store.isName_backup time
  have whole : '/' ∉ store.backupStart ++ store.stamp time := by
    rw [List.mem_append, not_or]
    exact ⟨store.whole_backupStart, stamped time⟩
  exact placeOf_join disk _ some whole plain

/-- Nothing is left of an unfinished file after its step failed. -/
theorem giveUp_ensures {α : Type} (always : Machine → Prop)
    (puts : Puts before machine.disk unfinished place content mode)
    (free : before.node? place = none) (holds : always machine)
    (gone : ∀ state : Machine, Grows nothing before state.disk → always state) (e : StoreError) :
    (giveUp unfinished e : Script (Except StoreError α)).Ensures machine always
      fun result state => result = .error e ∧ Grows nothing before state.disk := by
  have same := puts.perform_remove free
  exact Script.ensures_request.2 ⟨holds, Script.ensures_done.2 ⟨gone _ same, rfl, same⟩⟩

/-- How naming a backup ends: it has a name that was free, or nothing is left of it. -/
def Named (store : Store) (before : Disk) (content : Bytes) (mode : Nat) :
    Except StoreError Text → Machine → Prop
  | .ok path, state => ∃ time, path = store.backupPath time ∧
      before.node? (before.placeOf path) = none ∧
        Puts before state.disk path (before.placeOf path) content mode
  | .error e, state => (∃ path cause, e = .backup path cause) ∧ Grows nothing before state.disk

theorem nameBackup_fails (puts : Puts before machine.disk unfinished place content mode)
    (free : before.node? place = none)
    (made : FileNamed store.GivenName place (.file content mode)) {e : StoreError}
    (shape : ∃ path cause, e = .backup path cause) {wanted : Bytes} {bits : Nat} :
    (giveUp unfinished e).Ensures machine
      (fun state => Grows (FileNamed store.GivenName) before state.disk)
      (store.Named before wanted bits) := by
  refine (giveUp_ensures _ puts free (puts.grows free made) (fun _ => Grows.of_nothing) e).mono
    (fun _ => id) ?_
  rintro _ state - ⟨rfl, same⟩
  exact ⟨shape, same⟩

theorem nameBackup_ensures (stamped : ∀ time, '/' ∉ store.stamp time)
    (puts : Puts before machine.disk unfinished place content mode)
    (free : before.node? place = none)
    (made : FileNamed store.GivenName place (.file content mode)) (attempts time : Nat) :
    (store.nameBackup unfinished attempts time).Ensures machine
      (fun state => Grows (FileNamed store.GivenName) before state.disk)
      (store.Named before content mode) := by
  induction attempts generalizing machine time with
  | zero => exact nameBackup_fails puts free made ⟨_, _, rfl⟩
  | succ attempts ih =>
    refine Script.ensures_request.2 ⟨puts.grows free made, ?_⟩
    rcases puts.perform_rename free true (store.backupPath time) with
      ⟨cause, refused, same, -⟩ | ⟨goal, done, placed, kept⟩
    · have still := same.symm ▸ puts
      rw [refused]
      cases cause with
      | alreadyExists => exact ih still (time + 1)
      | _ => exact nameBackup_fails still free made ⟨_, _, rfl⟩
    · have spot := placed.placed
      subst spot
      rw [done]
      refine Script.ensures_done.2 ⟨placed.grows (kept rfl) ?_, time, rfl, kept rfl, placed⟩
      rw [placeOf_backupPath stamped]
      exact ⟨_, _, _, _, rfl, rfl, Or.inr (by simp)⟩

/-- How a backup ends. -/
def Backs (store : Store) (before : Disk) (content : Bytes) :
    Except StoreError Text → Machine → Prop
  | .ok path, state => ∃ name, store.BackedUp before state.disk path name content
  | .error e, state => (∃ path cause, e = .backup path cause) ∧
      Grows (store.BackupDirectory before) before state.disk

theorem backupPlace_congr (store : Store) {first second : Disk} (same : first.here = second.here) :
    store.backupPlace first = store.backupPlace second :=
  placeOf_congr same _

/-- Directories were made and then a backup. -/
theorem BackedUp.of_puts {time : Nat} (stamped : ∀ time, '/' ∉ store.stamp time)
    (grows : Grows (store.BackupDirectory before) before disk)
    (named : path = store.backupPath time)
    (free : disk.node? (disk.placeOf path) = none)
    (puts : Puts disk after path (disk.placeOf path) content 0o600) :
    store.BackedUp before after path (store.backupStart ++ store.stamp time) content := by
  have placed : disk.placeOf path =
      (store.backupStart ++ store.stamp time) :: store.backupPlace before := by
    rw [named, placeOf_backupPath stamped, backupPlace_congr store grows.here]
  rw [placed] at free puts
  refine ⟨⟨time, rfl⟩, named, grows.free free, puts.leads, puts.there, ?_⟩
  exact (grows.mono fun _ _ => Or.inl).trans (puts.grows free (Or.inr ⟨rfl, rfl⟩))

theorem BackedUp.of_nothing (backup : store.BackedUp before disk path name content)
    (formed : disk.WellFormed) (same : Grows nothing disk after) :
    store.BackedUp before after path name content :=
  ⟨backup.stamped, backup.named, backup.free, same.locate formed backup.leads,
    same.kept backup.there, backup.grows.trans same.of_nothing⟩

theorem BackedUp.isPrefixOf (backup : store.BackedUp before disk path name content) :
    store.backupStart.isPrefixOf name = true := by
  obtain ⟨time, rfl⟩ := backup.stamped
  simp

theorem BackedUp.beside (backup : store.BackedUp before disk path name content) :
    Grows (store.Beside before fun name => store.backupStart.isPrefixOf name = true)
      before disk := by
  refine backup.grows.mono ?_
  rintro place node (directory | ⟨rfl, rfl⟩)
  · exact Or.inl directory
  · exact Or.inr ⟨_, _, _, _, rfl, rfl, backup.isPrefixOf⟩

theorem Beside.mono {names wider : Text → Prop} (weaker : ∀ name, names name → wider name)
    (place : Place) (node : Node) (beside : store.Beside before names place node) :
    store.Beside before wider place node := by
  rcases beside with directory | ⟨name, up, content, mode, shape, file, given⟩
  · exact Or.inl directory
  · exact Or.inr ⟨name, up, content, mode, shape, file, weaker name given⟩

/-- Backing up where the directory is there: a file is filled and gets its name. -/
def fillBackup (store : Store) (old : Document) : Script (Except StoreError Text) :=
  (Script.createFresh store.backupDir ".smbshare-backup.".toList []).bind fun
    | .error cause => .done (.error (.backup store.backupDir cause))
    | .ok unfinished =>
      (Script.write unfinished (Utf8.encode old.render)).bind fun
        | .error cause => giveUp unfinished (.backup unfinished cause)
        | .ok () => Script.clock.bind (store.nameBackup unfinished nameAttempts)

theorem writeBackup_eq_fillBackup (store : Store) (old : Document) :
    store.writeBackup old = (Files.makeDirectories store.backupDir).bind fun
      | .error cause => .done (.error (.backup store.backupDir cause))
      | .ok () => store.fillBackup old := rfl

theorem fillBackup_ensures (stamped : ∀ time, '/' ∉ store.stamp time)
    (formed : machine.disk.WellFormed) (old : Document) :
    (store.fillBackup old).Ensures machine
      (fun state => Grows (FileNamed store.GivenName) machine.disk state.disk)
      (store.Named machine.disk (Utf8.encode old.render) 0o600) := by
  refine Script.ensures_request.2 ⟨.refl formed, ?_⟩
  rcases perform_createFresh formed store.backupDir ".smbshare-backup.".toList [] (by decide) with
    ⟨cause, refused, same⟩ | ⟨unfinished, name, created, temporary, free, empty⟩
  · rw [refused]
    refine Script.ensures_done.2 ⟨?_, ⟨_, _, rfl⟩, ?_⟩
    · exact same.symm ▸ .refl formed
    · exact same.symm ▸ .refl formed
  have file : ∀ content mode, FileNamed store.GivenName
      (name :: machine.disk.placeOf store.backupDir) (.file content mode) :=
    fun content mode => ⟨_, _, _, _, rfl, rfl, Or.inl (Or.inl temporary)⟩
  rw [created]
  refine Script.ensures_request.2 ⟨empty.grows free (file _ _), ?_⟩
  rcases empty.perform_write (Utf8.encode old.render) with
    ⟨cause, refused, part, bits, left⟩ | ⟨written, full⟩
  · rw [refused]
    exact nameBackup_fails left free (file _ _) ⟨_, _, rfl⟩
  rw [modeAfter_private] at full
  rw [written]
  refine Script.ensures_request.2 ⟨full.grows free (file _ _), ?_⟩
  refine nameBackup_ensures stamped ?_ free (file _ _) nameAttempts _
  exact full

theorem writeBackup_ensures (stamped : ∀ time, '/' ∉ store.stamp time)
    (formed : machine.disk.WellFormed) (old : Document) :
    (store.writeBackup old).Ensures machine
      (fun state => Grows (store.Beside machine.disk store.GivenName) machine.disk state.disk)
      (store.Backs machine.disk (Utf8.encode old.render)) := by
  have first : (Files.makeDirectories store.backupDir).Ensures machine
      (fun state => Grows (store.Beside machine.disk store.GivenName) machine.disk state.disk)
      (fun _ state => Grows (store.BackupDirectory machine.disk) machine.disk state.disk) := by
    have grows := Files.grows_makeDirectories formed store.backupDir
    refine ⟨fun state member => (grows state member).mono fun _ _ => Or.inl, ?_⟩
    exact grows _ (Script.run_mem_states _ _)
  rw [writeBackup_eq_fillBackup]
  refine first.bind fun result state holds grows => ?_
  cases result with
  | error cause => exact Script.ensures_done.2 ⟨holds, ⟨_, _, rfl⟩, grows⟩
  | ok =>
    refine (fillBackup_ensures stamped grows.formed old).mono ?_ ?_
    · exact fun later files => holds.trans (files.mono fun _ _ => Or.inr)
    · rintro (e | path) last - ending
      · exact ⟨ending.1, grows.trans ending.2.of_nothing⟩
      · obtain ⟨time, named, free, puts⟩ := ending
        exact ⟨_, .of_puts stamped grows named free puts⟩

end Store

end SambaShares
