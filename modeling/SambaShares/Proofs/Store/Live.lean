import SambaShares.Proofs.Document.RoundTrip
import SambaShares.Proofs.Store.Backup
import SambaShares.Proofs.Text.Utf8
/-!
Reading and replacing the live file. What is read is the whole file, byte for byte. For a new one a
file is prepared beside it with its permissions and content, and takes its name in one step; until
then the live file is untouched, and if a step fails nothing is left.
-/

namespace SambaShares

namespace Store

open Disk

variable {store : Store} {machine : Machine} {disk after : Disk} {document : Document}
variable {name : Text} {content : Bytes}

/-- The bytes of the live file; those of the built-in configuration stand in for a missing one. -/
def liveBytes (store : Store) (disk : Disk) : Bytes :=
  match disk.read store.confPath with
  | .ok content => content
  | .error _ => Utf8.encode Document.builtin.render

theorem onlyAsks_load (store : Store) : store.load.OnlyAsks Effect.looks := by
  refine (Script.onlyAsks_request rfl).bind fun result => ?_
  rcases result with cause | content
  · cases cause <;> trivial
  · trivial

/-- What the live file is read as. -/
theorem load_run (store : Store) (machine : Machine) :
    (store.load.run machine).2 = match machine.disk.read store.confPath with
      | .ok content => store.ofBytes content
      | .error .noEntry => .ok .builtin
      | .error cause => .error (.read store.confPath cause) := by
  have answered : store.load.run machine = (match machine.disk.read store.confPath with
      | .ok content => .done (store.ofBytes content)
      | .error .noEntry => .done (.ok .builtin)
      | .error cause => .done (.error (.read store.confPath cause)) :
        Script (Except StoreError Document)).run machine := rfl
  rw [answered]
  rcases machine.disk.read store.confPath with cause | content
  · cases cause <;> rfl
  · rfl

theorem load_eq_error {e : StoreError} (failed : (store.load.run machine).2 = .error e) :
    (∃ path cause, e = .read path cause) ∨ ∃ path offset, e = .notUtf8 path offset := by
  rw [load_run] at failed
  split at failed
  · unfold ofBytes at failed
    split at failed
    · cases failed
    · exact Or.inr ⟨_, _, (Except.error.inj failed).symm⟩
  · cases failed
  · exact Or.inl ⟨_, _, (Except.error.inj failed).symm⟩

/-- What was read is written back byte for byte. -/
theorem encode_render_of_load {current : Document}
    (loaded : (store.load.run machine).2 = .ok current) :
    Utf8.encode current.render = store.liveBytes machine.disk := by
  rw [load_run] at loaded
  unfold liveBytes
  split at loaded
  · next content found =>
    unfold ofBytes at loaded
    split at loaded
    · next text read =>
      cases loaded
      rw [found, Document.render_parse, Utf8.encode_of_decode read]
    · cases loaded
  · next found =>
    have same : Document.builtin = current := Except.ok.inj loaded
    rw [found, ← same]
  · cases loaded

/-- The permissions of a live file with this document. Writing takes from the configured ones what
lets a file run as its owner or its group. -/
def liveMode (store : Store) (document : Document) : Nat :=
  modeAfter (Utf8.encode document.render) (permissions store.fileMode)

theorem modeAfter_eq_iff {content : Bytes} {mode : Nat} (small : mode < 0o10000) :
    modeAfter content mode = mode ↔ content = [] ∨
      mode &&& 0o4000 = 0 ∧ (mode &&& 0o2000 = 0 ∨ mode &&& 0o010 = 0) := by
  -- The bits are checked in two halves: all at once would be too deep a recursion.
  have bits : ∀ high < 64, ∀ low < 64, ∀ mode, mode = 64 * high + low →
      ((if mode &&& 0o010 = 0 then mode &&& 0o3777 else mode &&& 0o1777) = mode ↔
        mode &&& 0o4000 = 0 ∧ (mode &&& 0o2000 = 0 ∨ mode &&& 0o010 = 0)) := by
    simp only [forall_eq]
    decide +kernel
  have parts : mode = 64 * (mode / 64) + mode % 64 := (Nat.div_add_mod mode 64).symm
  have these := bits (mode / 64) (by omega) (mode % 64) (by omega) mode parts
  unfold modeAfter
  cases content with
  | nil => simp
  | cons => simpa using these

/-- The live file has the configured permissions just if the document is empty or they do not let it
run as its owner, nor as a group that may run it. -/
theorem liveMode_eq_iff (store : Store) (document : Document) :
    store.liveMode document = permissions store.fileMode ↔ document.render = [] ∨
      store.fileMode &&& 0o4000 = 0 ∧
        (store.fileMode &&& 0o2000 = 0 ∨ store.fileMode &&& 0o010 = 0) := by
  have small : permissions store.fileMode < 0o10000 :=
    Nat.lt_succ_of_le Nat.and_le_right
  rw [liveMode, modeAfter_eq_iff small, Utf8.encode_eq_nil_iff]
  simp only [permissions, Nat.and_assoc]
  rfl

/-- `after` is `before` with a document as the live file. -/
def Replaced (store : Store) (document : Document) (before after : Disk) : Prop :=
  ∃ place, Puts before after store.confPath place (Utf8.encode document.render)
    (store.liveMode document)

/-- The live file holds a document. -/
def Live (store : Store) (document : Document) (disk : Disk) : Prop :=
  disk.find store.confPath = .ok (.file (Utf8.encode document.render) (store.liveMode document))

theorem Live.read (live : store.Live document disk) :
    disk.read store.confPath = .ok (Utf8.encode document.render) := by
  have found : disk.find store.confPath = _ := live
  rw [Disk.read, found]
  rfl

/-- The name of the live file is not that of a backup. -/
theorem not_isPrefixOf_of_fileName? (live : Path.fileName? store.confPath = some name) :
    ¬store.backupStart.isPrefixOf name = true := by
  intro start
  have short := (List.isPrefixOf_iff_prefix.1 start).length_le
  simp only [backupStart, live, Option.getD_some, List.length_append] at short
  have some : ".backup.".toList.length = 8 := rfl
  omega

/-- A file that the live path leads to has the name that the path ends in. -/
theorem fileName?_of_live {up : Place} {mode : Nat} (formed : disk.WellFormed)
    (leads : disk.locate store.confPath = .ok (name :: up))
    (there : disk.node? (name :: up) = some (.file content mode)) :
    Path.fileName? store.confPath = some name := by
  obtain ⟨last, above, same, named⟩ :=
    formed.locate_of_endsInName leads (formed.endsInName_of_not_directory leads (by simp [there]))
  rw [List.cons.injEq] at same
  rw [named, same.1]

theorem Replaced.not_backupPlace (replaced : store.Replaced document disk after) :
    ∃ place, Puts disk after store.confPath place (Utf8.encode document.render)
        (store.liveMode document) ∧
      ∀ other : Disk, ¬store.BackupPlace other place := by
  obtain ⟨place, puts⟩ := replaced
  refine ⟨place, puts, ?_⟩
  rintro other ⟨name, start, rfl⟩
  obtain ⟨last, up, same, live⟩ := puts.named
  rw [List.cons.injEq] at same
  exact not_isPrefixOf_of_fileName? live (same.1 ▸ start)

/-- Replacing the live file leaves every entry with the name of a backup as it is. -/
theorem Replaced.node?_backup (replaced : store.Replaced document disk after) {place : Place}
    {other : Disk} (backup : store.BackupPlace other place) :
    after.node? place = disk.node? place := by
  obtain ⟨live, puts, apart⟩ := replaced.not_backupPlace
  rw [puts.node, if_neg]
  rintro rfl
  exact apart other backup

theorem Replaced.live (replaced : store.Replaced document disk after) : store.Live document after :=
  replaced.elim fun _ puts => puts.find

/-- What is seen while the live file is being replaced, with this result in the end. -/
def Replacing (store : Store) (document : Document) (before after : Disk)
    (result : Except StoreError Unit) : Prop :=
  Grows (FileNamed Unfinished) before after ∨
    result = .ok () ∧ store.Replaced document before after

/-- How replacing the live file ends. -/
def Replaces (store : Store) (document : Document) (before : Disk) :
    Except StoreError Unit → Machine → Prop
  | .ok (), state => store.Replaced document before state.disk
  | .error e, state => (∃ path cause, e = .write path cause) ∧ Grows nothing before state.disk

theorem writeLive_fails {before : Disk} {unfinished : Text} {place : Place} {mode : Nat}
    (puts : Puts before machine.disk unfinished place content mode)
    (free : before.node? place = none) (made : FileNamed Unfinished place (.file content mode))
    (cause : IoError) :
    (giveUp unfinished (.write store.confPath cause)).Ensures machine
      (fun state => Grows (FileNamed Unfinished) before state.disk)
      (store.Replaces document before) := by
  refine (giveUp_ensures _ puts free (puts.grows free made) (fun _ => Grows.of_nothing) _).mono
    (fun _ => id) ?_
  rintro _ state - ⟨rfl, same⟩
  exact ⟨⟨_, _, rfl⟩, same⟩

theorem writeLive_ensures (store : Store) (formed : machine.disk.WellFormed) (new : Document) :
    (store.writeLive new).Ensures machine
      (fun state =>
        store.Replacing new machine.disk state.disk ((store.writeLive new).run machine).2)
      (store.Replaces new machine.disk) := by
  let always (result : Except StoreError Unit) (state : Machine) : Prop :=
    store.Replacing new machine.disk state.disk result
  refine Script.ensures_request_result always (fun _ => Or.inl (.refl formed)) ?_
  rcases perform_createFresh formed store.liveDir ".smbshare.".toList ".tmp".toList (by decide) with
    ⟨cause, refused, same⟩ | ⟨unfinished, name, created, temporary, free, empty⟩
  · rw [refused]
    refine Script.ensures_done.2 ⟨Or.inl ?_, ⟨_, _, rfl⟩, ?_⟩
    · exact same.symm ▸ .refl formed
    · exact same.symm ▸ .refl formed
  have file : ∀ content mode, FileNamed Unfinished (name :: machine.disk.placeOf store.liveDir)
      (.file content mode) := fun content mode => ⟨_, _, _, _, rfl, rfl, Or.inr temporary⟩
  have fails {state : Machine} {content mode result} (cause : IoError)
      (puts : Puts machine.disk state.disk unfinished _ content mode) :
      (giveUp unfinished (.write store.confPath cause)).Ensures state (always result)
        (store.Replaces new machine.disk) :=
    (writeLive_fails puts free (file _ _) cause).mono (fun _ => Or.inl) fun _ _ _ => id
  rw [created]
  refine Script.ensures_request_result always (fun _ => Or.inl (empty.grows free (file _ _))) ?_
  rcases empty.perform_setMode store.fileMode with ⟨cause, refused, same⟩ | ⟨set, granted⟩
  · rw [refused]
    exact fails cause (same.symm ▸ empty)
  rw [set]
  refine Script.ensures_request_result always (fun _ => Or.inl (granted.grows free (file _ _))) ?_
  rcases granted.perform_write (Utf8.encode new.render) with
    ⟨cause, refused, part, bits, left⟩ | ⟨written, full⟩
  · rw [refused]
    exact fails cause left
  rw [written]
  refine Script.ensures_request_result always (fun _ => Or.inl (full.grows free (file _ _))) ?_
  rcases full.perform_rename free false store.confPath with
    ⟨cause, refused, same, -⟩ | ⟨goal, done, placed, -⟩
  · rw [refused]
    exact fails cause (same.symm ▸ full)
  · rw [done]
    exact Script.ensures_done.2 ⟨Or.inr ⟨rfl, goal, placed⟩, goal, placed⟩

end Store

end SambaShares
