import SambaShares.Proofs.Store.Saved
/-!
Saving one document after the other, when all backups are kept. Whatever becomes of each attempt, all
that there was stays as it is, but for the live file, and each attempt that gets past its backup adds
this backup under a name that was free.
-/

namespace SambaShares

namespace Store

open Disk

variable {store : Store} {machine : Machine} {before disk after : Disk} {old new : Document}
variable {path name : Text} {content : Bytes} {place : Place}

/-- Saves one document after the other, each given with the one that it is to replace. -/
def persistAll (store : Store) :
    List (Document × Document) → Script (List (Except StoreError Text))
  | [] => .done []
  | (old, new) :: rest =>
    (store.persist old new).bind fun result =>
      (store.persistAll rest).bind fun results => .done (result :: results)

structure Backup where
  path : Text
  content : Bytes
  deriving DecidableEq, Repr

/-- Which backups the attempts to save have left, told by how the attempts ended. -/
inductive Recorded (store : Store) :
    List (Document × Document) → List (Except StoreError Text) → List Backup → Prop
  | none : Recorded store [] [] []
  | notBackedUp {old new : Document} {path : Text} {cause : IoError}
    {pairs : List (Document × Document)} {results : List (Except StoreError Text)}
    {added : List Backup} (rest : Recorded store pairs results added) :
    Recorded store ((old, new) :: pairs) (.error (.backup path cause) :: results) added
  | notWritten {old new : Document} {path backup : Text} {cause : IoError}
    {pairs : List (Document × Document)} {results : List (Except StoreError Text)}
    {added : List Backup} (rest : Recorded store pairs results added) :
    Recorded store ((old, new) :: pairs) (.error (.write path cause) :: results)
      (⟨backup, Utf8.encode old.render⟩ :: added)
  | saved {old new : Document} {backup : Text}
    {pairs : List (Document × Document)} {results : List (Except StoreError Text)}
    {added : List Backup} (rest : Recorded store pairs results added) :
    Recorded store ((old, new) :: pairs) (.ok backup :: results)
      (⟨backup, Utf8.encode old.render⟩ :: added)

/-- The place of the live file. -/
def LivePlace (store : Store) (disk : Disk) (place : Place) : Prop :=
  place = disk.placeOf store.confPath ∧
    ∃ name up, place = name :: up ∧ Path.fileName? store.confPath = some name

/-- All that there was is as it was, but for the live file. -/
def KeepsOthers (store : Store) (before after : Disk) : Prop :=
  ∀ place node, ¬store.LivePlace before place → before.node? place = some node →
    after.node? place = some node

/-- `after` is `before` with these backups, each under a name that was free. In the backup directory
there is nothing else that is new but the live file, if it stands there, and directories that the path
to the backups leads through. -/
structure Appends (store : Store) (before after : Disk) (added : List Backup) : Prop where
  formed : after.WellFormed
  here : after.here = before.here
  once : (added.map Backup.path).Nodup
  stamped : ∀ backup ∈ added, ∃ time, backup.path = store.backupPath time
  free : ∀ backup ∈ added, before.node? (before.placeOf backup.path) = none
  leads : ∀ backup ∈ added, after.locate backup.path = .ok (before.placeOf backup.path)
  there : ∀ backup ∈ added,
    after.node? (before.placeOf backup.path) = some (.file backup.content 0o600)
  kept : store.KeepsOthers before after
  others : ∀ name node, before.node? (name :: store.backupPlace before) = none →
    after.node? (name :: store.backupPlace before) = some node →
    (∃ backup ∈ added, before.placeOf backup.path = name :: store.backupPlace before) ∨
      store.LivePlace before (name :: store.backupPlace before) ∨
      store.BackupDirectory before (name :: store.backupPlace before) node

/-- The name of the live file is not that of a backup. -/
theorem LivePlace.not_backupPlace (live : store.LivePlace disk place) (other : Disk) :
    ¬store.BackupPlace other place := by
  obtain ⟨-, name, up, rfl, named⟩ := live
  rintro ⟨last, start, same⟩
  exact not_isPrefixOf_of_fileName? named ((List.cons.inj same).1 ▸ start)

theorem livePlace_congr (same : disk.here = before.here) :
    store.LivePlace disk place ↔ store.LivePlace before place := by
  unfold LivePlace
  rw [placeOf_congr same]

theorem keepsOthers_of_grows {fresh : Place → Node → Prop} (grows : Grows fresh before after) :
    store.KeepsOthers before after := fun _ _ _ => grows.kept

theorem KeepsOthers.trans (same : disk.here = before.here) (first : store.KeepsOthers before disk)
    (second : store.KeepsOthers disk after) : store.KeepsOthers before after :=
  fun place node other there =>
    second place node (fun live => other ((livePlace_congr same).1 live)) (first place node other there)

/-- What there is after the backup is that with another live file, or the same. -/
structure Settles (store : Store) (before after : Disk) : Prop where
  formed : after.WellFormed
  here : after.here = before.here
  ways : before.KeepsWays after
  node : ∀ place, ¬store.LivePlace before place → after.node? place = before.node? place

theorem Replaced.settles (replaced : store.Replaced new before after) :
    store.Settles before after := by
  obtain ⟨place, puts⟩ := replaced
  refine ⟨puts.formed, puts.here, ⟨puts.here, fun _ => puts.directory⟩, fun other apart => ?_⟩
  rw [puts.node, if_neg]
  rintro rfl
  obtain ⟨name, up, shape, named⟩ := puts.named
  exact apart ⟨puts.placed, name, up, shape, named⟩

theorem settles_of_nothing (same : Grows nothing before after) : store.Settles before after := by
  refine ⟨same.formed, same.here, ⟨same.here, fun _ => same.kept⟩, fun place _ => ?_⟩
  rcases same.node place with equal | ⟨-, node, -, impossible⟩
  · exact equal
  · exact (impossible : False).elim

theorem Settles.keepsOthers (settles : store.Settles before after) :
    store.KeepsOthers before after :=
  fun place _ other there => (settles.node place other).trans there

namespace Appends

variable {added later : List Backup}

theorem of_directories (grows : Grows (store.BackupDirectory before) before after) :
    store.Appends before after [] := by
  refine ⟨grows.formed, grows.here, List.nodup_nil, by simp, by simp, by simp, by simp,
    keepsOthers_of_grows grows, fun name node free there => ?_⟩
  rcases grows.node (name :: store.backupPlace before) with same | ⟨-, made, found, directory⟩
  · rw [same, free] at there
    cases there
  · rw [there, Option.some.injEq] at found
    exact Or.inr (Or.inr (found ▸ directory))

theorem backupPlace_of_mem (stamped : ∀ time, '/' ∉ store.stamp time)
    (appends : store.Appends before after added) {backup : Backup} (member : backup ∈ added) :
    store.BackupPlace before (before.placeOf backup.path) := by
  obtain ⟨time, named⟩ := appends.stamped backup member
  rw [named, placeOf_backupPath stamped]
  exact ⟨_, by simp, rfl⟩

/-- A backup was made, and then the live file was replaced or not. -/
theorem of_backedUp (backup : store.BackedUp before disk path name content)
    (settles : store.Settles disk after) : store.Appends before after [⟨path, content⟩] := by
  have formed := backup.grows.formed
  have placed : before.placeOf path = name :: store.backupPlace before := by
    rw [formed.locate_eq_placeOf backup.leads, placeOf_congr backup.grows.here]
  have apart : ¬store.LivePlace disk (name :: store.backupPlace before) := fun live =>
    live.not_backupPlace before ⟨name, backup.isPrefixOf, rfl⟩
  have here := settles.here.trans backup.grows.here
  refine ⟨settles.formed, here, by simp, ?_, ?_, ?_, ?_, ?_, ?_⟩
  · obtain ⟨time, rfl⟩ := backup.stamped
    simpa using ⟨time, backup.named⟩
  · simpa [placed] using backup.free
  · simpa [placed] using settles.ways.locate formed settles.formed backup.leads
  · simpa [placed] using (settles.node _ apart).trans backup.there
  · exact (keepsOthers_of_grows backup.grows).trans backup.grows.here settles.keepsOthers
  · intro other node free there
    by_cases live : store.LivePlace disk (other :: store.backupPlace before)
    · exact Or.inr (Or.inl ((livePlace_congr backup.grows.here).1 live))
    · rw [settles.node _ live] at there
      rcases backup.grows.node (other :: store.backupPlace before) with same | ⟨-, made, found, kind⟩
      · rw [same, free] at there
        cases there
      · rw [there, Option.some.injEq] at found
        subst found
        rcases kind with directory | ⟨same, -⟩
        · exact Or.inr (Or.inr directory)
        · exact Or.inl ⟨_, List.mem_cons_self, placed.trans same.symm⟩

/-- What was added first is still there, so what is added later has other names. -/
theorem trans (stamped : ∀ time, '/' ∉ store.stamp time)
    (first : store.Appends before disk added) (second : store.Appends disk after later)
    (ways : disk.KeepsWays after) : store.Appends before after (added ++ later) := by
  have same : ∀ path, disk.placeOf path = before.placeOf path := placeOf_congr first.here
  have spot : store.backupPlace disk = store.backupPlace before := store.backupPlace_congr first.here
  have stays : ∀ backup ∈ added, after.node? (before.placeOf backup.path) =
      some (.file backup.content 0o600) := by
    intro backup member
    refine second.kept _ _ (fun live => ?_) (first.there backup member)
    exact live.not_backupPlace before (first.backupPlace_of_mem stamped member)
  have free : ∀ backup ∈ later, before.node? (before.placeOf backup.path) = none := by
    intro backup member
    have gone := second.free backup member
    rw [same] at gone
    by_contra there
    obtain ⟨node, there⟩ := Option.ne_none_iff_exists'.1 there
    have kept := first.kept _ node (fun live => ?_) there
    · rw [gone] at kept
      cases kept
    · have backups := second.backupPlace_of_mem stamped member
      rw [same] at backups
      exact live.not_backupPlace disk backups
  refine ⟨second.formed, second.here.trans first.here, ?_, ?_, ?_, ?_, ?_,
    first.kept.trans first.here second.kept, ?_⟩
  · rw [List.map_append]
    refine List.nodup_append.2 ⟨first.once, second.once, ?_⟩
    intro path early other late
    obtain ⟨former, member, rfl⟩ := List.mem_map.1 early
    obtain ⟨latter, inside, rfl⟩ := List.mem_map.1 late
    intro equal
    have there := first.there former member
    have gone := second.free latter inside
    rw [← equal, same, there] at gone
    cases gone
  · simpa [or_imp, forall_and] using ⟨first.stamped, second.stamped⟩
  · simpa [or_imp, forall_and] using ⟨first.free, free⟩
  · have leads : ∀ backup ∈ added, after.locate backup.path =
        .ok (before.placeOf backup.path) := fun backup member =>
      ways.locate first.formed second.formed (first.leads backup member)
    simpa [or_imp, forall_and, same] using ⟨leads, by simpa [same] using second.leads⟩
  · have there := second.there
    simp only [same] at there
    simpa [or_imp, forall_and] using ⟨stays, there⟩
  · intro name node gone there
    cases between : disk.node? (name :: store.backupPlace before) with
    | none =>
      have made := second.others name node (by rw [spot]; exact between) (by rw [spot]; exact there)
      rw [spot, livePlace_congr first.here] at made
      rcases made with ⟨backup, member, placed⟩ | live | directory
      · exact Or.inl ⟨backup, List.mem_append_right _ member, (same _).symm.trans placed⟩
      · exact Or.inr (Or.inl live)
      · obtain ⟨kind, above, member, placed⟩ := directory
        exact Or.inr (Or.inr ⟨kind, above, member, placed.trans (same _)⟩)
    | some found =>
      rcases first.others name found gone between with ⟨backup, member, placed⟩ | live | directory
      · exact Or.inl ⟨backup, List.mem_append_left _ member, placed⟩
      · exact Or.inr (Or.inl live)
      · by_cases live : store.LivePlace before (name :: store.backupPlace before)
        · exact Or.inr (Or.inl live)
        · have kept := second.kept _ found
            (fun standing => live ((livePlace_congr first.here).1 standing)) between
          rw [there, Option.some.injEq] at kept
          exact Or.inr (Or.inr (kept ▸ directory))

end Appends

/-- The backup that an attempt to save makes, if it gets so far. -/
def backupOf (store : Store) (old : Document) (machine : Machine) : List Backup :=
  match ((store.writeBackup old).run machine).2 with
  | .ok path => [⟨path, Utf8.encode old.render⟩]
  | .error _ => []

/-- The backups that attempts to save make, in the order in which they are made. -/
def made (store : Store) : List (Document × Document) → Machine → List Backup
  | [], _ => []
  | (old, new) :: rest, machine =>
    store.backupOf old machine ++ store.made rest ((store.persist old new).run machine).1

section

variable (stamped : ∀ time, '/' ∉ store.stamp time) (unbounded : store.maxBackups = 0)
include stamped unbounded

omit stamped in
theorem persist_eq_of_unbounded (old new : Document) :
    store.persist old new = store.replace old new := by
  have through : ∀ script : Script (Except StoreError Text),
      (script.andThen fun backup => .done (.ok backup)) = script := by
    intro script
    conv_rhs => rw [← Script.bind_done script]
    unfold Script.andThen
    congr 1
    funext result
    cases result <;> rfl
  have spared : store.prune = .done () := by
    unfold prune
    rw [if_pos unbounded]
  rw [persist_eq_replace, spared]
  exact through _

/-- An attempt to save that gets past its backup settles the live file. -/
theorem persist_run (formed : machine.disk.WellFormed) (old new : Document) :
    let backup := (store.writeBackup old).run machine
    let run := (store.persist old new).run machine
    match backup.2 with
    | .error e => run = (backup.1, .error e)
    | .ok path => run.1 = ((store.writeLive new).run backup.1).1 ∧
        store.Settles backup.1.disk run.1.disk ∧
        (run.2 = .ok path ∨ ∃ path cause, run.2 = .error (.write path cause)) := by
  intro backup run
  have ending := (writeBackup_ensures stamped formed old).2
  have shape : run = ((store.replace old new).run machine) :=
    congrArg (Script.run · machine) (persist_eq_of_unbounded unbounded old new)
  simp only [replace, Script.run_andThen] at shape
  cases result : ((store.writeBackup old).run machine).2 with
  | error e =>
    simp only [result] at shape
    simp only [backup]
    exact shape
  | ok path =>
    rw [result] at ending
    obtain ⟨name, backedUp⟩ := ending
    have live := (writeLive_ensures store backedUp.grows.formed new).2
    simp only [result] at shape
    simp only [backup]
    cases written : ((store.writeLive new).run ((store.writeBackup old).run machine).1).2 with
    | ok =>
      rw [written] at live
      simp only [written] at shape
      rw [shape]
      exact ⟨rfl, live.settles, Or.inl rfl⟩
    | error e =>
      rw [written] at live
      simp only [written] at shape
      obtain ⟨⟨path, cause, rfl⟩, same⟩ := live
      rw [shape]
      exact ⟨rfl, settles_of_nothing same, Or.inr ⟨path, cause, rfl⟩⟩

theorem persist_appends (formed : machine.disk.WellFormed) (old new : Document) :
    store.Appends machine.disk ((store.persist old new).run machine).1.disk
      (store.backupOf old machine) := by
  have ending := (writeBackup_ensures stamped formed old).2
  have run := persist_run stamped unbounded formed old new
  unfold backupOf
  cases result : ((store.writeBackup old).run machine).2 with
  | error e =>
    simp only [result] at run
    rw [result] at ending
    rw [run]
    exact .of_directories ending.2
  | ok path =>
    simp only [result] at run
    rw [result] at ending
    obtain ⟨name, backedUp⟩ := ending
    exact .of_backedUp backedUp run.2.1

theorem persist_recorded (formed : machine.disk.WellFormed) (old new : Document)
    {pairs : List (Document × Document)} {results : List (Except StoreError Text)}
    {added : List Backup} (rest : store.Recorded pairs results added) :
    store.Recorded ((old, new) :: pairs) (((store.persist old new).run machine).2 :: results)
      (store.backupOf old machine ++ added) := by
  have ending := (writeBackup_ensures stamped formed old).2
  have run := persist_run stamped unbounded formed old new
  unfold backupOf
  cases result : ((store.writeBackup old).run machine).2 with
  | error e =>
    simp only [result] at run
    rw [result] at ending
    obtain ⟨⟨path, cause, rfl⟩, -⟩ := ending
    rw [run]
    exact .notBackedUp rest
  | ok path =>
    simp only [result] at run
    rcases run.2.2 with done | ⟨other, cause, failed⟩
    · rw [done]
      exact .saved rest
    · rw [failed]
      exact .notWritten rest

/-- In the course of saving nothing is lost but the live file as it was. -/
theorem keepsOthers_persist (formed : machine.disk.WellFormed) (old new : Document) :
    ∀ state ∈ (store.persist old new).states machine,
      store.KeepsOthers machine.disk state.disk := by
  rw [persist_eq_of_unbounded unbounded]
  intro state member
  rcases (replace_ensures stamped formed old new).1 state member with grows | ⟨_, _, _, backup, live⟩
  · exact keepsOthers_of_grows grows
  · exact (keepsOthers_of_grows backup.grows).trans backup.grows.here live.settles.keepsOthers

theorem keepsOthers_persistAll (formed : machine.disk.WellFormed)
    (pairs : List (Document × Document)) :
    ∀ state ∈ (store.persistAll pairs).states machine,
      store.KeepsOthers machine.disk state.disk := by
  induction pairs generalizing machine with
  | nil =>
    intro state member
    rw [List.mem_singleton.1 member]
    exact fun _ _ _ => id
  | cons pair rest ih =>
    obtain ⟨old, new⟩ := pair
    intro state member
    have first := keepsOthers_persist stamped unbounded formed old new
    rcases Script.mem_states_bind.1 member with early | late
    · exact first state early
    · have appends := persist_appends stamped unbounded formed old new
      have later := ih appends.formed state (Script.mem_states_bind_done.1 late)
      exact (first _ (Script.run_mem_states _ _)).trans appends.here later

theorem persistAll_appends (formed : machine.disk.WellFormed)
    (pairs : List (Document × Document)) :
    let run := (store.persistAll pairs).run machine
    store.Recorded pairs run.2 (store.made pairs machine) ∧
      store.Appends machine.disk run.1.disk (store.made pairs machine) := by
  induction pairs generalizing machine with
  | nil => exact ⟨.none, .of_directories (.refl formed)⟩
  | cons pair rest ih =>
    obtain ⟨old, new⟩ := pair
    have first := persist_appends stamped unbounded formed old new
    obtain ⟨recorded, later⟩ := ih first.formed
    simp only [persistAll, Script.run_bind, Script.run_done]
    exact ⟨persist_recorded stamped unbounded formed old new recorded,
      first.trans stamped later (Script.keepsWays_run _ _)⟩

end

end Store

end SambaShares
