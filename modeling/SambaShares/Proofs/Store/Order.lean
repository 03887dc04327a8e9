import SambaShares.Proofs.Stamp
import SambaShares.Proofs.Store.History
/-!
The order of the backups. A backup has the first free time from the reading of the clock on. If the
clock never goes back, all times from its next reading up to the newest backup are taken, so the next
backup is later than all before it, however often the clock stands still.
-/

namespace SambaShares

/-- A request that does not look at the clock. -/
def Effect.untimed : Effect → Bool
  | .clock => false
  | _ => true

/-- The clock is as it was, and was not looked at. -/
structure Machine.Still (before after : Machine) : Prop where
  clock : after.clock = before.clock
  readings : after.readings = before.readings

theorem Machine.Still.refl (machine : Machine) : machine.Still machine := ⟨rfl, rfl⟩

theorem Machine.Still.perform {before middle : Machine} (still : before.Still middle)
    {effect : Effect} (untimed : effect.untimed = true) :
    before.Still (middle.perform effect).1 := by
  have same : ((middle.perform effect).1.clock, (middle.perform effect).1.readings) =
      (middle.clock, middle.readings) := by
    cases effect with
    | makeDirectory | createFresh | write | setMode | rename | remove =>
      exact middle.changed_congr (fun state => (state.clock, state.readings)) (fun _ _ => rfl) _ _
    | read | list | probe | isFile | isDirectory | start => rfl
    | clock => cases untimed
  rw [Prod.mk.injEq] at same
  exact ⟨same.1.trans still.clock, same.2.trans still.readings⟩

/-- The clock goes on as it did, and was looked at once at most. -/
structure Machine.Ticks (before after : Machine) : Prop where
  clock : after.clock = before.clock
  least : before.readings ≤ after.readings
  most : after.readings ≤ before.readings + 1

namespace Machine.Ticks

variable {before middle after : Machine}

theorem of_still (still : before.Still after) : before.Ticks after :=
  ⟨still.clock, still.readings.ge, still.readings ▸ Nat.le_succ _⟩

theorem of_reading (still : before.Still middle) : before.Ticks (middle.perform .clock).1 := by
  have once : (middle.perform .clock).1.readings = before.readings + 1 :=
    congrArg (· + 1) still.readings
  exact ⟨still.clock, once ▸ Nat.le_succ _, once.le⟩

theorem trans (ticks : before.Ticks middle) (still : middle.Still after) : before.Ticks after :=
  ⟨still.clock.trans ticks.clock, still.readings ▸ ticks.least, still.readings ▸ ticks.most⟩

end Machine.Ticks

theorem Script.OnlyAsks.still {α : Type} {script : Script α}
    (only : script.OnlyAsks Effect.untimed) (machine : Machine) :
    ∀ state ∈ script.states machine, machine.Still state :=
  only.preserves (fun _ _ untimed still => still.perform untimed) (.refl machine)

namespace Store

open Disk

variable {store : Store} {machine : Machine} {before disk after : Disk} {old new : Document}
variable {unfinished path name : Text} {content : Bytes} {mode : Nat} {place : Place}

/-- A number has no letter in it and no point. -/
theorem not_mem_padded (number : Nat) :
    "backup".toList ≠ Text.padded 6 number ∧ '.' ∉ Text.padded 6 number := by
  constructor
  · intro same
    have digit := Text.isDigit_of_mem_padded (same ▸ (by decide : 'b' ∈ "backup".toList))
    revert digit
    decide
  · intro point
    have digit := Text.isDigit_of_mem_padded point
    revert digit
    decide

/-- The name of an unfinished file is not that of a backup, whatever the live file is called. -/
theorem Unfinished.not_isPrefixOf (unfinished : Unfinished name) (store : Store) :
    ¬store.backupStart.isPrefixOf name = true := by
  intro start
  obtain ⟨rest, shape⟩ := List.isPrefixOf_iff_prefix.1 start
  -- Between two points a backup has a word that no unfinished file has there.
  have word : "backup".toList ∈ name.splitOn '.' := by
    obtain ⟨front, begins⟩ : ∃ front, store.backupStart = front ++ ".backup.".toList := ⟨_, rfl⟩
    have parts : name = front ++ '.' :: ("backup".toList ++ '.' :: rest) := by
      rw [← shape, begins]
      simp
    rw [parts, List.splitOn_append_cons_self,
      List.splitOn_append_cons_self_of_not_mem (by decide)]
    simp
  rcases unfinished with ⟨number, -, rfl⟩ | ⟨number, -, rfl⟩
  · obtain ⟨other, whole⟩ := not_mem_padded number
    have parts : Path.temporaryName ".smbshare-backup.".toList [] number =
        [] ++ '.' :: ("smbshare-backup".toList ++ '.' :: Text.padded 6 number) := by
      simp [Path.temporaryName]
    rw [parts, List.splitOn_append_cons_self, List.splitOn_append_cons_self_of_not_mem (by decide),
      List.splitOn_eq_singleton whole, List.splitOn_nil] at word
    simp only [List.singleton_append, List.mem_cons, List.not_mem_nil, or_false] at word
    rcases word with none | first | digits
    · cases none
    · exact absurd first (by decide)
    · exact other digits
  · obtain ⟨other, whole⟩ := not_mem_padded number
    have parts : Path.temporaryName ".smbshare.".toList ".tmp".toList number =
        [] ++ '.' :: ("smbshare".toList ++ '.' :: (Text.padded 6 number ++ '.' :: "tmp".toList)) := by
      simp [Path.temporaryName]
    rw [parts, List.splitOn_append_cons_self, List.splitOn_append_cons_self_of_not_mem (by decide),
      List.splitOn_append_cons_self_of_not_mem whole, List.splitOn_nil,
      @List.splitOn_eq_singleton _ "tmp".toList _ _ _ (by decide)] at word
    simp only [List.singleton_append, List.mem_cons, List.not_mem_nil, or_false] at word
    rcases word with none | first | digits | last
    · cases none
    · exact absurd first (by decide)
    · exact other digits
    · exact absurd last (by decide)

theorem endsInName_backupPath (stamped : ∀ time, '/' ∉ store.stamp time) (time : Nat) :
    endsInName (store.backupPath time) = true := by
  obtain ⟨some, plain⟩ := store.isName_backup time
  have whole : '/' ∉ store.backupStart ++ store.stamp time := by
    rw [List.mem_append, not_or]
    exact ⟨store.whole_backupStart, stamped time⟩
  rw [endsInName, backupPath, Path.components_join some whole, List.getLast?_concat]
  exact plain

/-- The first of so many times, from `time` on, at which there is no backup. -/
structure FirstFree (store : Store) (disk : Disk) (time attempts chosen : Nat) : Prop where
  least : time ≤ chosen
  most : chosen < time + attempts
  taken : ∀ earlier, time ≤ earlier → earlier < chosen →
    (disk.node? (disk.placeOf (store.backupPath earlier))).isSome

/-- A backup that gets a name gets the first one that is free. -/
def Chooses (store : Store) (disk : Disk) (time attempts : Nat) :
    Except StoreError Text → Machine → Prop
  | .ok path, _ =>
    ∃ chosen, path = store.backupPath chosen ∧ store.FirstFree disk time attempts chosen
  | .error _, _ => True

theorem nameBackup_chooses (stamped : ∀ time, '/' ∉ store.stamp time)
    (puts : Puts before machine.disk unfinished place content mode)
    (free : before.node? place = none) (attempts time : Nat) :
    (store.nameBackup unfinished attempts time).Ensures machine (fun _ => True)
      (store.Chooses machine.disk time attempts) := by
  induction attempts generalizing machine time with
  | zero => exact Script.ensures_request.2 ⟨trivial, Script.ensures_done.2 ⟨trivial, trivial⟩⟩
  | succ attempts ih =>
    refine Script.ensures_request.2 ⟨trivial, ?_⟩
    rcases puts.perform_rename free true (store.backupPath time) with
      ⟨cause, refused, same, reason⟩ | ⟨goal, renamed, -⟩
    · rw [refused]
      cases cause with
      | alreadyExists =>
        refine (ih (same.symm ▸ puts) (time + 1)).mono (fun _ => id) ?_
        rintro (e | path) state - later
        · trivial
        obtain ⟨chosen, named, low, high, taken⟩ := later
        rw [same] at taken
        refine ⟨chosen, named, by omega, by omega, fun earlier since before => ?_⟩
        rcases Nat.eq_or_lt_of_le since with rfl | next
        · exact puts.formed.isSome_of_rename puts.leads puts.there
            (endsInName_backupPath stamped _) (reason rfl)
        · exact taken earlier next before
      | _ => exact Script.ensures_request.2 ⟨trivial, Script.ensures_done.2 ⟨trivial, trivial⟩⟩
    · rw [renamed]
      exact Script.ensures_done.2 ⟨trivial, time, rfl, Nat.le_refl _, by omega, by omega⟩

theorem untimed_giveUp {α : Type} (unfinished : Text) (e : StoreError) :
    (giveUp unfinished e : Script (Except StoreError α)).OnlyAsks Effect.untimed :=
  (Script.onlyAsks_request rfl).bind fun _ => trivial

theorem untimed_nameBackup (store : Store) (unfinished : Text) (attempts time : Nat) :
    (store.nameBackup unfinished attempts time).OnlyAsks Effect.untimed := by
  induction attempts generalizing time with
  | zero => exact untimed_giveUp _ _
  | succ attempts ih =>
    refine (Script.onlyAsks_request rfl).bind fun answer => ?_
    split
    · trivial
    · exact ih _
    · exact untimed_giveUp _ _

theorem untimed_writeLive (store : Store) (new : Document) :
    (store.writeLive new).OnlyAsks Effect.untimed := by
  refine (Script.onlyAsks_request rfl).bind fun answer => ?_
  split
  · trivial
  · refine (Script.onlyAsks_request rfl).bind fun answer => ?_
    split
    · exact untimed_giveUp _ _
    · refine (Script.onlyAsks_request rfl).bind fun answer => ?_
      split
      · exact untimed_giveUp _ _
      · refine (Script.onlyAsks_request rfl).bind fun answer => ?_
        split
        · exact untimed_giveUp _ _
        · trivial

/-- A file that is being prepared is not at the place of a backup. -/
theorem Chooses.of_puts (stamped : ∀ time, '/' ∉ store.stamp time)
    (puts : Puts before after path (name :: place) content mode) (unfinished : Unfinished name)
    {time attempts : Nat} {result : Except StoreError Text}
    (chooses : store.Chooses after time attempts result machine) :
    store.Chooses before time attempts result machine := by
  rcases result with e | path
  · trivial
  obtain ⟨chosen, named, least, most, taken⟩ := chooses
  refine ⟨chosen, named, least, most, fun earlier since early => ?_⟩
  have there := taken earlier since early
  rw [placeOf_congr puts.here, puts.node, if_neg] at there
  · exact there
  · intro same
    rw [placeOf_backupPath stamped, List.cons.injEq] at same
    have other := unfinished.not_isPrefixOf store
    rw [← same.1] at other
    exact other (by simp)

/-- How the clock and the times that are taken lead to the name of a backup. -/
theorem fillBackup_chooses (stamped : ∀ time, '/' ∉ store.stamp time)
    (formed : machine.disk.WellFormed) (old : Document) :
    (store.fillBackup old).Ensures machine machine.Ticks
      (store.Chooses machine.disk (machine.clock machine.readings) nameAttempts) := by
  refine Script.ensures_request.2 ⟨.of_still (.refl machine), ?_⟩
  have first := (Machine.Still.refl machine).perform
    (show (Effect.createFresh store.backupDir ".smbshare-backup.".toList []).untimed = true from rfl)
  rcases perform_createFresh formed store.backupDir ".smbshare-backup.".toList [] (by decide) with
    ⟨cause, refused, -⟩ | ⟨unfinished, name, created, temporary, free, empty⟩
  · rw [refused]
    exact Script.ensures_done.2 ⟨.of_still first, trivial⟩
  rw [created]
  generalize (machine.perform (.createFresh store.backupDir ".smbshare-backup.".toList [])).1 =
    fresh at first empty ⊢
  refine Script.ensures_request.2 ⟨.of_still first, ?_⟩
  have second := first.perform
    (show (Effect.write unfinished (Utf8.encode old.render)).untimed = true from rfl)
  rcases empty.perform_write (Utf8.encode old.render) with
    ⟨cause, refused, -⟩ | ⟨written, full⟩
  · rw [refused]
    exact Script.ensures_request.2 ⟨.of_still second,
      Script.ensures_done.2 ⟨.of_still (second.perform rfl), trivial⟩⟩
  rw [written]
  generalize (fresh.perform (.write unfinished (Utf8.encode old.render))).1 = filled
    at second full ⊢
  refine Script.ensures_request.2 ⟨.of_still second, fun state member => ?_, ?_⟩
  · exact (Machine.Ticks.of_reading second).trans
      ((store.untimed_nameBackup unfinished nameAttempts _).still _ state member)
  · have shown : filled.clock filled.readings = machine.clock machine.readings :=
      congr second.clock second.readings
    have named := (@nameBackup_chooses store (filled.perform .clock).1 _ _ _ _ _ stamped full free
      nameAttempts (filled.clock filled.readings)).2
    rw [← shown]
    exact named.of_puts stamped full (Or.inl temporary)

/-- No directory has to be made. -/
theorem Ready.writeBackup_run (ready : store.Ready machine.disk) (formed : machine.disk.WellFormed)
    (old : Document) :
    (store.writeBackup old).run machine = (store.fillBackup old).run machine := by
  rw [writeBackup_eq_fillBackup, Script.run_bind,
    Files.makeDirectories_run_of_directory formed ready.leads ready.directory]

/-- From `low` on and before `high` the names of backups are in the order of their times. -/
def Ordered (store : Store) (low high : Nat) : Prop :=
  ∀ first second, low ≤ first → first < second → second < high →
    Text.lessEq (store.stamp first) (store.stamp second) = true ∧
      store.stamp first ≠ store.stamp second

theorem Ordered.eq_of_stamp_eq {low high first second : Nat} (ordered : store.Ordered low high)
    (firstLow : low ≤ first) (firstHigh : first < high) (secondLow : low ≤ second)
    (secondHigh : second < high) (same : store.stamp first = store.stamp second) :
    first = second := by
  rcases Nat.lt_trichotomy first second with less | equal | more
  · exact absurd same (ordered first second firstLow less secondHigh).2
  · exact equal
  · exact absurd same.symm (ordered second first secondLow more firstHigh).2

/-- The backups that there are, by their times, and what the clock is going to show. All times from
its next reading up to the last of them are taken. -/
structure InOrder (store : Store) (low high : Nat) (machine : Machine) (times : List Nat) :
    Prop where
  formed : machine.disk.WellFormed
  ready : store.Ready machine.disk
  forward : ∀ i j, machine.readings ≤ i → i ≤ j → machine.clock i ≤ machine.clock j
  started : low ≤ machine.clock machine.readings
  names : ∀ name, store.backupStart.isPrefixOf name = true →
    ((machine.disk.node? (name :: store.backupPlace machine.disk)).isSome ↔
      ∃ time ∈ times, name = store.backupStart ++ store.stamp time)
  increasing : times.Pairwise (· < ·)
  within : ∀ time ∈ times, low ≤ time ∧ time < high
  filled : ∀ last ∈ times, ∀ time, machine.clock machine.readings ≤ time → time ≤ last →
    time ∈ times

namespace InOrder

variable {low high chosen : Nat} {times : List Nat} {next : Machine}

/-- The clock has gone on, and there are the same backups. -/
theorem ticks (inOrder : store.InOrder low high machine times) (ticks : machine.Ticks next)
    (formed : next.disk.WellFormed) (ways : machine.disk.KeepsWays next.disk)
    (same : ∀ place, store.BackupPlace machine.disk place →
      next.disk.node? place = machine.disk.node? place) :
    store.InOrder low high next times where
  formed := formed
  ready := inOrder.ready.of_keepsWays ways inOrder.formed formed
  forward i j since before := by
    rw [ticks.clock]
    exact inOrder.forward i j (Nat.le_trans ticks.least since) before
  started := by
    rw [ticks.clock]
    exact Nat.le_trans inOrder.started (inOrder.forward _ _ (Nat.le_refl _) ticks.least)
  names name start := by
    rw [store.backupPlace_congr ways.here, same _ ⟨name, start, rfl⟩]
    exact inOrder.names name start
  increasing := inOrder.increasing
  within := inOrder.within
  filled last member time since before := by
    rw [ticks.clock] at since
    exact inOrder.filled last member time
      (Nat.le_trans (inOrder.forward _ _ (Nat.le_refl _) ticks.least) since) before

theorem taken_iff (stamped : ∀ time, '/' ∉ store.stamp time)
    (inOrder : store.InOrder low high machine times) (ordered : store.Ordered low high) {time : Nat}
    (least : low ≤ time) (most : time < high) :
    (machine.disk.node? (machine.disk.placeOf (store.backupPath time))).isSome ↔ time ∈ times := by
  rw [placeOf_backupPath stamped, inOrder.names _ (by simp)]
  constructor
  · rintro ⟨other, member, same⟩
    obtain ⟨otherLow, otherHigh⟩ := inOrder.within other member
    rw [ordered.eq_of_stamp_eq least most otherLow otherHigh (List.append_cancel_left same)]
    exact member
  · exact fun member => ⟨time, member, rfl⟩

/-- The first free time is later than all that are taken. -/
theorem concat (stamped : ∀ time, '/' ∉ store.stamp time)
    (inOrder : store.InOrder low high machine times) (ordered : store.Ordered low high)
    (first : store.FirstFree machine.disk (machine.clock machine.readings) nameAttempts chosen)
    (bound : machine.clock machine.readings + nameAttempts ≤ high)
    (free : machine.disk.node? (machine.disk.placeOf (store.backupPath chosen)) = none)
    (puts : Puts machine.disk next.disk (store.backupPath chosen)
      (machine.disk.placeOf (store.backupPath chosen)) content mode)
    (ticks : machine.Ticks next) : store.InOrder low high next (times ++ [chosen]) := by
  have least := Nat.le_trans inOrder.started first.least
  have most := Nat.lt_of_lt_of_le first.most bound
  have new : chosen ∉ times := by
    rw [← inOrder.taken_iff stamped ordered least most, free]
    simp
  have later : ∀ time ∈ times, time < chosen := by
    intro time member
    by_contra notLess
    exact new (inOrder.filled time member chosen first.least (Nat.le_of_not_lt notLess))
  have goesOn := inOrder.forward _ _ (Nat.le_refl _) ticks.least
  have here := store.backupPlace_congr puts.here
  exact {
    formed := puts.formed
    ready := inOrder.ready.of_keepsWays ⟨puts.here, fun _ => puts.directory⟩ inOrder.formed
      puts.formed
    forward := by
      intro i j since before
      rw [ticks.clock]
      exact inOrder.forward i j (Nat.le_trans ticks.least since) before
    started := by
      rw [ticks.clock]
      exact Nat.le_trans inOrder.started goesOn
    names := by
      intro name start
      rw [here, puts.node, placeOf_backupPath stamped]
      by_cases same : name = store.backupStart ++ store.stamp chosen
      · simp only [same, if_true, Option.isSome_some, true_iff]
        exact ⟨chosen, by simp, rfl⟩
      · rw [if_neg (by simpa using same), inOrder.names name start]
        simp [or_and_right, exists_or, same]
    increasing := by
      refine List.pairwise_append.2 ⟨inOrder.increasing, by simp, ?_⟩
      intro time member other only
      rw [List.mem_singleton.1 only]
      exact later time member
    within := by
      intro time member
      rcases List.mem_append.1 member with old | last
      · exact inOrder.within time old
      · rw [List.mem_singleton.1 last]
        exact ⟨least, most⟩
    filled := by
      intro last member time since before
      rw [ticks.clock] at since
      have since := Nat.le_trans goesOn since
      refine List.mem_append.2 ?_
      rcases List.mem_append.1 member with old | new
      · exact Or.inl (inOrder.filled last old time since before)
      · rw [List.mem_singleton.1 new] at before
        rcases Nat.eq_or_lt_of_le before with rfl | earlier
        · exact Or.inr (by simp)
        · left
          rw [← inOrder.taken_iff stamped ordered (Nat.le_trans inOrder.started since) (by omega)]
          exact first.taken time since earlier }

/-- One attempt to save adds a later backup or none. -/
theorem persist (stamped : ∀ time, '/' ∉ store.stamp time) (unbounded : store.maxBackups = 0)
    (inOrder : store.InOrder low high machine times) (ordered : store.Ordered low high)
    (bound : machine.clock machine.readings + nameAttempts ≤ high) (old new : Document) :
    let next := ((store.persist old new).run machine).1
    machine.Ticks next ∧ ∃ more, (store.backupOf old machine).map Backup.path =
      more.map store.backupPath ∧ store.InOrder low high next (times ++ more) := by
  intro next
  have formed := inOrder.formed
  have same := inOrder.ready.writeBackup_run formed old
  have chooses := fillBackup_chooses stamped formed old
  have ticked := chooses.always_run
  have ending := (fillBackup_ensures stamped formed old).2
  have run := persist_run stamped unbounded formed old new
  simp only [same] at run
  unfold backupOf
  rw [same]
  cases result : ((store.fillBackup old).run machine).2 with
  | error e =>
    simp only [result] at run
    rw [result] at ending
    have after : next = ((store.fillBackup old).run machine).1 := by simp only [next, run]
    rw [after]
    refine ⟨ticked, [], rfl, ?_⟩
    rw [List.append_nil]
    refine inOrder.ticks ticked ending.2.formed (Script.keepsWays_run _ _) fun place spot => ?_
    exact (settles_of_nothing ending.2).node place fun live => live.not_backupPlace _ spot
  | ok path =>
    simp only [result] at run
    rw [result] at ending
    have chosen := chooses.2
    rw [result] at chosen
    obtain ⟨chosen, rfl, first⟩ := chosen
    obtain ⟨-, -, free, puts⟩ := ending
    obtain ⟨after, settles, -⟩ := run
    have last : next = _ := after
    have still := (store.untimed_writeLive new).still ((store.fillBackup old).run machine).1 next
      (last ▸ Script.run_mem_states _ _)
    refine ⟨ticked.trans still, [chosen], rfl, ?_⟩
    have made := inOrder.concat stamped ordered first bound free puts ticked
    refine made.ticks (.of_still still) settles.formed settles.ways fun place spot => ?_
    exact settles.node place fun live => live.not_backupPlace _ spot

/-- As long as the names keep their order, so do the backups. -/
theorem persistAll (stamped : ∀ time, '/' ∉ store.stamp time) (unbounded : store.maxBackups = 0)
    (inOrder : store.InOrder low high machine times) (ordered : store.Ordered low high)
    (pairs : List (Document × Document))
    (bound : ∀ i < pairs.length, machine.clock (machine.readings + i) + nameAttempts ≤ high) :
    ∃ more, (store.made pairs machine).map Backup.path = more.map store.backupPath ∧
      store.InOrder low high ((store.persistAll pairs).run machine).1 (times ++ more) := by
  induction pairs generalizing machine times with
  | nil => exact ⟨[], rfl, by simpa [Store.persistAll] using inOrder⟩
  | cons pair rest ih =>
    obtain ⟨old, new⟩ := pair
    obtain ⟨ticks, more, paths, first⟩ :=
      inOrder.persist stamped unbounded ordered (bound 0 (by simp)) old new
    have later : ∀ i < rest.length, ((store.persist old new).run machine).1.clock
        (((store.persist old new).run machine).1.readings + i) + nameAttempts ≤ high := by
      intro i small
      have forward := inOrder.forward (((store.persist old new).run machine).1.readings + i)
        (machine.readings + (i + 1)) (by have := ticks.least; omega) (by have := ticks.most; omega)
      rw [ticks.clock]
      exact Nat.le_trans (Nat.add_le_add_right forward _) (bound (i + 1) (by simpa using small))
    obtain ⟨others, laterPaths, last⟩ := ih first later
    refine ⟨more ++ others, ?_, ?_⟩
    · rw [made, List.map_append, List.map_append, paths, laterPaths]
    · simp only [Store.persistAll, Script.run_bind, Script.run_done]
      rw [← List.append_assoc]
      exact last

/-- The list of the backups is in the order of their times. -/
theorem listBackups (inOrder : store.InOrder low high machine times)
    (ordered : store.Ordered low high) :
    (store.listBackups.run machine).2 = .ok (times.map store.backupPath) := by
  have sorted : store.backupNames (machine.disk.namesIn (store.backupPlace machine.disk)) =
      times.map fun time => store.backupStart ++ store.stamp time := by
    have less : ∀ first ∈ times, ∀ second ∈ times, first < second →
        Text.lessEq (store.stamp first) (store.stamp second) = true ∧
          store.stamp first ≠ store.stamp second := fun first early second late earlier =>
      ordered first second (inOrder.within first early).1 earlier (inOrder.within second late).2
    have pairs : (times.map fun time => store.backupStart ++ store.stamp time).Pairwise
        fun first second => Text.lessEq first second = true ∧ first ≠ second := by
      rw [List.pairwise_map]
      refine inOrder.increasing.imp_of_mem fun early late earlier => ?_
      obtain ⟨low, apart⟩ := less _ early _ late earlier
      exact ⟨by rw [Text.lessEq_append_left]; exact low, by simpa using apart⟩
    refine (store.sorted_backupNames (nodup_namesIn _ _)).eq_of_mem_iff
      ⟨pairs.imp And.left, pairs.imp And.right⟩ fun name => ?_
    rw [mem_backupNames, mem_namesIn, List.mem_map]
    constructor
    · rintro ⟨there, start⟩
      obtain ⟨time, member, rfl⟩ := (inOrder.names name start).1 there
      exact ⟨time, member, rfl⟩
    · rintro ⟨time, member, rfl⟩
      have start : store.backupStart.isPrefixOf (store.backupStart ++ store.stamp time) = true := by
        simp
      exact ⟨(inOrder.names _ start).2 ⟨time, member, rfl⟩, start⟩
  rw [inOrder.ready.listBackups_run inOrder.formed, sorted, List.map_map]
  rfl

end InOrder

/-- History is append-only when all backups are kept. Whatever the clock shows, in the course of saving
nothing that there was is changed or removed but the live file, and each attempt that gets past its
backup adds this one file, under a name that was free, to the backup directory. If no backups were there
at first and the clock never goes back, they are listed in the order in which they were made. -/
theorem persistAll_history (stamped : ∀ time, '/' ∉ store.stamp time)
    (formed : machine.disk.WellFormed) (unbounded : store.maxBackups = 0)
    (pairs : List (Document × Document)) :
    let run := (store.persistAll pairs).run machine
    (∀ state ∈ (store.persistAll pairs).states machine,
      store.KeepsOthers machine.disk state.disk) ∧
    ∃ added, store.Recorded pairs run.2 added ∧ store.Appends machine.disk run.1.disk added ∧
      ∀ names high, machine.disk.list store.backupDir = .ok names →
        (∀ name ∈ names, ¬store.backupStart.isPrefixOf name = true) →
        (∀ i j, machine.readings ≤ i → i ≤ j → machine.clock i ≤ machine.clock j) →
        store.Ordered (machine.clock machine.readings) high →
        (∀ i < pairs.length, machine.clock (machine.readings + i) + nameAttempts ≤ high) →
        (store.listBackups.run run.1).2 = .ok (added.map Backup.path) := by
  intro run
  obtain ⟨recorded, appends⟩ := persistAll_appends stamped unbounded formed pairs
  refine ⟨keepsOthers_persistAll stamped unbounded formed pairs, _, recorded, appends, ?_⟩
  intro names high listed none forward ordered bound
  obtain ⟨ready, rfl⟩ := ready_of_list formed listed
  have start : store.InOrder (machine.clock machine.readings) high machine [] := by
    refine ⟨formed, ready, forward, Nat.le_refl _, fun name start => ?_, .nil, by simp, by simp⟩
    have absent := fun member => none name member start
    rw [mem_namesIn] at absent
    simpa using absent
  obtain ⟨times, paths, last⟩ := start.persistAll stamped unbounded ordered pairs bound
  rw [List.nil_append] at last
  rw [last.listBackups ordered, paths]

/-- Three documents are saved while the clock stands still. -/
theorem persistAll_history_still :
    let store : Store :=
      { confPath := "/smb.conf".toList, backupDir := "/b".toList, maxBackups := 0 }
    let machine : Machine :=
      { disk := Disk.put {} ["b".toList] .directory, clock := fun _ => 0 }
    let document (text : String) : Document := .parse text.toList
    let pairs := [(document "[a]", document "[b]"), (document "[b]", document "[c]"),
      (document "[c]", document "")]
    let run := (store.persistAll pairs).run machine
    (∀ state ∈ (store.persistAll pairs).states machine,
      store.KeepsOthers machine.disk state.disk) ∧
    run.2 = [.ok "/b/smb.conf.backup.19700101_000000.000000".toList,
      .ok "/b/smb.conf.backup.19700101_000000.000001".toList,
      .ok "/b/smb.conf.backup.19700101_000000.000002".toList] ∧
    ∃ added, store.Recorded pairs run.2 added ∧ store.Appends machine.disk run.1.disk added ∧
      (store.listBackups.run run.1).2 = .ok (added.map Backup.path) := by
  intro store machine document pairs run
  have formed : machine.disk.WellFormed := by decide +kernel
  have listed : machine.disk.list store.backupDir = .ok [] := by decide +kernel
  have stamps : ∀ second < 16, ∀ first < second,
      Text.lessEq (Stamp.text first) (Stamp.text second) = true ∧
        Stamp.text first ≠ Stamp.text second := by decide +kernel
  have ordered : store.Ordered 0 16 := fun first second _ less small => stamps second small first less
  obtain ⟨kept, added, recorded, appends, lists⟩ :=
    @persistAll_history store machine Stamp.whole_text formed rfl pairs
  refine ⟨kept, by decide +kernel, added, recorded, appends, ?_⟩
  exact lists [] 16 listed (by simp) (fun _ _ _ _ => Nat.le_refl 0) ordered
    (fun _ _ => Nat.le_refl 16)

/-- A live file in the backup directory and a directory on the way to it are entries as well: they are
added beside the backup, and the live file is replaced by the next attempt. -/
theorem persist_adds_other_entries :
    let store : Store :=
      { confPath := "/b/smb.conf".toList, backupDir := "/b/x/..".toList, maxBackups := 0 }
    let machine : Machine :=
      { disk := Disk.put {} ["b".toList] .directory, clock := fun _ => 0 }
    let first := (store.persist (.parse []) (.parse "[a]".toList)).run machine
    let second := (store.persist (.parse "[a]".toList) (.parse [])).run first.1
    store.backupPlace machine.disk = ["b".toList] ∧ machine.disk.namesIn ["b".toList] = [] ∧
      first.2 = .ok "/b/x/../smb.conf.backup.19700101_000000.000000".toList ∧
      first.1.disk.namesIn ["b".toList] = ["smb.conf".toList,
        "smb.conf.backup.19700101_000000.000000".toList, "x".toList] ∧
      first.1.disk.node? ["smb.conf".toList, "b".toList] ≠
        second.1.disk.node? ["smb.conf".toList, "b".toList] := by
  decide +kernel

end Store

end SambaShares
