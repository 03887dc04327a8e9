import SambaShares.Proofs.Disk.Place
import SambaShares.Machine
/-!
What each request to the disk can do, once and for all: where it succeeds, at which place, and what
then stands there; and what is left where the machine refuses it. Each keeps the disk well formed, and
with it every script does.
-/

namespace SambaShares

namespace Disk

variable {disk after : Disk} {path : Text} {place : Place}

theorem node?_put_of_ne_nil (disk : Disk) (some : place ≠ []) (node : Node) (other : Place) :
    (disk.put place node).node? other = if other = place then .some node else disk.node? other := by
  rw [node?_put]
  by_cases same : other = place
  · subst same
    simp [some]
  · simp [same, Ne.symm same]

theorem node?_erase_of_ne_nil (disk : Disk) (some : place ≠ []) (other : Place) :
    (disk.erase place).node? other = if other = place then none else disk.node? other := by
  rw [node?_erase]
  by_cases same : other = place
  · subst same
    simp [some]
  · simp [same, Ne.symm same]

theorem ne_nil_of_not_directory (other : disk.node? place ≠ some .directory) : place ≠ [] := by
  rintro rfl
  exact other rfl

theorem ne_nil_of_file {content : Bytes} {mode : Nat}
    (file : disk.node? place = some (.file content mode)) : place ≠ [] := by
  rintro rfl
  cases file

theorem directory_put (replaced : disk.node? place ≠ some .directory) (node : Node) {other : Place}
    (there : disk.node? other = some .directory) :
    (disk.put place node).node? other = some .directory := by
  rw [node?_put_of_ne_nil disk (ne_nil_of_not_directory replaced), if_neg]
  · exact there
  · rintro rfl
    exact replaced there

theorem directory_erase (removed : disk.node? place ≠ some .directory) {other : Place}
    (there : disk.node? other = some .directory) :
    (disk.erase place).node? other = some .directory := by
  rw [node?_erase_of_ne_nil disk (ne_nil_of_not_directory removed), if_neg]
  · exact there
  · rintro rfl
    exact removed there

/-- Anything may be put where a path leads, but in the place of a directory. -/
theorem WellFormed.put (formed : disk.WellFormed) (leads : disk.locate path = .ok place)
    (fits : Utf8.size (place.headD []) ≤ longestName)
    (replaced : disk.node? place ≠ some .directory) (node : Node) :
    (disk.put place node).WellFormed := by
  obtain ⟨name, up, rfl⟩ := List.exists_cons_of_ne_nil (ne_nil_of_not_directory replaced)
  obtain ⟨stands, entry⟩ := formed.locate_cons leads
  have view := node?_put_of_ne_nil disk (List.cons_ne_nil name up) node
  constructor
  · intro child above there
    rw [view] at there
    split at there
    · next same =>
      cases same
      exact ⟨directory_put replaced node stands, fits⟩
    · obtain ⟨outer, short⟩ := formed.closed child above there
      exact ⟨directory_put replaced node outer, short⟩
  · intro child above there
    rw [view] at there
    split at there
    · next same =>
      cases same
      exact entry
    · exact formed.entry child above there

theorem WellFormed.erase (formed : disk.WellFormed) (removed : disk.node? place ≠ some .directory) :
    (disk.erase place).WellFormed := by
  have view := node?_erase_of_ne_nil disk (ne_nil_of_not_directory removed)
  constructor
  · intro child above there
    rw [view] at there
    split at there
    · cases there
    · obtain ⟨outer, short⟩ := formed.closed child above there
      exact ⟨directory_erase removed outer, short⟩
  · intro child above there
    rw [view] at there
    split at there
    · cases there
    · exact formed.entry child above there

/-- Every directory is still there, so whatever leads to a place still does. -/
structure KeepsWays (before after : Disk) : Prop where
  here : after.here = before.here
  directory : ∀ place, before.node? place = some .directory →
    after.node? place = some .directory

namespace KeepsWays

theorem refl (disk : Disk) : disk.KeepsWays disk := ⟨rfl, fun _ => id⟩

theorem trans {first second third : Disk} (former : first.KeepsWays second)
    (latter : second.KeepsWays third) : first.KeepsWays third :=
  ⟨latter.here.trans former.here, fun place there =>
    latter.directory place (former.directory place there)⟩

theorem put (replaced : disk.node? place ≠ some .directory) (node : Node) :
    disk.KeepsWays (disk.put place node) :=
  ⟨rfl, fun _ => directory_put replaced node⟩

theorem erase (removed : disk.node? place ≠ some .directory) : disk.KeepsWays (disk.erase place) :=
  ⟨rfl, fun _ => directory_erase removed⟩

theorem locate (keeps : disk.KeepsWays after) (formed : disk.WellFormed)
    (formedAfter : after.WellFormed) (leads : disk.locate path = .ok place) :
    after.locate path = .ok place :=
  formed.locate_mono formedAfter keeps.here keeps.directory leads

end KeepsWays

theorem makeDirectory_eq_ok (made : disk.makeDirectory path = .ok after) :
    ∃ place, disk.locate path = .ok place ∧ Utf8.size (place.headD []) ≤ longestName ∧
      disk.node? place = none ∧ after = disk.put place .directory := by
  obtain ⟨place, leads, made⟩ := bind_eq_ok_iff.1 made
  obtain ⟨found, seen, made⟩ := bind_eq_ok_iff.1 made
  obtain ⟨rfl, fits⟩ := lookup_eq_ok seen
  split at made
  · cases made
  · next free => exact ⟨place, leads, fits, free, (Except.ok.inj made).symm⟩

/-- The directory in which a new file is made for a directory given as a path. -/
def freshDirectory (directory : Text) : Text := if directory.isEmpty then ['.'] else directory

theorem createFresh_eq_ok {directory start finish : Text}
    (created : disk.createFresh directory start finish = .ok (after, path)) :
    path = Path.join (freshDirectory directory)
        (disk.freshName (freshDirectory directory) start finish) ∧
      ∃ place, disk.locate path = .ok place ∧ Utf8.size (place.headD []) ≤ longestName ∧
        disk.node? place = none ∧ after = disk.put place (.file [] 0o600) := by
  obtain ⟨place, leads, created⟩ := bind_eq_ok_iff.1 created
  obtain ⟨found, seen, created⟩ := bind_eq_ok_iff.1 created
  obtain ⟨rfl, fits⟩ := lookup_eq_ok seen
  split at created
  · cases created
  · next free =>
    cases created
    exact ⟨rfl, place, leads, fits, free, rfl⟩

/-- A file can be written at the path: it leads to one, or to a free name in a directory. -/
structure Takes (disk : Disk) (path : Text) (place : Place) : Prop where
  leads : disk.locate path = .ok place
  fits : Utf8.size (place.headD []) ≤ longestName
  noSlash : Path.endsInSlash path = false
  replaced : disk.node? place ≠ some .directory

theorem WellFormed.takes_of_file (formed : disk.WellFormed) {content : Bytes} {mode : Nat}
    (found : disk.find path = .ok (.file content mode)) : ∃ place, disk.Takes path place := by
  obtain ⟨place, leads, file, slash⟩ := find_eq_ok found
  obtain ⟨name, up, rfl⟩ := List.exists_cons_of_ne_nil (ne_nil_of_file file)
  have fits := (formed.closed name up (by simp [file])).2
  exact ⟨name :: up, leads, fits, slash.resolve_left (by simp), by simp [file]⟩

theorem write_eq_ok {content : Bytes} (written : disk.write path content = .ok after) :
    ∃ place mode, Takes disk path place ∧ after = disk.put place (.file content mode) := by
  obtain ⟨place, leads, written⟩ := bind_eq_ok_iff.1 written
  split at written
  · cases written
  next noSlash =>
    rw [Bool.not_eq_true] at noSlash
    obtain ⟨found, seen, written⟩ := bind_eq_ok_iff.1 written
    obtain ⟨rfl, fits⟩ := lookup_eq_ok seen
    split at written
    · cases written
    · next old mode file =>
      exact ⟨place, _, ⟨leads, fits, noSlash, by simp [file]⟩, (Except.ok.inj written).symm⟩
    · next free =>
      exact ⟨place, _, ⟨leads, fits, noSlash, by simp [free]⟩, (Except.ok.inj written).symm⟩

theorem Takes.write_eq (takes : disk.Takes path place) (content : Bytes) :
    ∃ mode, disk.write path content = .ok (disk.put place (.file content mode)) := by
  have seen : disk.lookup place = .ok (disk.node? place) := by
    rw [lookup, if_neg (Nat.not_lt.2 takes.fits)]
  unfold write
  simp only [takes.leads, takes.noSlash, seen, bind, Except.bind, Bool.false_eq_true, if_false]
  cases there : disk.node? place with
  | none => exact ⟨_, rfl⟩
  | some node =>
    cases node with
    | directory => exact absurd there takes.replaced
    | file old mode => exact ⟨_, rfl⟩

theorem setMode_eq_ok {mode : Nat} (changed : disk.setMode path mode = .ok after) :
    after = disk ∨ ∃ place content, disk.locate path = .ok place ∧
      Utf8.size (place.headD []) ≤ longestName ∧ disk.node? place ≠ some .directory ∧
        after = disk.put place (.file content (permissions mode)) := by
  obtain ⟨place, leads, changed⟩ := bind_eq_ok_iff.1 changed
  obtain ⟨found, seen, changed⟩ := bind_eq_ok_iff.1 changed
  obtain ⟨rfl, fits⟩ := lookup_eq_ok seen
  split at changed
  · next content old file =>
    exact Or.inr ⟨place, content, leads, fits, by simp [file], (Except.ok.inj changed).symm⟩
  · exact Or.inl (Except.ok.inj changed).symm
  · cases changed

theorem rename_eq_ok {keep : Bool} {source target : Text}
    (renamed : disk.rename keep source target = .ok after) :
    ∃ origin goal content mode, disk.locate source = .ok origin ∧ disk.locate target = .ok goal ∧
      Utf8.size (goal.headD []) ≤ longestName ∧ endsInName target = true ∧
      Path.endsInSlash target = false ∧ disk.node? origin = some (.file content mode) ∧
      disk.node? goal ≠ some .directory ∧ (keep = true → disk.node? goal = none) ∧
      after = (disk.erase origin).put goal (.file content mode) := by
  obtain ⟨origin, source, renamed⟩ := bind_eq_ok_iff.1 renamed
  obtain ⟨goal, target, renamed⟩ := bind_eq_ok_iff.1 renamed
  dsimp only at renamed
  split at renamed
  · cases renamed
  next named =>
    obtain ⟨first, seen, renamed⟩ := bind_eq_ok_iff.1 renamed
    obtain ⟨rfl, -⟩ := lookup_eq_ok seen
    obtain ⟨second, seen, renamed⟩ := bind_eq_ok_iff.1 renamed
    obtain ⟨rfl, fits⟩ := lookup_eq_ok seen
    split at renamed
    · cases renamed
    · cases renamed
    · next content mode file =>
      split at renamed
      · cases renamed
      next kept =>
        split at renamed
        · cases renamed
        next noSlash =>
          split at renamed
          · cases renamed
          next other =>
            refine ⟨origin, goal, content, mode, source, target, fits, by simpa using named,
              by simpa using noSlash, file, by simpa using other, ?_, (Except.ok.inj renamed).symm⟩
            intro keeps
            simpa [keeps] using kept

theorem lookup_ne_alreadyExists (disk : Disk) (place : Place) :
    disk.lookup place ≠ .error .alreadyExists := by
  unfold lookup
  split <;> simp

theorem enter_ne_alreadyExists (disk : Disk) (place : Place) (name : Text) :
    disk.enter place name ≠ .error .alreadyExists := by
  intro refused
  rcases bind_eq_error_iff.1 refused with missing | ⟨there, -, refused⟩
  · exact disk.lookup_ne_alreadyExists place missing
  rcases there with _ | ⟨content, mode⟩ | _
  · cases refused
  · cases refused
  · dsimp only at refused
    split at refused
    · cases refused
    · split at refused <;> cases refused

/-- That something stands at the end of a path is not a reason why the path leads nowhere. -/
theorem WellFormed.locate_ne_alreadyExists (formed : disk.WellFormed) (path : Text) :
    disk.locate path ≠ .error .alreadyExists := by
  have walk : ∀ (components : List Text) (start : Place),
      components.foldlM disk.enter start ≠ .error .alreadyExists := by
    intro components
    induction components with
    | nil => simp [pure, Except.pure]
    | cons name rest ih =>
      intro start refused
      rw [List.foldlM_cons] at refused
      rcases bind_eq_error_iff.1 refused with first | ⟨next, -, later⟩
      · exact disk.enter_ne_alreadyExists start name first
      · exact ih next later
  unfold locate
  split
  · simp
  · split
    · simp
    · split
      · simp
      · rw [formed.closed.follow_eq_foldlM]
        exact walk _ _

/-- A file that may not replace another one meets one. -/
theorem WellFormed.isSome_of_rename (formed : disk.WellFormed) {source target : Text}
    {content : Bytes} {mode : Nat}
    (leads : disk.locate source = .ok place) (file : disk.node? place = some (.file content mode))
    (named : endsInName target = true)
    (refused : disk.rename true source target = .error .alreadyExists) :
    (disk.node? (disk.placeOf target)).isSome := by
  rcases bind_eq_error_iff.1 refused with missing | ⟨origin, found, refused⟩
  · rw [leads] at missing
    cases missing
  cases leads.symm.trans found
  rcases bind_eq_error_iff.1 refused with aims | ⟨goal, aims, refused⟩
  · exact absurd aims (formed.locate_ne_alreadyExists target)
  rw [← formed.locate_eq_placeOf aims]
  simp only [named, Bool.not_true, Bool.false_eq_true, if_false, formed.closed.lookup file] at refused
  rcases bind_eq_error_iff.1 refused with seen | ⟨first, seen, refused⟩
  · cases seen
  cases seen
  rcases bind_eq_error_iff.1 refused with seen | ⟨there, seen, refused⟩
  · exact absurd seen (disk.lookup_ne_alreadyExists goal)
  rw [← (lookup_eq_ok seen).1]
  cases there with
  | some node => rfl
  | none =>
    simp only [Option.isSome_none, Bool.and_false, Bool.false_eq_true, if_false] at refused
    split at refused
    · cases refused
    · split at refused <;> cases refused

theorem remove_eq_ok (removed : disk.remove path = .ok after) :
    ∃ place content mode, disk.locate path = .ok place ∧
      disk.node? place = some (.file content mode) ∧ after = disk.erase place := by
  obtain ⟨place, leads, removed⟩ := bind_eq_ok_iff.1 removed
  obtain ⟨found, seen, removed⟩ := bind_eq_ok_iff.1 removed
  obtain ⟨rfl, -⟩ := lookup_eq_ok seen
  split at removed
  · cases removed
  · cases removed
  · next content mode file =>
    split at removed
    · cases removed
    · exact ⟨place, content, mode, leads, file, (Except.ok.inj removed).symm⟩

theorem not_directory_erase {other : Place} (removed : disk.node? place ≠ some .directory)
    (absent : disk.node? other ≠ some .directory) :
    (disk.erase place).node? other ≠ some .directory := by
  rw [node?_erase_of_ne_nil disk (ne_nil_of_not_directory removed)]
  split
  · simp
  · exact absent

theorem WellFormed.rename (formed : disk.WellFormed) {keep : Bool} {source target : Text}
    (renamed : disk.rename keep source target = .ok after) : after.WellFormed := by
  obtain ⟨origin, goal, content, mode, -, leads, fits, -, -, file, other, -, rfl⟩ :=
    rename_eq_ok renamed
  have removed : disk.node? origin ≠ some .directory := by simp [file]
  have erased := formed.erase removed
  have still : (disk.erase origin).locate target = .ok goal :=
    formed.locate_mono erased rfl (fun _ => directory_erase removed) leads
  exact erased.put still fits (not_directory_erase removed other) _

/-- What a request can make of a disk: something is put where no directory is, a file is taken away or
gets another name, or nothing changes. -/
inductive Alters (disk : Disk) : Disk → Prop
  | nothing : Alters disk disk
  | put {path : Text} {place : Place} (leads : disk.locate path = .ok place)
    (fits : Utf8.size (place.headD []) ≤ longestName)
    (replaced : disk.node? place ≠ some .directory) (node : Node) : Alters disk (disk.put place node)
  | erase {place : Place} (removed : disk.node? place ≠ some .directory) :
    Alters disk (disk.erase place)
  | rename {keep : Bool} {source target : Text} {after : Disk}
    (renamed : disk.rename keep source target = .ok after) : Alters disk after

theorem Alters.wellFormed (alters : disk.Alters after) (formed : disk.WellFormed) :
    after.WellFormed := by
  cases alters with
  | nothing => exact formed
  | put leads fits replaced node => exact formed.put leads fits replaced node
  | erase removed => exact formed.erase removed
  | rename renamed => exact formed.rename renamed

theorem Alters.keepsWays (alters : disk.Alters after) : disk.KeepsWays after := by
  cases alters with
  | nothing => exact .refl disk
  | put leads fits replaced node => exact .put replaced node
  | erase removed => exact .erase removed
  | rename renamed =>
    obtain ⟨origin, goal, content, mode, -, -, -, -, -, file, other, -, rfl⟩ := rename_eq_ok renamed
    have removed : disk.node? origin ≠ some .directory := by simp [file]
    exact (KeepsWays.erase removed).trans (.put (not_directory_erase removed other) _)

theorem alters_of_write {content : Bytes} (written : disk.write path content = .ok after) :
    disk.Alters after := by
  obtain ⟨place, mode, takes, rfl⟩ := write_eq_ok written
  exact .put takes.leads takes.fits takes.replaced _

/-- A text that is refused for want of space is written in part, if at all. -/
theorem leftOf_write (disk : Disk) (path : Text) (content : Bytes) (want : Want) :
    disk.leftOf (.write path content) want = disk ∨
      ∃ room, disk.write path (content.take room) =
        .ok (disk.leftOf (.write path content) want) := by
  cases want with
  | rights => exact Or.inl rfl
  | space room =>
    simp only [leftOf]
    cases written : disk.write path (content.take room) with
    | error cause => exact Or.inl rfl
    | ok after => exact Or.inr ⟨room, written⟩

end Disk

namespace Machine

variable {machine : Machine} {α : Type}

/-- What comes of a change: the disk refuses it, something is wanting for it, or it is made. -/
theorem changed_cases (machine : Machine) (effect : Effect) (result : Except IoError (Disk × α)) :
    (∃ cause, result = .error cause ∧ machine.changed effect result = (machine, .error cause)) ∨
    (∃ made want, result = .ok made ∧ machine.wanting? effect = some want ∧
      (machine.changed effect result).1.disk = machine.disk.leftOf effect want ∧
      (machine.changed effect result).2 = .error want.error) ∨
    ∃ made, result = .ok made ∧ machine.wanting? effect = none ∧
      (machine.changed effect result).1.disk = made.1 ∧
      (machine.changed effect result).2 = .ok made.2 := by
  rcases result with cause | made
  · exact Or.inl ⟨cause, rfl, rfl⟩
  · right
    cases wanting : machine.wanting? effect with
    | none => exact Or.inr ⟨made, rfl, rfl, by simp [changed, wanting], by simp [changed, wanting]⟩
    | some want =>
      exact Or.inl ⟨made, want, rfl, rfl, by simp [changed, wanting], by simp [changed, wanting]⟩

/-- What comes of a change that is made as a whole or not at all. -/
theorem changed_cases_of_whole (machine : Machine) (effect : Effect)
    (whole : ∀ want, machine.disk.leftOf effect want = machine.disk)
    (result : Except IoError (Disk × α)) :
    (∃ cause, (machine.changed effect result).2 = .error cause ∧
      (machine.changed effect result).1.disk = machine.disk ∧
      (result = .error cause ∨ ∃ want : Want, cause = want.error)) ∨
    ∃ made, result = .ok made ∧ (machine.changed effect result).1.disk = made.1 ∧
      (machine.changed effect result).2 = .ok made.2 := by
  rcases machine.changed_cases effect result with
    ⟨cause, refused, done⟩ | ⟨-, want, -, -, left, answer⟩ | ⟨made, found, -, changed, answer⟩
  · rw [done]
    exact Or.inl ⟨cause, rfl, rfl, Or.inl refused⟩
  · exact Or.inl ⟨_, answer, left.trans (whole want), Or.inr ⟨want, rfl⟩⟩
  · exact Or.inr ⟨made, found, changed, answer⟩

theorem map_eq_ok {result : Except IoError Disk} {disk : Disk} {answer : Unit}
    (found : result.map (·, ()) = .ok (disk, answer)) : result = .ok disk := by
  cases result with
  | error => cases found
  | ok =>
    cases found
    rfl

theorem map_eq_error {result : Except IoError Disk} {cause : IoError}
    (refused : result.map (·, ()) = .error cause) : result = .error cause := by
  cases result with
  | error => exact congrArg _ (Except.error.inj refused)
  | ok => cases refused

/-- What the disk makes of a change, and what is left of it when it is refused, is all that a change can
make of the disk. -/
theorem alters_changed {effect : Effect} {result : Except IoError (Disk × α)}
    (left : ∀ want, machine.disk.Alters (machine.disk.leftOf effect want))
    (made : ∀ disk answer, result = .ok (disk, answer) → machine.disk.Alters disk) :
    machine.disk.Alters (machine.changed effect result).1.disk := by
  rcases machine.changed_cases effect result with ⟨cause, -, done⟩ |
    ⟨-, want, -, -, done, -⟩ | ⟨⟨disk, answer⟩, found, -, done, -⟩
  · rw [done]
    exact .nothing
  · rw [done]
    exact left want
  · rw [done]
    exact made disk answer found

theorem alters_perform (machine : Machine) (effect : Effect) :
    machine.disk.Alters (machine.perform effect).1.disk := by
  cases effect with
  | makeDirectory path =>
    refine alters_changed (fun _ => .nothing) fun disk answer found => ?_
    obtain ⟨place, leads, fits, free, rfl⟩ := Disk.makeDirectory_eq_ok (map_eq_ok found)
    exact .put leads fits (by simp [free]) _
  | createFresh directory start finish =>
    refine alters_changed (fun _ => .nothing) fun disk path created => ?_
    obtain ⟨-, place, leads, fits, free, rfl⟩ := Disk.createFresh_eq_ok created
    exact .put leads fits (by simp [free]) _
  | write path content =>
    refine alters_changed (fun want => ?_) fun disk answer found =>
      Disk.alters_of_write (map_eq_ok found)
    rcases machine.disk.leftOf_write path content want with same | ⟨room, written⟩
    · rw [same]
      exact .nothing
    · exact Disk.alters_of_write written
  | setMode path mode =>
    refine alters_changed (fun _ => .nothing) fun disk answer found => ?_
    rcases Disk.setMode_eq_ok (map_eq_ok found) with rfl | ⟨place, content, leads, fits, other, rfl⟩
    · exact .nothing
    · exact .put leads fits other _
  | rename keep source target =>
    exact alters_changed (fun _ => .nothing) fun disk answer found => .rename (map_eq_ok found)
  | remove path =>
    refine alters_changed (fun _ => .nothing) fun disk answer found => ?_
    obtain ⟨place, content, mode, -, file, rfl⟩ := Disk.remove_eq_ok (map_eq_ok found)
    exact .erase (by simp [file])
  | read | list | probe | isFile | isDirectory | clock | start => exact .nothing

theorem perform_makeDirectory (machine : Machine) (path : Text) :
    let done := machine.perform (.makeDirectory path)
    (∃ cause, done.2 = .error cause ∧ done.1.disk = machine.disk) ∨
      ∃ after, machine.disk.makeDirectory path = .ok after ∧ done.1.disk = after ∧
        done.2 = .ok () := by
  rcases machine.changed_cases_of_whole (.makeDirectory path) (fun _ => rfl)
      ((machine.disk.makeDirectory path).map (·, ())) with
    ⟨cause, answer, same, -⟩ | ⟨⟨disk, _⟩, found, changed, answer⟩
  · exact Or.inl ⟨cause, answer, same⟩
  · exact Or.inr ⟨disk, map_eq_ok found, changed, answer⟩

/-- Only the disk refuses to remove a file. -/
theorem disk_perform_remove (machine : Machine) (path : Text) :
    (∃ cause, machine.disk.remove path = .error cause ∧
      (machine.perform (.remove path)).1.disk = machine.disk) ∨
    ∃ after, machine.disk.remove path = .ok after ∧
      (machine.perform (.remove path)).1.disk = after := by
  rcases machine.changed_cases (.remove path) ((machine.disk.remove path).map (·, ())) with
    ⟨cause, refused, done⟩ | ⟨-, want, -, impossible, -⟩ | ⟨⟨disk, _⟩, found, -, changed, -⟩
  · exact Or.inl ⟨cause, map_eq_error refused, congrArg (fun state => state.1.disk) done⟩
  · cases impossible
  · exact Or.inr ⟨disk, map_eq_ok found, changed⟩

theorem wellFormed_perform (formed : machine.disk.WellFormed) (effect : Effect) :
    (machine.perform effect).1.disk.WellFormed :=
  (machine.alters_perform effect).wellFormed formed

end Machine

theorem Script.keepsWays_run {α : Type} (script : Script α) (machine : Machine) :
    machine.disk.KeepsWays (script.run machine).1.disk := by
  induction script generalizing machine with
  | done => exact .refl machine.disk
  | ask effect next ih => exact (machine.alters_perform effect).keepsWays.trans (ih _ _)

/-- Every script, cut off or not, leaves the disk well formed. -/
theorem Script.wellFormed_of_mem_states {α : Type} (script : Script α) {machine state : Machine}
    (formed : machine.disk.WellFormed) (member : state ∈ script.states machine) :
    state.disk.WellFormed := by
  induction script generalizing machine with
  | done result => exact List.mem_singleton.1 member ▸ formed
  | ask effect next ih =>
    rcases List.mem_cons.1 member with rfl | later
    · exact formed
    · exact ih _ (Machine.wellFormed_perform formed effect) later

end SambaShares
