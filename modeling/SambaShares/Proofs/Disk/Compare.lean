import SambaShares.Proofs.Disk.Names
import SambaShares.Proofs.Disk.Step
/-!
How one disk compares with another: it has grown by some new things, lost some files, or has one
file in the place of what was there. A file that is being prepared under a fresh name is such a
file; whatever is done with it, the rest of the disk stays as it is.
-/

namespace SambaShares.Disk

variable {before disk after : Disk} {path : Text} {place : Place} {content : Bytes} {mode : Nat}

/-- `after` has all that `before` has, and beyond it only what is `new`. -/
structure Grows (new : Place → Node → Prop) (before after : Disk) : Prop where
  formed : after.WellFormed
  here : after.here = before.here
  node : ∀ place, after.node? place = before.node? place ∨
    before.node? place = none ∧ ∃ node, after.node? place = some node ∧ new place node

/-- Nothing, as that by which a disk grows that stays the same. -/
def nothing (_ : Place) (_ : Node) : Prop := False

namespace Grows

variable {new wider : Place → Node → Prop}

theorem refl (formed : disk.WellFormed) : Grows new disk disk :=
  ⟨formed, rfl, fun _ => Or.inl rfl⟩

theorem mono (grows : Grows new before after)
    (weaker : ∀ place node, new place node → wider place node) : Grows wider before after := by
  refine ⟨grows.formed, grows.here, fun place => ?_⟩
  rcases grows.node place with same | ⟨free, node, there, made⟩
  · exact Or.inl same
  · exact Or.inr ⟨free, node, there, weaker place node made⟩

theorem trans (first : Grows new before disk) (second : Grows new disk after) :
    Grows new before after := by
  refine ⟨second.formed, second.here.trans first.here, fun place => ?_⟩
  rcases first.node place with same | ⟨free, node, there, made⟩
  · rw [← same]
    exact second.node place
  · rcases second.node place with same | ⟨gone, -⟩
    · exact Or.inr ⟨free, node, same.trans there, made⟩
    · rw [there] at gone
      cases gone

theorem of_nothing (grows : Grows nothing before after) : Grows new before after :=
  grows.mono fun _ _ => False.elim

theorem kept (grows : Grows new before after) {node : Node}
    (there : before.node? place = some node) :
    after.node? place = some node := by
  rcases grows.node place with same | ⟨free, -⟩
  · exact same.trans there
  · rw [there] at free
    cases free

theorem free (grows : Grows new before after) (free : after.node? place = none) :
    before.node? place = none := by
  rcases grows.node place with same | ⟨none, -⟩
  · exact same.symm.trans free
  · exact none

theorem locate (grows : Grows new before after) (formed : before.WellFormed)
    (leads : before.locate path = .ok place) : after.locate path = .ok place :=
  formed.locate_mono grows.formed grows.here (fun _ => grows.kept) leads

theorem find (grows : Grows new before after) (formed : before.WellFormed) {node : Node}
    (found : before.find path = .ok node) : after.find path = .ok node := by
  obtain ⟨place, leads, there, slash⟩ := find_eq_ok found
  exact grows.formed.find_of_locate (grows.locate formed leads) (grows.kept there) slash

/-- What is read after a disk has grown where there was a way before: what was read before, or something
new. -/
theorem read_cases (grows : Grows new before after) (formed : before.WellFormed)
    (leads : before.locate path = .ok place) : after.read path = before.read path ∨
      ∃ node, before.node? place = none ∧ after.node? place = some node ∧ new place node := by
  have still := grows.locate formed leads
  rcases grows.node place with same | ⟨free, node, there, made⟩
  · refine Or.inl (read_congr (still.trans leads.symm) fun other leads => ?_)
    cases still.symm.trans leads
    exact same
  · exact Or.inr ⟨node, free, there, made⟩

end Grows

/-- Something may be made where a path leads and nothing stands. -/
theorem WellFormed.grows {new : Place → Node → Prop} {node : Node} (formed : before.WellFormed)
    (leads : before.locate path = .ok place) (fits : Utf8.size (place.headD []) ≤ longestName)
    (free : before.node? place = none) (made : new place node) :
    Grows new before (before.put place node) := by
  have replaced : before.node? place ≠ some .directory := by simp [free]
  refine ⟨formed.put leads fits replaced node, rfl, fun other => ?_⟩
  rw [node?_put_of_ne_nil before (ne_nil_of_not_directory replaced)]
  split
  · next same =>
    subst same
    exact Or.inr ⟨free, node, rfl, made⟩
  · exact Or.inl rfl

/-- The path still leads to what it led to, and nothing has come to stand where it leads. If there was no
way to it before, what stood there all along may be found only now. -/
structure Keeps (before after : Disk) (path : Text) : Prop where
  found : ∀ node, before.find path = .ok node → after.find path = .ok node
  stands : ∀ place, after.locate path = .ok place → after.node? place = before.node? place

theorem Grows.keeps {new : Place → Node → Prop} (grows : Grows new before after)
    (formed : before.WellFormed)
    (apart : ∀ place node, new place node → before.node? place = none →
      after.node? place = some node → after.locate path ≠ .ok place) : Keeps before after path := by
  refine ⟨fun node found => grows.find formed found, fun place leads => ?_⟩
  rcases grows.node place with same | ⟨free, node, there, made⟩
  · exact same
  · exact absurd leads (apart place node made free there)

/-- `after` is `before` without some files at places that may be lost. -/
structure Loses (gone : Place → Prop) (before after : Disk) : Prop where
  formed : after.WellFormed
  here : after.here = before.here
  node : ∀ place, after.node? place = before.node? place ∨
    gone place ∧ after.node? place = none ∧
      ∃ content mode, before.node? place = some (.file content mode)

namespace Loses

variable {gone wider : Place → Prop}

theorem refl (formed : disk.WellFormed) : Loses gone disk disk :=
  ⟨formed, rfl, fun _ => Or.inl rfl⟩

theorem mono (loses : Loses gone before after) (weaker : ∀ place, gone place → wider place) :
    Loses wider before after := by
  refine ⟨loses.formed, loses.here, fun place => ?_⟩
  rcases loses.node place with same | ⟨lost, rest⟩
  · exact Or.inl same
  · exact Or.inr ⟨weaker place lost, rest⟩

theorem trans (first : Loses gone before disk) (second : Loses gone disk after) :
    Loses gone before after := by
  refine ⟨second.formed, second.here.trans first.here, fun place => ?_⟩
  rcases second.node place with same | ⟨lost, free, content, mode, there⟩
  · rw [same]
    exact first.node place
  · rcases first.node place with same | ⟨-, none, -⟩
    · exact Or.inr ⟨lost, free, content, mode, same.symm.trans there⟩
    · rw [there] at none
      cases none

theorem kept (loses : Loses gone before after) (stays : ¬gone place) :
    after.node? place = before.node? place :=
  (loses.node place).resolve_right fun lost => stays lost.1

theorem directory (loses : Loses gone before after) (there : before.node? place = some .directory) :
    after.node? place = some .directory := by
  rcases loses.node place with same | ⟨-, -, content, mode, file⟩
  · exact same.trans there
  · rw [there] at file
    cases file

theorem free (loses : Loses gone before after) (free : before.node? place = none) :
    after.node? place = none := by
  rcases loses.node place with same | ⟨-, none, -⟩
  · exact same.trans free
  · exact none

theorem locate (loses : Loses gone before after) (formed : before.WellFormed)
    (leads : before.locate path = .ok place) : after.locate path = .ok place :=
  formed.locate_mono loses.formed loses.here (fun _ => loses.directory) leads

/-- No way is new where only files are lost. -/
theorem locate_before (loses : Loses gone before after) (formed : before.WellFormed)
    (leads : after.locate path = .ok place) : before.locate path = .ok place := by
  refine loses.formed.locate_mono formed loses.here.symm (fun other there => ?_) leads
  rcases loses.node other with same | ⟨-, none, -⟩
  · exact same.symm.trans there
  · rw [none] at there
    cases there

end Loses

theorem WellFormed.loses_remove (formed : before.WellFormed)
    (removed : before.remove path = .ok after) :
    Loses (fun place => before.locate path = .ok place) before after := by
  obtain ⟨place, content, mode, leads, file, rfl⟩ := remove_eq_ok removed
  refine ⟨formed.erase (by simp [file]), rfl, fun other => ?_⟩
  rw [node?_erase_of_ne_nil before (ne_nil_of_file file)]
  split
  · next same => exact Or.inr ⟨same ▸ leads, rfl, content, mode, same ▸ file⟩
  · exact Or.inl rfl

theorem list_eq_ok {names : List Text} (listed : disk.list path = .ok names) :
    ∃ place, disk.locate path = .ok place ∧ disk.node? place = some .directory ∧
      names = disk.namesIn place := by
  obtain ⟨place, leads, listed⟩ := bind_eq_ok_iff.1 listed
  obtain ⟨there, seen, listed⟩ := bind_eq_ok_iff.1 listed
  have here := (lookup_eq_ok seen).1
  rcases there with _ | ⟨content, mode⟩ | _
  · cases listed
  · cases listed
  · exact ⟨place, leads, here.symm, (Except.ok.inj listed).symm⟩

/-- `after` is `before` with one file, to which the path leads, in the place of what was there. -/
structure Puts (before after : Disk) (path : Text) (place : Place) (content : Bytes) (mode : Nat) :
    Prop where
  formed : after.WellFormed
  here : after.here = before.here
  leads : after.locate path = .ok place
  noSlash : Path.endsInSlash path = false
  replaced : before.node? place ≠ some .directory
  node : ∀ other, after.node? other =
    if other = place then some (.file content mode) else before.node? other

/-- A file is put where the path takes one. -/
theorem WellFormed.puts (formed : before.WellFormed) (takes : before.Takes path place) :
    Puts before (before.put place (.file content mode)) path place content mode := by
  have view := node?_put_of_ne_nil before (ne_nil_of_not_directory takes.replaced)
    (.file content mode)
  have formedAfter := formed.put takes.leads takes.fits takes.replaced (.file content mode)
  refine ⟨formedAfter, rfl, ?_, takes.noSlash, takes.replaced, view⟩
  refine formed.locate_mono formedAfter rfl ?_ takes.leads
  intro other directory
  rw [view, if_neg]
  · exact directory
  · rintro rfl
    exact takes.replaced directory

theorem WellFormed.puts_of_write (formed : before.WellFormed)
    (written : before.write path content = .ok after) :
    ∃ place mode, Puts before after path place content mode := by
  obtain ⟨place, mode, takes, rfl⟩ := write_eq_ok written
  exact ⟨place, mode, formed.puts takes⟩

namespace Puts

theorem there (puts : Puts before after path place content mode) :
    after.node? place = some (.file content mode) := by
  rw [puts.node, if_pos rfl]

theorem find (puts : Puts before after path place content mode) :
    after.find path = .ok (.file content mode) :=
  puts.formed.find_of_locate puts.leads puts.there (Or.inr puts.noSlash)

theorem named (puts : Puts before after path place content mode) :
    ∃ name up, place = name :: up ∧ Path.fileName? path = some name :=
  puts.formed.locate_of_endsInName puts.leads
    (puts.formed.endsInName_of_not_directory puts.leads (by simp [puts.there]))

theorem placed (puts : Puts before after path place content mode) : place = before.placeOf path :=
  (puts.formed.locate_eq_placeOf puts.leads).trans (placeOf_congr puts.here path)

theorem directory (puts : Puts before after path place content mode) {other : Place}
    (there : before.node? other = some .directory) : after.node? other = some .directory := by
  rw [puts.node, if_neg]
  · exact there
  · rintro rfl
    exact puts.replaced there

theorem locate (puts : Puts before after path place content mode) (formed : before.WellFormed)
    {other : Text} {goal : Place} (leads : before.locate other = .ok goal) :
    after.locate other = .ok goal :=
  formed.locate_mono puts.formed puts.here (fun _ => puts.directory) leads

theorem grows {new : Place → Node → Prop} (puts : Puts before after path place content mode)
    (free : before.node? place = none) (made : new place (.file content mode)) :
    Grows new before after := by
  refine ⟨puts.formed, puts.here, fun other => ?_⟩
  rw [puts.node]
  split
  · next same =>
    subst same
    exact Or.inr ⟨free, _, rfl, made⟩
  · exact Or.inl rfl

/-- Another file put in the place of the one that was put there. -/
theorem again (puts : Puts before disk path place content mode) (other : Bytes) (bits : Nat) :
    Puts before (disk.put place (.file other bits)) path place other bits := by
  obtain ⟨name, up, rfl⟩ := List.exists_cons_of_ne_nil (ne_nil_of_file puts.there)
  have fits := (puts.formed.closed name up (by simp [puts.there])).2
  have placed : Puts disk _ path _ other bits :=
    puts.formed.puts ⟨puts.leads, fits, puts.noSlash, by simp [puts.there]⟩
  refine ⟨placed.formed, puts.here, placed.leads, puts.noSlash, puts.replaced, fun found => ?_⟩
  rw [placed.node, puts.node]
  split <;> rfl

/-- Writing to the file changes nothing else. -/
theorem write (puts : Puts before disk path place content mode) (new : Bytes) :
    ∃ after, disk.write path new = .ok after ∧
      Puts before after path place new (modeAfter new mode) := by
  refine ⟨_, ?_, puts.again new (modeAfter new mode)⟩
  have seen := puts.formed.closed.lookup puts.there
  simp [Disk.write, puts.leads, puts.noSlash, seen, bind, Except.bind, pure, Except.pure]

theorem setMode (puts : Puts before disk path place content mode) (new : Nat) :
    ∃ after, disk.setMode path new = .ok after ∧
      Puts before after path place content (permissions new) := by
  refine ⟨_, ?_, puts.again content (permissions new)⟩
  have seen := puts.formed.closed.lookup puts.there
  simp [Disk.setMode, puts.leads, seen, bind, Except.bind, pure, Except.pure]

/-- Removing a file that was made anew leaves nothing of it. -/
theorem remove (puts : Puts before disk path place content mode)
    (free : before.node? place = none) :
    ∃ after, disk.remove path = .ok after ∧ Grows nothing before after := by
  have removed : disk.node? place ≠ some .directory := by simp [puts.there]
  have erased := puts.formed.erase removed
  refine ⟨disk.erase place, ?_, erased, puts.here, fun other => ?_⟩
  · have seen := puts.formed.closed.lookup puts.there
    simp [Disk.remove, puts.leads, puts.noSlash, seen, bind, Except.bind, pure, Except.pure]
  · left
    rw [node?_erase_of_ne_nil _ (ne_nil_of_file puts.there), puts.node]
    split
    · next same => rw [same, free]
    · rfl

/-- A file that was made anew takes another name, and nothing is left of the first. -/
theorem rename (puts : Puts before disk path place content mode)
    (free : before.node? place = none) {keep : Bool} {target : Text}
    (renamed : disk.rename keep path target = .ok after) :
    ∃ goal, Puts before after target goal content mode ∧
      (keep = true → before.node? goal = none) := by
  obtain ⟨origin, goal, found, bits, source, leads, fits, -, noSlash, file, other, kept, rfl⟩ :=
    rename_eq_ok renamed
  rw [puts.leads, Except.ok.injEq] at source
  subst source
  rw [puts.there, Option.some.injEq, Node.file.injEq] at file
  obtain ⟨rfl, rfl⟩ := file
  have formed := puts.formed.rename renamed
  have goalSome : goal ≠ [] := ne_nil_of_not_directory other
  have view : ∀ found, ((disk.erase place).put goal (.file content mode)).node? found =
      if found = goal then some (.file content mode)
      else if found = place then none else disk.node? found := by
    intro found
    rw [node?_put_of_ne_nil _ goalSome, node?_erase_of_ne_nil _ (ne_nil_of_file puts.there)]
  refine ⟨goal, ⟨formed, puts.here, ?_, noSlash, ?_, fun found => ?_⟩, fun keeps => ?_⟩
  · refine puts.formed.locate_mono formed rfl ?_ leads
    intro found directory
    rw [view, if_neg, if_neg]
    · exact directory
    · rintro rfl
      rw [puts.there] at directory
      cases directory
    · rintro rfl
      exact other directory
  · intro directory
    exact other (puts.directory directory)
  · rw [view, puts.node]
    split
    · rfl
    · split
      · next same => rw [same, free]
      · rfl
  · have gone := kept keeps
    rw [puts.node] at gone
    split at gone
    · cases gone
    · exact gone

variable {machine : Machine}

/-- Whatever becomes of a write to the file, the file stands where it stood. -/
theorem perform_write (puts : Puts before machine.disk path place content mode) (new : Bytes) :
    let done := machine.perform (.write path new)
    (∃ cause, done.2 = .error cause ∧ ∃ part bits, Puts before done.1.disk path place part bits) ∨
      done.2 = .ok () ∧ Puts before done.1.disk path place new (modeAfter new mode) := by
  obtain ⟨after, written, full⟩ := puts.write new
  rcases machine.changed_cases (.write path new) ((machine.disk.write path new).map (·, ())) with
    ⟨cause, failed, -⟩ | ⟨-, want, -, -, left, answer⟩ | ⟨made, done, -, changed, answer⟩
  · rw [written] at failed
    cases failed
  · refine Or.inl ⟨_, answer, ?_⟩
    dsimp only [Machine.perform]
    rw [left]
    rcases machine.disk.leftOf_write path new want with same | ⟨room, partly⟩
    · rw [same]
      exact ⟨_, _, puts⟩
    · obtain ⟨last, some, rest⟩ := puts.write (new.take room)
      rw [some, Except.ok.injEq] at partly
      exact ⟨_, _, partly ▸ rest⟩
  · rw [written] at done
    cases done
    exact Or.inr ⟨answer, changed ▸ full⟩

theorem perform_setMode (puts : Puts before machine.disk path place content mode) (new : Nat) :
    let done := machine.perform (.setMode path new)
    (∃ cause, done.2 = .error cause ∧ done.1.disk = machine.disk) ∨
      done.2 = .ok () ∧ Puts before done.1.disk path place content (permissions new) := by
  obtain ⟨after, set, granted⟩ := puts.setMode new
  rcases machine.changed_cases_of_whole (.setMode path new) (fun _ => rfl)
      ((machine.disk.setMode path new).map (·, ())) with
    ⟨cause, answer, same, -⟩ | ⟨made, done, changed, answer⟩
  · exact Or.inl ⟨cause, answer, same⟩
  · rw [set] at done
    cases done
    exact Or.inr ⟨answer, changed ▸ granted⟩

/-- Only the disk refuses to give the file another name because there is a file with this name. -/
theorem perform_rename (puts : Puts before machine.disk path place content mode)
    (free : before.node? place = none) (keep : Bool) (target : Text) :
    let done := machine.perform (.rename keep path target)
    (∃ cause, done.2 = .error cause ∧ done.1.disk = machine.disk ∧
      (cause = .alreadyExists → machine.disk.rename keep path target = .error .alreadyExists)) ∨
    ∃ goal, done.2 = .ok () ∧ Puts before done.1.disk target goal content mode ∧
      (keep = true → before.node? goal = none) := by
  rcases machine.changed_cases_of_whole (.rename keep path target) (fun _ => rfl)
      ((machine.disk.rename keep path target).map (·, ())) with
    ⟨cause, answer, same, reason⟩ | ⟨⟨after, _⟩, found, changed, answer⟩
  · refine Or.inl ⟨cause, answer, same, ?_⟩
    rintro rfl
    rcases reason with refused | ⟨want, other⟩
    · exact Machine.map_eq_error refused
    · cases want <;> cases other
  · obtain ⟨goal, placed, kept⟩ := puts.rename free (Machine.map_eq_ok found)
    exact Or.inr ⟨goal, answer, changed ▸ placed, kept⟩

/-- Nothing is left of the file after it was removed. -/
theorem perform_remove (puts : Puts before machine.disk path place content mode)
    (free : before.node? place = none) :
    Grows nothing before (machine.perform (.remove path)).1.disk := by
  obtain ⟨after, removed, same⟩ := puts.remove free
  rcases machine.disk_perform_remove path with ⟨cause, failed, -⟩ | ⟨other, done, changed⟩
  · rw [removed] at failed
    cases failed
  · cases removed.symm.trans done
    exact changed ▸ same

end Puts

theorem placeOf_freshDirectory (disk : Disk) (directory : Text) :
    disk.placeOf (freshDirectory directory) = disk.placeOf directory := by
  unfold freshDirectory
  split
  · next none =>
    rw [List.isEmpty_iff] at none
    rw [none]
    rfl
  · rfl

/-- A new file stands in the directory it was made for, under the name of a temporary file. -/
theorem WellFormed.createFresh (formed : disk.WellFormed) {directory start finish : Text}
    (whole : '/' ∉ start ++ finish)
    (created : disk.createFresh directory start finish = .ok (after, path)) :
    ∃ name, Temporary start finish name ∧ disk.node? (name :: disk.placeOf directory) = none ∧
      Puts disk after path (name :: disk.placeOf directory) [] 0o600 := by
  obtain ⟨rfl, place, leads, fits, free, rfl⟩ := createFresh_eq_ok created
  have temporary := temporary_freshName disk (freshDirectory directory) start finish
  obtain ⟨some, single, plain⟩ := temporary.isName whole
  have placed := formed.locate_eq_placeOf leads
  rw [placeOf_join disk _ some single plain, placeOf_freshDirectory] at placed
  subst placed
  refine ⟨_, temporary, free, formed.puts ⟨leads, fits, Path.endsInSlash_join some single, ?_⟩⟩
  simp [free]

theorem perform_createFresh {machine : Machine} (formed : machine.disk.WellFormed)
    (directory start finish : Text) (whole : '/' ∉ start ++ finish) :
    let done := machine.perform (.createFresh directory start finish)
    (∃ cause, done.2 = .error cause ∧ done.1.disk = machine.disk) ∨
    ∃ path name, done.2 = .ok path ∧ Temporary start finish name ∧
      machine.disk.node? (name :: machine.disk.placeOf directory) = none ∧
      Puts machine.disk done.1.disk path (name :: machine.disk.placeOf directory) [] 0o600 := by
  rcases machine.changed_cases_of_whole (.createFresh directory start finish)
      (fun _ => rfl) (machine.disk.createFresh directory start finish) with
    ⟨cause, answer, same, -⟩ | ⟨made, created, changed, answer⟩
  · exact Or.inl ⟨cause, answer, same⟩
  · obtain ⟨name, temporary, free, puts⟩ := formed.createFresh whole created
    exact Or.inr ⟨made.2, name, answer, temporary, free, changed ▸ puts⟩

end SambaShares.Disk
