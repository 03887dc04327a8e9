import SambaShares.Proofs.Disk.Compare
import SambaShares.Proofs.Script.Ensures
import SambaShares.Files
/-!
Making a directory with those that it stands in adds no more than these, wherever it is cut off, and
nothing at all if it exists.
-/

namespace SambaShares

namespace Files

open Disk

variable {machine : Machine} {before : Disk}

/-- A directory at the end of one of the paths. -/
def DirectoryAt (disk : Disk) (paths : List Text) (place : Place) (node : Node) : Prop :=
  node = .directory ∧ ∃ path ∈ paths, place = disk.placeOf path

/-- A request to make one of these directories or to look for one. -/
def makes (paths : List Text) : Effect → Bool
  | .makeDirectory path => paths.contains path
  | .isDirectory _ => true
  | _ => false

theorem onlyAsks_makeAll (paths : List Text) : (makeAll paths).OnlyAsks (makes paths) := by
  have accepts : ∀ wanted path cause, (makeAll.accept path cause).OnlyAsks (makes wanted) :=
    fun _ _ _ => ⟨rfl, fun _ => trivial⟩
  induction paths with
  | nil => trivial
  | cons path above ih =>
    have wanted : makes (path :: above) (.makeDirectory path) = true := by simp [makes]
    unfold makeAll
    split
    · trivial
    · refine ⟨wanted, fun answer => ?_⟩
      rcases answer with cause | made
      · cases cause with
        | noEntry =>
          refine (ih.mono ?_).andThen fun _ => ⟨wanted, fun again => ?_⟩
          · intro effect allows
            cases effect with
            | makeDirectory other => simpa [makes] using Or.inr (by simpa [makes] using allows)
            | isDirectory => rfl
            | _ => cases allows
          · cases again with
            | ok => trivial
            | error cause => exact accepts _ path cause
        | _ => exact accepts _ path _
      · trivial

theorem grows_perform {paths : List Text} (effect : Effect) (allows : makes paths effect = true)
    (grows : Grows (DirectoryAt before paths) before machine.disk) :
    Grows (DirectoryAt before paths) before (machine.perform effect).1.disk := by
  cases effect with
  | makeDirectory path =>
    rcases machine.perform_makeDirectory path with ⟨cause, -, same⟩ | ⟨after, made, done, -⟩
    · rw [same]
      exact grows
    · obtain ⟨place, leads, fits, free, rfl⟩ := makeDirectory_eq_ok made
      have placed : place = before.placeOf path :=
        (grows.formed.locate_eq_placeOf leads).trans (placeOf_congr grows.here path)
      have wanted : path ∈ paths := by simpa [makes] using allows
      have step := grows.formed.grows leads fits free
        (show DirectoryAt before paths place .directory from ⟨rfl, path, wanted, placed⟩)
      rw [done]
      exact grows.trans step
  | isDirectory path => exact grows
  | _ => cases allows

/-- Making a directory adds no more than it and those that it stands in. -/
theorem grows_makeDirectories (formed : machine.disk.WellFormed) (path : Text) :
    ∀ state ∈ (makeDirectories path).states machine,
      Grows (DirectoryAt machine.disk (Path.ancestors path)) machine.disk state.disk :=
  (onlyAsks_makeAll _).preserves (fun _ => grows_perform) (Grows.refl formed)

/-- A directory that exists need not be made. -/
theorem makeDirectories_run_of_directory (formed : machine.disk.WellFormed) {path : Text}
    {place : Place} (leads : machine.disk.locate path = .ok place)
    (there : machine.disk.node? place = some .directory) :
    (makeDirectories path).run machine = (machine, .ok ()) := by
  have given : path ≠ [] := (formed.locate_eq_ok leads).2.1
  have refused : machine.disk.makeDirectory path = .error .alreadyExists := by
    simp [Disk.makeDirectory, leads, formed.closed.lookup there, bind, Except.bind, throw,
      throwThe, MonadExceptOf.throw]
  have found : machine.disk.isDirectory path = true := by
    simp [Disk.isDirectory, formed.find_of_locate leads there (Or.inl rfl)]
  rw [makeDirectories, Path.ancestors, makeAll, if_neg (by simpa using given)]
  simp only [Script.makeDirectory, Script.request, Script.bind, Script.run, Machine.perform,
    Machine.changed, refused, Except.map, makeAll.accept, Script.isDirectory, found, if_true]

end Files

end SambaShares
