import SambaShares.Proofs.Disk.Place
import SambaShares.Proofs.Stamp
/-!
The names in a directory: each entry is listed once, and a temporary file has a name that an entry can
have. Whether a disk is well formed is told by its entries.
-/

namespace SambaShares.Disk

theorem isSome_node?_iff {disk : Disk} {name : Text} {up : Place} :
    (disk.node? (name :: up)).isSome ↔ name :: up ∈ disk.nodes.keys := by
  rw [Std.TreeMap.mem_keys, Std.TreeMap.mem_iff_isSome_getElem?]
  rfl

theorem mem_namesIn {disk : Disk} {name : Text} {directory : Place} :
    name ∈ disk.namesIn directory ↔ (disk.node? (name :: directory)).isSome := by
  rw [isSome_node?_iff, namesIn, List.mem_filterMap]
  constructor
  · rintro ⟨place, member, shown⟩
    rcases place with _ | ⟨first, up⟩
    · cases shown
    · dsimp only at shown
      split at shown
      · next same =>
        cases shown
        rw [beq_iff_eq] at same
        exact same ▸ member
      · cases shown
  · intro member
    exact ⟨_, member, by simp⟩

theorem nodup_namesIn (disk : Disk) (directory : Place) : (disk.namesIn directory).Nodup := by
  have keys : disk.nodes.keys.Nodup := Std.TreeMap.nodup_keys
  unfold namesIn
  refine List.Pairwise.filterMap _ ?_ keys
  rintro first second apart name here other there rfl
  rcases first with _ | ⟨firstName, firstUp⟩
  · cases here
  rcases second with _ | ⟨secondName, secondUp⟩
  · cases there
  simp only [Option.ite_none_right_eq_some, beq_iff_eq, Option.some.injEq] at here there
  exact apart (by rw [here.1, here.2, there.1, there.2])

/-- A name that a temporary file may have. -/
def Temporary (start finish name : Text) : Prop :=
  ∃ number < 1000000, name = Path.temporaryName start finish number

theorem firstFree_le (start finish : Text) (taken : List Text) (more number : Nat) :
    firstFree start finish taken more number ≤ number + more := by
  induction more generalizing number with
  | zero => exact Nat.le_refl number
  | succ more ih =>
    unfold firstFree
    split
    · have later := ih (number + 1)
      omega
    · omega

theorem temporary_freshName (disk : Disk) (directory start finish : Text) :
    Temporary start finish (disk.freshName directory start finish) := by
  refine ⟨_, ?_, rfl⟩
  have most := firstFree_le start finish ((disk.list directory).toOption.getD []) 999999 0
  omega

/-- A temporary file has a name that an entry can have. -/
theorem Temporary.isName {start finish name : Text} (temporary : Temporary start finish name)
    (whole : '/' ∉ start ++ finish) : name ≠ [] ∧ '/' ∉ name ∧ Disk.isName name = true := by
  obtain ⟨number, -, rfl⟩ := temporary
  have long : 2 < (Path.temporaryName start finish number).length := by
    simp [Path.temporaryName, Text.padded]
    omega
  have other : ∀ short : Text, short.length ≤ 2 →
      Path.temporaryName start finish number ≠ short := by
    rintro short small rfl
    omega
  refine ⟨other [] (by decide), ?_, by simp [Disk.isName, other]⟩
  intro inside
  simp only [Path.temporaryName, List.mem_append] at inside
  rcases inside with (front | digit) | back
  · exact whole (List.mem_append_left _ front)
  · have number := Text.isDigit_of_mem_padded digit
    revert number
    decide
  · exact whole (List.mem_append_right _ back)

/-- What makes an entry of a disk well formed. -/
def Fits (disk : Disk) : Place → Prop
  | [] => True
  | name :: up =>
    disk.node? up = some .directory ∧ Utf8.size name ≤ longestName ∧ Path.IsEntry name

instance (disk : Disk) : (place : Place) → Decidable (disk.Fits place)
  | [] => isTrue trivial
  | name :: up => inferInstanceAs (Decidable (disk.node? up = some .directory ∧
      Utf8.size name ≤ longestName ∧ Path.IsEntry name))

theorem wellFormed_iff_fits {disk : Disk} :
    disk.WellFormed ↔ ∀ place ∈ disk.nodes.keys, disk.Fits place := by
  constructor
  · intro formed place member
    cases place with
    | nil => trivial
    | cons name up =>
      have stands := isSome_node?_iff.2 member
      exact ⟨(formed.closed name up stands).1, (formed.closed name up stands).2,
        formed.entry name up stands⟩
  · intro fits
    constructor
    · intro name up stands
      obtain ⟨inside, short, -⟩ := fits _ (isSome_node?_iff.1 stands)
      exact ⟨inside, short⟩
    · intro name up stands
      exact (fits _ (isSome_node?_iff.1 stands)).2.2

instance (disk : Disk) : Decidable disk.WellFormed :=
  decidable_of_iff (∀ place ∈ disk.nodes.keys, disk.Fits place) wellFormed_iff_fits.symm

end SambaShares.Disk
