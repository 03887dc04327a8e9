import Mathlib.Data.List.DropRight
import SambaShares.Proofs.Disk.Step
/-!
The directory that a path stands in: a path to a file, or to where one can be made, comes through the
directory that its text names before the last name.
-/

namespace SambaShares

namespace Path

/-- What is left of a path when slashes and `.` components are taken from its end. -/
structure Trims (path trimmed : Text) : Prop where
  start : ∃ tail, path = trimmed ++ tail
  absolute : isAbsolute path = isAbsolute trimmed
  parts : ∃ count, components path = components trimmed ++ List.replicate count ['.']
  given : path ≠ [] → trimmed ≠ []

namespace Trims

variable {path trimmed : Text}

theorem refl (path : Text) : Trims path path :=
  ⟨⟨[], by simp⟩, rfl, ⟨0, by simp⟩, id⟩

theorem slash (trims : Trims path trimmed) (given : path ≠ []) :
    Trims (path ++ ['/']) trimmed := by
  obtain ⟨tail, start⟩ := trims.start
  obtain ⟨count, parts⟩ := trims.parts
  refine ⟨⟨tail ++ ['/'], by rw [start, List.append_assoc]⟩, ?_, ⟨count, ?_⟩,
    fun _ => trims.given given⟩
  · rw [← trims.absolute]
    cases path with
    | nil => exact absurd rfl given
    | cons => rfl
  · have nothing : components [] = [] := rfl
    rw [components_append_slash, nothing, List.append_nil, parts]

theorem dot (trims : Trims path trimmed) (given : path ≠ []) :
    Trims (path ++ ['/', '.']) trimmed := by
  obtain ⟨tail, start⟩ := trims.start
  obtain ⟨count, parts⟩ := trims.parts
  refine ⟨⟨tail ++ ['/', '.'], by rw [start, List.append_assoc]⟩, ?_, ⟨count + 1, ?_⟩,
    fun _ => trims.given given⟩
  · rw [← trims.absolute]
    cases path with
    | nil => exact absurd rfl given
    | cons => rfl
  · have here : components ['.'] = [['.']] := rfl
    rw [components_append_slash, here, parts, List.replicate_succ', List.append_assoc]

end Trims

theorem trims_go (reversed : Text) : Trims reversed.reverse (trimEnd.go reversed) := by
  fun_induction trimEnd.go reversed with
  | case1 => exact .refl []
  | case2 => exact .refl ['/']
  | case3 rest apart ih =>
    rw [List.reverse_cons]
    exact ih.slash fun none => apart (List.reverse_eq_nil_iff.1 none)
  | case4 => exact ⟨⟨['.'], rfl⟩, rfl, ⟨1, rfl⟩, fun _ => List.cons_ne_nil _ _⟩
  | case5 rest apart ih =>
    have shape : ('.' :: '/' :: rest).reverse = rest.reverse ++ ['/', '.'] := by simp
    rw [shape]
    exact ih.dot fun none => apart (List.reverse_eq_nil_iff.1 none)
  | case6 reversed => exact .refl _

theorem trims_trimEnd (path : Text) : Trims path (trimEnd path) := by
  have trims := trims_go path.reverse
  rwa [List.reverse_reverse] at trims

/-- Nothing is taken from a path that ends in a name. -/
theorem trimEnd_eq_self {path last : Text} {front : List Text}
    (shape : components path = front ++ [last]) (plain : last ≠ ['.'])
    (noSlash : endsInSlash path = false) : trimEnd path = path := by
  have apart : ∀ rest, path.reverse ≠ '/' :: rest := by
    intro rest ends
    have last : path.getLast? = some '/' := by
      rw [← List.head?_reverse, ends]
      rfl
    simp [endsInSlash, last] at noSlash
  have named : ∀ rest, path.reverse ≠ '.' :: '/' :: rest := by
    intro rest ends
    have whole : path = rest.reverse ++ '/' :: ['.'] := by
      rw [← List.reverse_reverse path, ends]
      simp
    have here : components ['.'] = [['.']] := rfl
    rw [whole, components_append_slash, here] at shape
    exact plain (List.cons.inj (List.append_inj_right' shape rfl)).1.symm
  unfold trimEnd trimEnd.go
  split
  · next none => rw [List.reverse_eq_nil_iff.1 none]
  · next ends => exact absurd ends (apart _)
  · next ends => exact absurd ends (apart _)
  · next ends => exact absurd ends (named _)
  · next ends => exact absurd ends (named _)
  · exact List.reverse_reverse path

/-- The last name of a path stands after its last slash. -/
theorem rdropWhile_append {path last : Text} {front : List Text}
    (shape : components path = front ++ [last]) (noSlash : endsInSlash path = false) :
    let before := path.rdropWhile (· != '/')
    path = before ++ last ∧ components before = front ∧ (before = [] ∨ ∃ up, before = up ++ ['/']) := by
  intro before
  obtain ⟨name, cut⟩ : ∃ name, name = path.rtakeWhile (· != '/') := ⟨_, rfl⟩
  have whole : path = before ++ name := by
    rw [cut, List.rdropWhile_append_rtakeWhile]
  have uncut : '/' ∉ name := by
    intro inside
    rw [cut] at inside
    simpa using List.mem_rtakeWhile_imp inside
  have ending : before = [] ∨ ∃ up, before = up ++ ['/'] := by
    rcases List.eq_nil_or_concat before with none | ⟨up, c, ends⟩
    · exact Or.inl none
    · rw [List.concat_eq_append] at ends
      have given : before ≠ [] := by simp [ends]
      have stops := List.rdropWhile_last_not (· != '/') path given
      have slash : before.getLast given = c := by simp [ends]
      rw [slash] at stops
      exact Or.inr ⟨up, by rw [ends, show c = '/' by simpa using stops]⟩
  have nothing : components [] = [] := rfl
  have given : name ≠ [] := by
    rintro rfl
    rw [List.append_nil] at whole
    rcases ending with none | ⟨up, ends⟩
    · rw [whole, none, nothing] at shape
      simp at shape
    · simp [endsInSlash, whole, ends] at noSlash
  have parts : components path = components before ++ [name] := by
    rcases ending with none | ⟨up, ends⟩
    · rw [whole, none, nothing, List.nil_append, components_eq_singleton given uncut]
      rfl
    · rw [whole, ends, List.append_assoc, List.singleton_append, components_append_slash,
        components_append_slash, components_eq_singleton given uncut, nothing, List.append_nil]
  obtain ⟨same, last⟩ := List.append_inj' (parts.symm.trans shape) rfl
  cases last
  exact ⟨whole, same, ending⟩

end Path

namespace Disk

variable {disk : Disk} {path : Text} {place : Place}

/-- A path that takes a file comes through the directory it stands in. -/
theorem Takes.parent? (takes : disk.Takes path place) (formed : disk.WellFormed) :
    ∃ directory, Path.parent? path = some directory ∧
      (directory = [] ∨ ∃ up, disk.locate directory = .ok up ∧ disk.node? up = some .directory) := by
  obtain ⟨front, last, shape, plain⟩ := exists_components_of_endsInName
    (formed.endsInName_of_not_directory takes.leads takes.replaced)
  have dot : last ≠ ['.'] := by
    rintro rfl
    cases plain
  have counts : (Path.significant path).isEmpty = false := by
    have last := Path.significant_of_components shape dot
    cases none : Path.significant path with
    | nil => simp [none] at last
    | cons => rfl
  have parent : Path.parent? path = some (Path.trimEnd (path.rdropWhile (· != '/'))) := by
    rw [Path.parent?, if_neg (by simp [counts]), Path.trimEnd_eq_self shape dot takes.noSlash]
    rfl
  refine ⟨_, parent, ?_⟩
  obtain ⟨whole, same, ends⟩ := Path.rdropWhile_append shape takes.noSlash
  generalize path.rdropWhile (· != '/') = before at whole same ends
  rcases ends with rfl | ⟨up, ends⟩
  · exact Or.inl rfl
  have given : before ≠ [] := by simp [ends]
  have trims := Path.trims_trimEnd before
  obtain ⟨tail, start⟩ := trims.start
  obtain ⟨count, parts⟩ := trims.parts
  have absolute : Path.isAbsolute path = Path.isAbsolute (Path.trimEnd before) := by
    rw [← trims.absolute, whole]
    cases before with
    | nil => exact absurd rfl given
    | cons => rfl
  have beyond : Path.components path =
      Path.components (Path.trimEnd before) ++ (List.replicate count ['.'] ++ [last]) := by
    rw [shape, ← same, parts, List.append_assoc]
  obtain ⟨middle, found, walked⟩ := formed.locate_of_start (trims.given given)
    (show path = Path.trimEnd before ++ (tail ++ last) by rw [← List.append_assoc, ← start, ← whole])
    absolute beyond takes.leads
  refine Or.inr ⟨middle, found, ?_⟩
  -- there is at least one step from the directory on, and none leads on from anything else
  obtain ⟨first, more, steps⟩ :=
    List.exists_cons_of_ne_nil (show List.replicate count ['.'] ++ [last] ≠ [] by simp)
  rw [steps] at walked
  obtain ⟨next, entered, -⟩ := bind_eq_ok_iff.1 walked
  exact (enter_eq_ok entered).1

end Disk

end SambaShares
