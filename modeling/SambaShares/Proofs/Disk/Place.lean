import SambaShares.Proofs.Checks
import SambaShares.Proofs.Disk.Path
/-!
Where paths lead. Without links a path can lead to one place only, which can be read off its
components; whether there is a way to it depends on the directories of the disk alone, so a path
that leads somewhere still does when files come and go and directories are made.
-/

namespace SambaShares

/-- The place that one more component of a path leads to. -/
def Place.step (place : Place) (component : Text) : Place :=
  if component == ['.'] then place
  else if component == ['.', '.'] then place.tail
  else component :: place

@[simp] theorem Place.step_dot (place : Place) : place.step ['.'] = place := rfl

@[simp] theorem Place.step_dots (place : Place) : place.step ['.', '.'] = place.tail := rfl

theorem Place.step_of_isName (place : Place) {name : Text} (plain : Disk.isName name = true) :
    place.step name = name :: place := by
  simp only [Disk.isName, Bool.and_eq_true, bne_iff_ne] at plain
  simp [step, plain]

theorem Disk.isName_cases (component : Text) :
    component = ['.'] ∨ component = ['.', '.'] ∨ isName component = true := by
  by_cases dot : component = ['.']
  · exact Or.inl dot
  · by_cases dots : component = ['.', '.']
    · exact Or.inr (Or.inl dots)
    · exact Or.inr (Or.inr (by simp [isName, dot, dots]))

namespace Disk

/-- The place that a path names, whether or not there is a way to it. -/
def placeOf (disk : Disk) (path : Text) : Place :=
  (Path.components path).foldl Place.step (if Path.isAbsolute path then [] else disk.here)

theorem placeOf_congr {first second : Disk} (same : first.here = second.here) (path : Text) :
    first.placeOf path = second.placeOf path := by
  rw [placeOf, placeOf, same]

theorem placeOf_join (disk : Disk) (base : Text) {name : Text} (some : name ≠ [])
    (whole : '/' ∉ name) (plain : isName name = true) :
    disk.placeOf (Path.join base name) = name :: disk.placeOf base := by
  rw [placeOf, Path.components_join some whole, Path.isAbsolute_join whole, List.foldl_append,
    List.foldl_cons, List.foldl_nil, Place.step_of_isName _ plain]
  rfl

/-- What holds of every disk: whatever stands there stands in a directory, under a name that an
entry can have. -/
structure WellFormed (disk : Disk) : Prop where
  closed : disk.IsClosed
  entry : ∀ name up, (disk.node? (name :: up)).isSome → Path.IsEntry name

variable {disk : Disk} {path : Text} {place : Place}

theorem WellFormed.up (formed : disk.WellFormed) {name : Text} {up : Place} {node : Node}
    (there : disk.node? (name :: up) = some node) :
    disk.node? up = some .directory ∧ Path.IsEntry name :=
  have stands : (disk.node? (name :: up)).isSome := by simp [there]
  ⟨(formed.closed name up stands).1, formed.entry name up stands⟩

theorem WellFormed.tail (formed : disk.WellFormed) {place : Place}
    (there : disk.node? place = some .directory) : disk.node? place.tail = some .directory := by
  cases place with
  | nil => rfl
  | cons name up => exact (formed.up there).1

theorem lookup_eq_ok {found : Option Node} (seen : disk.lookup place = .ok found) :
    found = disk.node? place ∧ Utf8.size (place.headD []) ≤ longestName := by
  unfold lookup at seen
  split at seen
  · cases seen
  · cases seen
    exact ⟨rfl, by omega⟩

theorem enter_eq_ok {name : Text} {next : Place} (entered : disk.enter place name = .ok next) :
    disk.node? place = some .directory ∧ next = place.step name := by
  obtain ⟨found, seen, entered⟩ := bind_eq_ok_iff.1 entered
  have here := (lookup_eq_ok seen).1
  rcases found with _ | ⟨content, mode⟩ | _
  · cases entered
  · cases entered
  · refine ⟨here.symm, ?_⟩
    unfold Place.step
    dsimp only at entered
    split at entered
    · next dot =>
      rw [if_pos dot]
      exact (Except.ok.inj entered).symm
    · next notDot =>
      rw [if_neg notDot]
      split at entered
      · next dots =>
        rw [if_pos dots]
        exact (Except.ok.inj entered).symm
      · next notDots =>
        rw [if_neg notDots]
        exact (Except.ok.inj entered).symm

theorem foldlM_enter_eq_ok {start : Place} {components : List Text}
    (walked : components.foldlM disk.enter start = .ok place) :
    place = components.foldl Place.step start := by
  induction components generalizing start with
  | nil => exact (Except.ok.inj walked).symm
  | cons name rest ih =>
    obtain ⟨next, entered, walked⟩ := bind_eq_ok_iff.1 walked
    rw [List.foldl_cons, ← (enter_eq_ok entered).2]
    exact ih walked

theorem WellFormed.locate_eq_ok (formed : disk.WellFormed) (leads : disk.locate path = .ok place) :
    '\x00' ∉ path ∧ path ≠ [] ∧ (Path.components path).foldlM disk.enter
      (if Path.isAbsolute path then [] else disk.here) = .ok place := by
  unfold locate at leads
  split at leads
  · cases leads
  next clean =>
    split at leads
    · cases leads
    · split at leads
      · cases leads
      · next given =>
        rw [formed.closed.follow_eq_foldlM] at leads
        exact ⟨by simpa using clean, by simpa using given, leads⟩

/-- No path is followed that is too long. -/
theorem size_le_of_locate (leads : disk.locate path = .ok place) : Utf8.size path ≤ longestPath := by
  unfold locate at leads
  split at leads
  · cases leads
  · split at leads
    · cases leads
    · next short => exact Nat.le_of_not_lt short

theorem WellFormed.locate_eq_placeOf (formed : disk.WellFormed)
    (leads : disk.locate path = .ok place) : place = disk.placeOf path :=
  foldlM_enter_eq_ok (formed.locate_eq_ok leads).2.2

/-- The last step on the way along a path. Only the root is reached without one. -/
theorem WellFormed.last_step (formed : disk.WellFormed) (leads : disk.locate path = .ok place) :
    place = [] ∨ ∃ front last up, Path.components path = front ++ [last] ∧
      disk.node? up = some .directory ∧ place = up.step last ∧
        last ≠ [] ∧ '/' ∉ last ∧ '\x00' ∉ last := by
  obtain ⟨clean, given, walked⟩ := formed.locate_eq_ok leads
  rcases List.eq_nil_or_concat (Path.components path) with none | ⟨front, last, shape⟩
  · left
    cases absolute : Path.isAbsolute path with
    | false => exact absurd none (Path.components_ne_nil_of_relative given absolute)
    | true =>
      rw [none, absolute] at walked
      exact (Except.ok.inj walked).symm
  · right
    rw [List.concat_eq_append] at shape
    rw [shape, List.foldlM_append] at walked
    obtain ⟨up, -, entered⟩ := bind_eq_ok_iff.1 walked
    obtain ⟨next, entered, ending⟩ := bind_eq_ok_iff.1 entered
    have same : next = place := Except.ok.inj ending
    obtain ⟨stands, stepped⟩ := enter_eq_ok entered
    have member : last ∈ Path.components path := by simp [shape]
    obtain ⟨some, whole, inside⟩ := Path.mem_components member
    exact ⟨front, last, up, shape, stands, same ▸ stepped, some, whole,
      fun nul => clean (inside _ nul)⟩

/-- A path leads into a directory, to a name that an entry can have. -/
theorem WellFormed.locate_cons (formed : disk.WellFormed) {name : Text} {up : Place}
    (leads : disk.locate path = .ok (name :: up)) :
    disk.node? up = some .directory ∧ Path.IsEntry name := by
  rcases formed.last_step leads with root | ⟨front, last, before, -, stands, stepped, parts⟩
  · cases root
  · rcases isName_cases last with rfl | rfl | plain
    · rw [Place.step_dot] at stepped
      exact formed.up (stepped ▸ stands)
    · rw [Place.step_dots] at stepped
      exact formed.up (stepped ▸ formed.tail stands)
    · rw [Place.step_of_isName _ plain, List.cons.injEq] at stepped
      obtain ⟨rfl, rfl⟩ := stepped
      exact ⟨stands, parts.1, parts.2.1, parts.2.2, plain⟩

/-- A path leads on from where its beginning leads. -/
theorem WellFormed.locate_of_start (formed : disk.WellFormed) {front tail : Text} {more : List Text}
    (given : front ≠ []) (shape : path = front ++ tail)
    (absolute : Path.isAbsolute path = Path.isAbsolute front)
    (parts : Path.components path = Path.components front ++ more)
    (leads : disk.locate path = .ok place) :
    ∃ middle, disk.locate front = .ok middle ∧ more.foldlM disk.enter middle = .ok place := by
  obtain ⟨clean, -, walked⟩ := formed.locate_eq_ok leads
  rw [parts, absolute, List.foldlM_append] at walked
  obtain ⟨middle, walked, rest⟩ := bind_eq_ok_iff.1 walked
  refine ⟨middle, ?_, rest⟩
  unfold locate at leads ⊢
  rw [shape] at clean leads
  split at leads
  · cases leads
  split at leads
  · cases leads
  next short =>
    have longer : Utf8.size (front ++ tail) = Utf8.size front + Utf8.size tail := by
      simp [Utf8.size, Utf8.encode]
    rw [if_neg (by simpa using fun inside => clean (List.mem_append_left _ inside)),
      if_neg (by omega), if_neg (by simpa using given), formed.closed.follow_eq_foldlM]
    exact walked

/-- The path of an entry leads to it through the directory it stands in. -/
theorem WellFormed.locate_of_join (formed : disk.WellFormed) {base name : Text} {up : Place}
    (given : base ≠ []) (leads : disk.locate (Path.join base name) = .ok (name :: up)) :
    disk.locate base = .ok up := by
  obtain ⟨-, some, whole, -, plain⟩ := formed.locate_cons leads
  obtain ⟨tail, shape⟩ := Path.exists_join_eq_append base whole
  obtain ⟨middle, found, last⟩ := formed.locate_of_start given shape (Path.isAbsolute_join whole)
    (Path.components_join some whole) leads
  obtain ⟨next, entered, ending⟩ := bind_eq_ok_iff.1 last
  have same : next = name :: up := Except.ok.inj ending
  have stepped := (enter_eq_ok entered).2
  rw [same, Place.step_of_isName _ plain, List.cons.injEq] at stepped
  rw [stepped.2]
  exact found

theorem WellFormed.enter_of_directory (formed : disk.WellFormed) (name : Text)
    (stands : disk.node? place = some .directory) :
    disk.enter place name = .ok (place.step name) := by
  unfold enter Place.step
  rw [formed.closed.lookup stands]
  dsimp only [bind, Except.bind]
  split
  · rfl
  · split <;> rfl

/-- The other way round, if the path of the entry is not too long. -/
theorem WellFormed.locate_join (formed : disk.WellFormed) {base name : Text} {up : Place}
    (leads : disk.locate base = .ok up) (stands : disk.node? up = some .directory)
    (entry : Path.IsEntry name) (short : Utf8.size (Path.join base name) ≤ longestPath) :
    disk.locate (Path.join base name) = .ok (name :: up) := by
  obtain ⟨clean, -, walked⟩ := formed.locate_eq_ok leads
  have noNul : '\x00' ∉ Path.join base name := by
    intro inside
    rcases Path.mem_of_mem_join entry.whole inside with before | slash | after
    · exact clean before
    · cases slash
    · exact entry.noNul after
  have given : Path.join base name ≠ [] := by
    intro none
    have parts : Path.components (Path.join base name) = Path.components base ++ [name] :=
      Path.components_join entry.some entry.whole
    rw [none] at parts
    simp [Path.components] at parts
  have step : disk.enter up name = .ok (name :: up) := by
    rw [formed.enter_of_directory name stands, Place.step_of_isName _ entry.plain]
  rw [locate, if_neg (by simpa using noNul), if_neg (Nat.not_lt.2 short),
    if_neg (by simpa using given), formed.closed.follow_eq_foldlM,
    Path.isAbsolute_join entry.whole, Path.components_join entry.some entry.whole,
    List.foldlM_append, walked]
  simp [bind, Except.bind, step, pure, Except.pure]

theorem exists_components_of_endsInName (ending : endsInName path = true) :
    ∃ front last, Path.components path = front ++ [last] ∧ isName last = true := by
  rcases List.eq_nil_or_concat (Path.components path) with none | ⟨front, last, shape⟩
  · simp [endsInName, none] at ending
  · rw [List.concat_eq_append] at shape
    exact ⟨front, last, shape, by simpa [endsInName, shape] using ending⟩

/-- The name at the end of a path is the name of what it leads to. -/
theorem WellFormed.locate_of_endsInName (formed : disk.WellFormed)
    (leads : disk.locate path = .ok place) (ending : endsInName path = true) :
    ∃ name up, place = name :: up ∧ Path.fileName? path = some name := by
  obtain ⟨front, last, shape, plain⟩ := exists_components_of_endsInName ending
  have placed := formed.locate_eq_placeOf leads
  rw [placeOf, shape, List.foldl_append, List.foldl_cons, List.foldl_nil,
    Place.step_of_isName _ plain] at placed
  exact ⟨last, _, placed, Path.fileName?_of_components shape plain⟩

/-- A path that leads to no directory ends in a name: dots lead to directories only. -/
theorem WellFormed.endsInName_of_not_directory (formed : disk.WellFormed)
    (leads : disk.locate path = .ok place) (other : disk.node? place ≠ some .directory) :
    endsInName path = true := by
  rcases formed.last_step leads with rfl | ⟨front, last, up, shape, stands, stepped, -⟩
  · exact absurd rfl other
  · rcases isName_cases last with rfl | rfl | plain
    · rw [Place.step_dot] at stepped
      exact absurd (stepped ▸ stands) other
    · rw [Place.step_dots] at stepped
      exact absurd (stepped ▸ formed.tail stands) other
    · simp [endsInName, shape, plain]

/-- A path still leads where it led if no directory was lost. -/
theorem WellFormed.locate_mono {after : Disk} (formed : disk.WellFormed)
    (formedAfter : after.WellFormed) (here : after.here = disk.here)
    (kept : ∀ place, disk.node? place = some .directory → after.node? place = some .directory)
    (leads : disk.locate path = .ok place) : after.locate path = .ok place := by
  have walk : ∀ (components : List Text) (start : Place),
      components.foldlM disk.enter start = .ok place →
        components.foldlM after.enter start = .ok place := by
    intro components
    induction components with
    | nil => exact fun _ walked => walked
    | cons name rest ih =>
      intro start walked
      obtain ⟨next, entered, walked⟩ := bind_eq_ok_iff.1 walked
      obtain ⟨stands, rfl⟩ := enter_eq_ok entered
      rw [List.foldlM_cons, formedAfter.enter_of_directory name (kept start stands)]
      exact ih _ walked
  have walked := (formed.locate_eq_ok leads).2.2
  unfold locate at leads ⊢
  split at leads
  · cases leads
  next clean =>
    rw [if_neg clean]
    split at leads
    · cases leads
    next short =>
      rw [if_neg short]
      split at leads
      · cases leads
      next given =>
        rw [if_neg given, formedAfter.closed.follow_eq_foldlM, here]
        exact walk _ _ walked

/-- What a path that leads somewhere finds there. -/
theorem WellFormed.find_of_locate (formed : disk.WellFormed) (leads : disk.locate path = .ok place)
    {node : Node} (there : disk.node? place = some node)
    (slash : node = .directory ∨ Path.endsInSlash path = false) : disk.find path = .ok node := by
  unfold find
  rw [leads]
  dsimp only [bind, Except.bind]
  rw [formed.closed.lookup there]
  cases node with
  | directory => rfl
  | file content mode =>
    have noSlash : Path.endsInSlash path = false := slash.resolve_left (by simp)
    simp [noSlash, pure, Except.pure]

theorem WellFormed.read_of_file (formed : disk.WellFormed) (leads : disk.locate path = .ok place)
    {content : Bytes} {mode : Nat} (there : disk.node? place = some (.file content mode))
    (noSlash : Path.endsInSlash path = false) : disk.read path = .ok content := by
  unfold read
  rw [formed.find_of_locate leads there (Or.inr noSlash)]
  rfl

theorem read_of_none (leads : disk.locate path = .ok place)
    (fits : Utf8.size (place.headD []) ≤ longestName) (free : disk.node? place = none) :
    disk.read path = .error .noEntry := by
  have seen : disk.lookup place = .ok none := by
    rw [lookup, if_neg (Nat.not_lt.2 fits), free]
  simp [read, find, leads, seen, bind, Except.bind, throw, throwThe, MonadExceptOf.throw]

theorem find_eq_ok {node : Node} (found : disk.find path = .ok node) :
    ∃ place, disk.locate path = .ok place ∧ disk.node? place = some node ∧
      (node = .directory ∨ Path.endsInSlash path = false) := by
  obtain ⟨place, leads, found⟩ := bind_eq_ok_iff.1 found
  obtain ⟨there, seen, found⟩ := bind_eq_ok_iff.1 found
  refine ⟨place, leads, ?_⟩
  rw [← (lookup_eq_ok seen).1]
  rcases there with _ | ⟨content, mode⟩ | _
  · cases found
  · dsimp only at found
    split at found
    · cases found
    · next noSlash =>
      exact ⟨congrArg some (Except.ok.inj found), Or.inr (by simpa using noSlash)⟩
  · have same : Node.directory = node := Except.ok.inj found
    exact ⟨congrArg some same, Or.inl same.symm⟩

theorem WellFormed.read_of_directory (formed : disk.WellFormed)
    (leads : disk.locate path = .ok place) (there : disk.node? place = some .directory) :
    disk.read path = .error .isDirectory := by
  rw [read, formed.find_of_locate leads there (Or.inl rfl)]
  rfl

/-- What is read depends on the place that the path leads to, and on what stands there. -/
theorem read_congr {first second : Disk} (leads : first.locate path = second.locate path)
    (same : ∀ place, first.locate path = .ok place → first.node? place = second.node? place) :
    first.read path = second.read path := by
  unfold read find lookup
  rw [← leads]
  cases located : first.locate path with
  | error cause => rfl
  | ok place => simp only [bind, Except.bind, same place located]

end Disk

end SambaShares
