import SambaShares.Disk.Basic
/-!
Paths to the entries of a directory: a name put after the path of a directory is one more component
at its end, and the name at the end of a path is its last component.
-/

namespace SambaShares

namespace Path

/-- A name that an entry of a directory can have. -/
structure IsEntry (name : Text) : Prop where
  some : name ≠ []
  whole : '/' ∉ name
  noNul : '\x00' ∉ name
  plain : Disk.isName name = true

instance (name : Text) : Decidable (IsEntry name) :=
  decidable_of_iff (name ≠ [] ∧ '/' ∉ name ∧ '\x00' ∉ name ∧ Disk.isName name = true)
    ⟨fun ⟨given, whole, noNul, plain⟩ => ⟨given, whole, noNul, plain⟩,
      fun entry => ⟨entry.some, entry.whole, entry.noNul, entry.plain⟩⟩

theorem components_append_slash (front rest : Text) :
    components (front ++ '/' :: rest) = components front ++ components rest := by
  rw [components, List.splitOn_append_cons_self, List.filter_append]
  rfl

theorem components_eq_singleton {name : Text} (some : name ≠ []) (whole : '/' ∉ name) :
    components name = [name] := by
  rw [components, List.splitOn_eq_singleton whole]
  simpa using some

theorem mem_components {path component : Text} (member : component ∈ components path) :
    component ≠ [] ∧ '/' ∉ component ∧ ∀ c ∈ component, c ∈ path := by
  obtain ⟨piece, given⟩ := List.mem_filter.1 member
  rw [List.splitOn_eq_splitOnP] at piece
  refine ⟨by simpa using given, ?_, fun c inside => (Text.of_mem_splitOnP piece inside).2⟩
  intro slash
  have uncut := (Text.of_mem_splitOnP piece slash).1
  simp at uncut

theorem components_ne_nil_of_relative {path : Text} (some : path ≠ [])
    (relative : isAbsolute path = false) : components path ≠ [] := by
  intro none
  cases path with
  | nil => exact some rfl
  | cons c rest =>
    have apart : (c == '/') = false := by simpa [isAbsolute] using relative
    rw [components, List.filter_eq_nil_iff] at none
    obtain ⟨first, others, shape⟩ := List.exists_cons_of_ne_nil (List.splitOn_ne_nil '/' rest)
    have piece : c :: first ∈ (c :: rest).splitOn '/' := by
      simp [List.splitOn_cons_eq_if_modifyHead, apart, shape]
    exact none _ piece rfl

theorem isAbsolute_of_whole {name : Text} (whole : '/' ∉ name) : isAbsolute name = false := by
  cases name with
  | nil => rfl
  | cons c rest =>
    have apart : c ≠ '/' := fun same => whole (by simp [same])
    simpa [isAbsolute] using apart

/-- The base of a path to an entry, up to the slash between the two. -/
theorem join_eq (base : Text) {name : Text} (whole : '/' ∉ name) :
    join base name = name ∧ base = [] ∨
      ∃ front, join base name = front ++ '/' :: name ∧ (front = base ∨ base = front ++ ['/']) ∧
        base ≠ [] := by
  unfold join
  rw [isAbsolute_of_whole whole]
  by_cases none : base = []
  · left
    simp [none]
  · right
    cases ends : endsInSlash base with
    | false => exact ⟨base, by simp [none], Or.inl rfl, none⟩
    | true =>
      obtain ⟨front, shape⟩ := List.getLast?_eq_some_iff.1 (by simpa [endsInSlash] using ends)
      exact ⟨front, by simp [shape], Or.inr shape, none⟩

theorem components_join {base name : Text} (some : name ≠ []) (whole : '/' ∉ name) :
    components (join base name) = components base ++ [name] := by
  rcases join_eq base whole with ⟨same, rfl⟩ | ⟨front, same, rfl | rfl, -⟩
  · rw [same, components_eq_singleton some whole]
    rfl
  · rw [same, components_append_slash, components_eq_singleton some whole]
  · have nothing : components [] = [] := rfl
    rw [same, components_append_slash, components_append_slash, components_eq_singleton some whole,
      nothing, List.append_nil]

theorem exists_join_eq_append (base : Text) {name : Text} (whole : '/' ∉ name) :
    ∃ tail, join base name = base ++ tail := by
  unfold join
  rw [isAbsolute_of_whole whole, if_neg Bool.false_ne_true]
  split
  · exact ⟨name, rfl⟩
  · exact ⟨'/' :: name, rfl⟩

theorem mem_of_mem_join {base name : Text} (whole : '/' ∉ name) {c : Char}
    (inside : c ∈ join base name) : c ∈ base ∨ c = '/' ∨ c ∈ name := by
  unfold join at inside
  rw [isAbsolute_of_whole whole, if_neg Bool.false_ne_true] at inside
  split at inside
  · exact (List.mem_append.1 inside).imp id Or.inr
  · rw [List.mem_append, List.mem_cons] at inside
    exact inside

theorem isAbsolute_join {base name : Text} (whole : '/' ∉ name) :
    isAbsolute (join base name) = isAbsolute base := by
  rcases join_eq base whole with ⟨same, rfl⟩ | ⟨front, same, shape, given⟩
  · rw [same, isAbsolute_of_whole whole]
    rfl
  · rw [same]
    cases front with
    | nil =>
      rcases shape with rfl | rfl
      · exact absurd rfl given
      · rfl
    | cons c rest => rcases shape with rfl | rfl <;> rfl

theorem endsInSlash_join {base name : Text} (some : name ≠ []) (whole : '/' ∉ name) :
    endsInSlash (join base name) = false := by
  obtain ⟨start, last, shape⟩ := (List.eq_nil_or_concat name).resolve_left some
  rw [List.concat_eq_append] at shape
  have apart : last ≠ '/' := fun same => whole (by simp [shape, same])
  have ending : (join base name).getLast? = .some last := by
    rcases join_eq base whole with ⟨same, -⟩ | ⟨front, same, -⟩
    · rw [same, shape, List.getLast?_concat]
    · rw [same, shape, ← List.cons_append, ← List.append_assoc, List.getLast?_concat]
  simp [endsInSlash, ending, apart]

/-- The path of an entry names it. -/
theorem join_inj {base first second : Text} (firstSome : first ≠ []) (firstWhole : '/' ∉ first)
    (secondSome : second ≠ []) (secondWhole : '/' ∉ second)
    (same : join base first = join base second) : first = second := by
  have parts := congrArg components same
  rw [components_join firstSome firstWhole, components_join secondSome secondWhole] at parts
  exact (List.cons.inj (List.append_cancel_left parts)).1

theorem significant_of_components {path name : Text} {front : List Text}
    (shape : components path = front ++ [name]) (plain : name ≠ ['.']) :
    (significant path).getLast? = some name := by
  unfold significant
  cases front with
  | nil => simp [shape, plain]
  | cons first rest => simp [shape, plain]

/-- The name at the end of a path is its last component. -/
theorem fileName?_of_components {path name : Text} {front : List Text}
    (shape : components path = front ++ [name]) (plain : Disk.isName name = true) :
    fileName? path = some name := by
  simp only [Disk.isName, Bool.and_eq_true, bne_iff_ne] at plain
  rw [fileName?, significant_of_components shape plain.1]
  simp [plain]

theorem whole_of_fileName? {path name : Text} (found : fileName? path = some name) :
    name ≠ [] ∧ '/' ∉ name := by
  have member : name ∈ significant path := by
    unfold fileName? at found
    split at found
    · next last ends =>
      split at found
      · cases found
      · cases found
        exact List.mem_of_getLast? ends
    · cases found
  have inside : name ∈ components path := by
    unfold significant at member
    split at member
    · cases member
    · next first rest shape =>
      rw [shape]
      rcases List.mem_append.1 member with here | later
      · split at here
        · cases here
        · exact List.mem_singleton.1 here ▸ List.mem_cons_self
      · exact List.mem_cons_of_mem _ (List.mem_filter.1 later).1
  exact ⟨(mem_components inside).1, (mem_components inside).2.1⟩

end Path

end SambaShares
