import SambaShares.Share.Basic
import SambaShares.Proofs.Document.Line
/-!
What reading a section guarantees of its share: the share has the name of the section, sections
with a meaning of their own give none, the path has no white space around it, the comment no quotes,
and each user is a word.
-/

namespace SambaShares

namespace Share

@[simp] theorem name_apply (share : Share) (entry : Text × Text) :
    (share.apply entry).name = share.name := by
  rcases entry with ⟨key, value⟩
  simp only [apply]
  split <;> rfl

@[simp] theorem name_ofDirectives (name : Text) (directives : List (Text × Text)) :
    (ofDirectives name directives).name = name := by
  have kept : ∀ share : Share, (directives.foldl apply share).name = share.name := by
    induction directives with
    | nil => exact fun _ => rfl
    | cons entry rest ih => exact fun share => (ih (share.apply entry)).trans (name_apply share entry)
  exact kept { name }

theorem ofBlock?_of_managed {block : Block} (managed : isReserved block.name = false) :
    ofBlock? block = some (ofDirectives block.name block.directives) := by
  simp [ofBlock?, Block.isReserved, managed]

theorem ofBlock?_of_reserved {block : Block} (reserved : isReserved block.name = true) :
    ofBlock? block = none := by
  simp [ofBlock?, Block.isReserved, reserved]

theorem managed_of_ofBlock?_eq_some {block : Block} {share : Share}
    (read : ofBlock? block = some share) :
    isReserved block.name = false ∧ share.name = block.name := by
  cases reserved : isReserved block.name with
  | true => rw [ofBlock?_of_reserved reserved] at read; cases read
  | false =>
    rw [ofBlock?_of_managed reserved, Option.some.injEq] at read
    exact ⟨rfl, read ▸ name_ofDirectives _ _⟩

/-- The users that a value names are words, and none is the placeholder. -/
theorem mem_usersOf {value user : Text} (member : user ∈ usersOf value) :
    (user ≠ [] ∧ ∀ c ∈ user, isBlank c = false) ∧ user ≠ placeholderUser := by
  obtain ⟨word, other⟩ := List.mem_filter.1 member
  exact ⟨Text.clean_of_mem_words word, by simpa using other⟩

/-- What holds of the fields of every share that was read. -/
structure IsRead (share : Share) : Prop where
  path : share.path.trim = share.path
  comment : share.comment.strip (· == '"') = share.comment
  users : ∀ user ∈ share.validUsers,
    (user ≠ [] ∧ ∀ c ∈ user, isBlank c = false) ∧ user ≠ placeholderUser

/-- One more setting; its value is trimmed by the reader of lines. -/
theorem IsRead.apply {share : Share} (before : share.IsRead) {entry : Text × Text}
    (value : entry.2.trim = entry.2) : (share.apply entry).IsRead := by
  rcases entry with ⟨key, text⟩
  simp only [Share.apply]
  split
  · exact ⟨value, before.comment, before.users⟩
  · exact ⟨before.path, before.comment, before.users⟩
  · exact ⟨before.path, before.comment, before.users⟩
  · exact ⟨before.path, before.comment, before.users⟩
  · exact ⟨before.path, Text.strip_strip_of_imp text fun _ same => same, before.users⟩
  · exact ⟨before.path, before.comment, fun _ => mem_usersOf⟩
  · exact before
  · exact before
  · exact before

theorem isRead_of_ofBlock? {block : Block} {share : Share} (read : ofBlock? block = some share) :
    share.IsRead := by
  have kept : ∀ (directives : List (Text × Text)) (share : Share),
      (∀ entry ∈ directives, entry.2.trim = entry.2) → share.IsRead →
      (directives.foldl apply share).IsRead := by
    intro directives
    induction directives with
    | nil => exact fun _ _ before => before
    | cons entry rest ih =>
      intro share values before
      exact ih (share.apply entry) (fun other member => values other (List.mem_cons_of_mem _ member))
        (before.apply (values entry List.mem_cons_self))
  have values : ∀ entry ∈ block.directives, entry.2.trim = entry.2 := by
    intro entry member
    obtain ⟨line, -, directive⟩ := List.mem_filterMap.1 member
    exact Text.trim_of_directive? directive
  have empty : IsRead { name := block.name } := ⟨rfl, rfl, by simp⟩
  have managed := (managed_of_ofBlock?_eq_some read).1
  rw [ofBlock?_of_managed managed, Option.some.injEq] at read
  exact read ▸ kept block.directives { name := block.name } values empty

/-- The path of a share is the value of a setting or empty, and either is trimmed. -/
theorem trim_path_of_ofBlock? {block : Block} {share : Share} (read : ofBlock? block = some share) :
    share.path.trim = share.path := (isRead_of_ofBlock? read).path

end Share

end SambaShares
