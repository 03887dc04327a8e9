import SambaShares.Share.Spec
import SambaShares.Share.Validation
import SambaShares.Proofs.Text.Trim
/-!
What the checks on a request and the normal form of its comment guarantee. An accepted request has
a name that can stand in brackets, fields that fit into one line each and users of one word; a
normalized comment has neither quotes nor white space at its ends.
-/

namespace SambaShares

theorem isBlank_newline : isBlank '\n' = true := by decide

/-- A request that passes the checks that need neither the file nor the disk. -/
structure ShareSpec.Accepted (spec : ShareSpec) : Prop where
  named : spec.name ≠ []
  name : ∀ c ∈ spec.name, isBlank c = false ∧ c ∉ forbiddenInNames
  path : ∀ c ∈ spec.path, breaksLine c = false
  comment : ∀ c ∈ spec.comment, breaksLine c = false
  users : ∀ user ∈ spec.validUsers, ∀ c ∈ user.trim, isBlank c = false

theorem checkName_eq_ok_iff {name : Text} :
    checkName name = .ok () ↔ name ≠ [] ∧ ∀ c ∈ name, isBlank c = false ∧ c ∉ forbiddenInNames := by
  have clean : (∀ c ∈ name, isBlank c = false ∧ c ∉ forbiddenInNames) ↔
      ¬name.any isBlank = true ∧ ¬name.any forbiddenInNames.contains = true := by
    simp [forall_and]
  unfold checkName
  rw [clean]
  by_cases none : name = []
  · simp [none]
  · by_cases blank : name.any isBlank = true
    · simp [none, blank]
    · by_cases forbidden : name.any forbiddenInNames.contains = true
      · simp [none, blank, forbidden]
      · simp [none, blank, forbidden]

theorem ShareSpec.checkFields_eq_ok_iff {spec : ShareSpec} :
    spec.checkFields = .ok () ↔
      (∀ c ∈ spec.path, breaksLine c = false) ∧ (∀ c ∈ spec.comment, breaksLine c = false) ∧
        ∀ user ∈ spec.validUsers, ∀ c ∈ user.trim, isBlank c = false := by
  have clean : ∀ text : Text, (∀ c ∈ text, breaksLine c = false) ↔ ¬text.any breaksLine = true := by
    simp
  have single : (∀ user ∈ spec.validUsers, ∀ c ∈ user.trim, isBlank c = false) ↔
      (spec.validUsers.map Text.trim).find? (·.any isBlank) = none := by
    simp [List.find?_eq_none]
  unfold checkFields
  rw [clean, clean, single]
  by_cases path : spec.path.any breaksLine = true
  · simp [path]
  · by_cases comment : spec.comment.any breaksLine = true
    · simp [path, comment]
    · cases found : (spec.validUsers.map Text.trim).find? (·.any isBlank) <;> simp [path, comment]

theorem ShareSpec.accepted_iff {spec : ShareSpec} :
    spec.Accepted ↔ checkName spec.name = .ok () ∧ spec.checkFields = .ok () := by
  rw [checkName_eq_ok_iff, checkFields_eq_ok_iff]
  constructor
  · intro accepted
    exact ⟨⟨accepted.named, accepted.name⟩, accepted.path, accepted.comment, accepted.users⟩
  · intro checked
    obtain ⟨⟨named, name⟩, path, comment, users⟩ := checked
    exact ⟨named, name, path, comment, users⟩

namespace ShareSpec

/-- The comment that is written has no white space to trim on reading. -/
@[simp] theorem trim_normalizedComment (spec : ShareSpec) :
    spec.normalizedComment.trim = spec.normalizedComment :=
  Text.strip_strip_of_imp spec.comment (fun _ blank => by simp [blank])

/-- The comment that is written has no quotes to strip on reading. -/
@[simp] theorem strip_normalizedComment (spec : ShareSpec) :
    spec.normalizedComment.strip (· == '"') = spec.normalizedComment :=
  Text.strip_strip_of_imp spec.comment (by simp)

/-- A comment as it is read, without quotes at its ends, is written as it is unless it has white space
there. -/
theorem normalizedComment_eq_iff {spec : ShareSpec}
    (unquoted : spec.comment.strip (· == '"') = spec.comment) :
    spec.normalizedComment = spec.comment ↔ spec.comment.trim = spec.comment := by
  obtain ⟨noQuoteFirst, noQuoteLast⟩ := Text.strip_eq_self_iff.1 unquoted
  rw [normalizedComment, Text.trim, Text.strip_eq_self_iff, Text.strip_eq_self_iff]
  constructor
  · intro kept
    exact ⟨fun c inside => (Bool.or_eq_false_iff.1 (kept.1 c inside)).2,
      fun c inside => (Bool.or_eq_false_iff.1 (kept.2 c inside)).2⟩
  · intro visible
    exact ⟨fun c inside => Bool.or_eq_false_iff.2 ⟨noQuoteFirst c inside, visible.1 c inside⟩,
      fun c inside => Bool.or_eq_false_iff.2 ⟨noQuoteLast c inside, visible.2 c inside⟩⟩

end ShareSpec

end SambaShares
