import SambaShares.Proofs.Share.Fields
import SambaShares.Proofs.Share.Read
/-!
The normal form of a list of users. The users are taken one after the other, trimmed, and kept where
they are named first, so each is there once and the order of the request stays. In a request that
passes the checks every user is one word, and then the value that is written is read back as the
same list.
-/

namespace SambaShares

/-- A user that is written as it is: it has no white space at its ends, and neither the empty name nor
the placeholder is one. -/
structure IsUser (user : Text) : Prop where
  named : user ≠ []
  first : ∀ c ∈ user.head?, isBlank c = false
  last : ∀ c ∈ user.getLast?, isBlank c = false
  other : user ≠ placeholderUser

theorem isUser_iff {user : Text} :
    IsUser user ↔ user.trim = user ∧ user ≠ [] ∧ user ≠ placeholderUser := by
  rw [Text.trim, Text.strip_eq_self_iff]
  constructor
  · intro isUser
    exact ⟨⟨isUser.first, isUser.last⟩, isUser.named, isUser.other⟩
  · intro parts
    obtain ⟨⟨first, last⟩, named, other⟩ := parts
    exact ⟨named, first, last, other⟩

theorem IsUser.of_word {user : Text} (word : user ≠ [] ∧ ∀ c ∈ user, isBlank c = false)
    (other : user ≠ placeholderUser) : IsUser user where
  named := word.1
  first := fun c inside => word.2 c (List.mem_of_mem_head? inside)
  last := fun c inside => word.2 c (List.mem_of_mem_getLast? inside)
  other := other

/-- One more user changes nothing if it is none or was named before; else it is the last. -/
theorem normalizeUsers_concat (users : List Text) (user : Text) :
    normalizeUsers (users ++ [user]) =
      if user.trim = [] ∨ user.trim = placeholderUser ∨ user.trim ∈ normalizeUsers users
      then normalizeUsers users
      else normalizeUsers users ++ [user.trim] := by
  have step : normalizeUsers (users ++ [user]) =
      if user.trim.isEmpty || user.trim == placeholderUser ||
        (normalizeUsers users).contains user.trim
      then normalizeUsers users else normalizeUsers users ++ [user.trim] :=
    List.foldl_append
  simpa only [Bool.or_eq_true, List.isEmpty_iff, beq_iff_eq, List.contains_eq_mem,
    decide_eq_true_eq, or_assoc] using step

/-- Users are trimmed, and neither an empty name nor the placeholder is one; nothing else is left
out. -/
theorem mem_normalizeUsers {users : List Text} {user : Text} :
    user ∈ normalizeUsers users ↔
      user ∈ users.map Text.trim ∧ user ≠ [] ∧ user ≠ placeholderUser := by
  induction users using List.reverseRecOn with
  | nil => simp [normalizeUsers]
  | append_singleton front last ih =>
    rw [normalizeUsers_concat, List.map_append, List.mem_append, List.map_singleton,
      List.mem_singleton]
    split
    · next skipped =>
      constructor
      · intro member
        obtain ⟨given, isUser⟩ := ih.1 member
        exact ⟨Or.inl given, isUser⟩
      · intro asked
        obtain ⟨given | rfl, named, other⟩ := asked
        · exact ih.2 ⟨given, named, other⟩
        · exact (skipped.resolve_left named).resolve_left other
    · next new =>
      simp only [not_or] at new
      obtain ⟨named, other, -⟩ := new
      rw [List.mem_append, List.mem_singleton, ih, or_and_right]
      exact or_congr_right ⟨fun same => ⟨same, same ▸ ⟨named, other⟩⟩, fun both => both.1⟩

theorem isUser_of_mem_normalizeUsers {users : List Text} {user : Text}
    (member : user ∈ normalizeUsers users) : IsUser user := by
  obtain ⟨given, named, other⟩ := mem_normalizeUsers.1 member
  obtain ⟨raw, -, rfl⟩ := List.mem_map.1 given
  exact isUser_iff.2 ⟨Text.trim_trim raw, named, other⟩

/-- A user is found in a request just if it is named there. -/
theorem findIdx_trim_lt_iff {users : List Text} {user : Text} :
    users.findIdx (·.trim == user) < users.length ↔ user ∈ users.map Text.trim := by
  rw [List.findIdx_lt_length, List.mem_map]
  simp only [beq_iff_eq]

/-- The users are in the order in which they are named first. -/
theorem pairwise_normalizeUsers (users : List Text) :
    (normalizeUsers users).Pairwise fun first second =>
      users.findIdx (·.trim == first) < users.findIdx (·.trim == second) := by
  induction users using List.reverseRecOn with
  | nil => exact List.Pairwise.nil
  | append_singleton front last ih =>
    have found : ∀ user ∈ normalizeUsers front, front.findIdx (·.trim == user) < front.length := by
      intro user member
      exact findIdx_trim_lt_iff.2 (mem_normalizeUsers.1 member).1
    -- One more user in the request moves none of those who are found already.
    have stays : ∀ user ∈ normalizeUsers front,
        (front ++ [last]).findIdx (·.trim == user) = front.findIdx (·.trim == user) := by
      intro user member
      rw [List.findIdx_append, if_pos (found user member)]
    have before : (normalizeUsers front).Pairwise fun first second =>
        (front ++ [last]).findIdx (·.trim == first) <
          (front ++ [last]).findIdx (·.trim == second) := by
      refine ih.imp_of_mem fun {first second} here there less => ?_
      rwa [stays first here, stays second there]
    rw [normalizeUsers_concat]
    split
    · exact before
    · next new =>
      simp only [not_or] at new
      obtain ⟨named, other, unkept⟩ := new
      have unfound : ¬front.findIdx (·.trim == last.trim) < front.length := by
        intro less
        exact unkept (mem_normalizeUsers.2 ⟨findIdx_trim_lt_iff.1 less, named, other⟩)
      rw [List.pairwise_append]
      refine ⟨before, List.pairwise_singleton _ _, fun first member second only => ?_⟩
      rw [List.mem_singleton.1 only, stays first member, List.findIdx_append, if_neg unfound]
      exact Nat.lt_add_left _ (found first member)

theorem nodup_normalizeUsers (users : List Text) : (normalizeUsers users).Nodup := by
  refine (pairwise_normalizeUsers users).imp fun {first second} less same => ?_
  rw [same] at less
  exact lt_irrefl _ less

/-- Just the lists of different users are in normal form already. -/
theorem normalizeUsers_eq_self_iff {users : List Text} :
    normalizeUsers users = users ↔ (∀ user ∈ users, IsUser user) ∧ users.Nodup := by
  constructor
  · intro same
    rw [← same]
    exact ⟨fun _ => isUser_of_mem_normalizeUsers, nodup_normalizeUsers users⟩
  · intro normal
    obtain ⟨clean, once⟩ := normal
    induction users using List.reverseRecOn with
    | nil => rfl
    | append_singleton front last ih =>
      obtain ⟨onceBefore, -, apart⟩ := List.nodup_append.1 once
      obtain ⟨trimmed, named, other⟩ := isUser_iff.1 (clean last (by simp))
      have same : normalizeUsers front = front :=
        ih (fun user member => clean user (List.mem_append_left _ member)) onceBefore
      have new : last ∉ front := fun member => apart last member last (by simp) rfl
      rw [normalizeUsers_concat, same, trimmed, if_neg (by simp [named, other, new])]

@[simp] theorem normalizeUsers_normalizeUsers (users : List Text) :
    normalizeUsers (normalizeUsers users) = normalizeUsers users :=
  normalizeUsers_eq_self_iff.2
    ⟨fun _ => isUser_of_mem_normalizeUsers, nodup_normalizeUsers users⟩

/-- Where each user is one word, so is what is kept of it. -/
theorem word_of_mem_normalizeUsers {users : List Text}
    (words : ∀ user ∈ users, ∀ c ∈ user.trim, isBlank c = false) {user : Text}
    (member : user ∈ normalizeUsers users) : user ≠ [] ∧ ∀ c ∈ user, isBlank c = false := by
  obtain ⟨given, named, -⟩ := mem_normalizeUsers.1 member
  obtain ⟨raw, inside, rfl⟩ := List.mem_map.1 given
  exact ⟨named, words raw inside⟩

/-- The users that are written are read back just if each of them is one word, which is what the check
of a request asks for: any other user would be read as several. -/
theorem usersOf_intercalate_iff {users : List Text} :
    Share.usersOf ([' '].intercalate (normalizeUsers users)) = normalizeUsers users ↔
      ∀ user ∈ users, ∀ c ∈ user.trim, isBlank c = false := by
  constructor
  · intro same user member c inside
    by_cases other : user.trim = placeholderUser
    · have visible : ∀ c ∈ placeholderUser, isBlank c = false := by simp [placeholderUser, isBlank]
      exact visible c (other ▸ inside)
    · have kept : user.trim ∈ normalizeUsers users :=
        mem_normalizeUsers.2 ⟨List.mem_map_of_mem member, List.ne_nil_of_mem inside, other⟩
      rw [← same] at kept
      exact (Share.mem_usersOf kept).1.2 c inside
  · intro words
    rw [Share.usersOf, Text.words_intercalate fun _ => word_of_mem_normalizeUsers words,
      List.filter_eq_self]
    intro user member
    simpa using (isUser_of_mem_normalizeUsers member).other

namespace ShareSpec

theorem Accepted.user_clean {spec : ShareSpec} (accepted : spec.Accepted) {user : Text}
    (member : user ∈ spec.normalizedUsers) : user ≠ [] ∧ ∀ c ∈ user, isBlank c = false :=
  word_of_mem_normalizeUsers accepted.users member

/-- The users that are written are read back as they were. -/
theorem Accepted.usersOf_intercalate {spec : ShareSpec} (accepted : spec.Accepted) :
    Share.usersOf ([' '].intercalate spec.normalizedUsers) = spec.normalizedUsers :=
  usersOf_intercalate_iff.2 accepted.users

end ShareSpec

/-- The normal form of a list of users. -/
structure IsNormalForm (users kept : List Text) : Prop where
  again : normalizeUsers kept = kept
  once : kept.Nodup
  isUser : ∀ user ∈ kept, IsUser user
  /-- All that can be a user is kept, and nothing else. -/
  members : ∀ user, user ∈ kept ↔
    user ∈ users.map Text.trim ∧ user ≠ [] ∧ user ≠ placeholderUser
  inOrder : kept.Pairwise fun first second =>
    users.findIdx (·.trim == first) < users.findIdx (·.trim == second)

/-- A list of users is brought into normal form, and what is written of users that pass the checks is
read back as it was. -/
theorem normalizeUsers_normal (users : List Text) :
    IsNormalForm users (normalizeUsers users) ∧
      ∀ spec : ShareSpec, spec.validUsers = users → spec.checkFields = .ok () →
        Share.usersOf ([' '].intercalate (normalizeUsers users)) = normalizeUsers users := by
  refine ⟨?_, fun spec asked checked => ?_⟩
  · exact {
      again := normalizeUsers_normalizeUsers users
      once := nodup_normalizeUsers users
      isUser := fun _ => isUser_of_mem_normalizeUsers
      members := fun _ => mem_normalizeUsers
      inOrder := pairwise_normalizeUsers users }
  · obtain ⟨-, -, words⟩ := ShareSpec.checkFields_eq_ok_iff.1 checked
    exact usersOf_intercalate_iff.2 (asked ▸ words)

/-- A request with a user who is named twice, the placeholder and white space around names. -/
def ShareSpec.namedTwice : ShareSpec :=
  { name := "media".toList, path := "/srv".toList,
    validUsers := [" bob".toList, "%S".toList, "ann".toList, [], "bob\u3000".toList] }

theorem normalizeUsers_normal_named_twice :
    ShareSpec.namedTwice.checkFields = .ok () ∧
      IsNormalForm ShareSpec.namedTwice.validUsers ["bob".toList, "ann".toList] ∧
      Share.usersOf "bob ann".toList = ["bob".toList, "ann".toList] := by
  have checked : ShareSpec.namedTwice.checkFields = .ok () := by decide
  have kept : normalizeUsers ShareSpec.namedTwice.validUsers = ["bob".toList, "ann".toList] := by
    decide
  obtain ⟨normal, reads⟩ := normalizeUsers_normal ShareSpec.namedTwice.validUsers
  rw [kept] at normal reads
  exact ⟨checked, normal, reads _ rfl checked⟩

end SambaShares
