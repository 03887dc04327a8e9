import Mathlib.Data.List.Count
import SambaShares.Proofs.Document.Reread
import SambaShares.Proofs.Share.Users
/-!
What the lines of a written share are read back as: one setting a line, each setting once, and
together the share that was asked for. What is kept of an older block after them gives none of
these settings, so it cannot override them.
-/

namespace SambaShares

namespace Setting

theorem key_injective : Function.Injective key := by
  intro first second same
  have found := congrArg ofKey? same
  rwa [ofKey?_key, ofKey?_key, Option.some.injEq] at found

/-- Every key starts with a letter, so a line that gives a setting is neither a comment nor a
header. -/
theorem key_eq_cons (setting : Setting) : ∃ c rest, setting.key = c :: rest ∧
    isBlank c = false ∧ c ≠ '[' ∧ c ≠ '#' ∧ c ≠ ';' := by
  cases setting <;> exact ⟨_, _, rfl, by decide⟩

theorem key_spaced (setting : Setting) :
    '=' ∉ setting.key ++ [' '] ∧ '\n' ∉ setting.key ∧ Text.trim (setting.key ++ [' ']) = setting.key := by
  cases setting <;> decide

end Setting

namespace ShareSpec

theorem trim_settingLine (setting : Setting) (value : Text) :
    (settingLine setting value).trim =
      (setting.key ++ [' ']) ++ '=' :: Text.trimEnd (' ' :: value) := by
  obtain ⟨c, rest, key, visible, -⟩ := setting.key_eq_cons
  have shape : settingLine setting value =
      [' ', ' ', ' '] ++ c :: ((rest ++ [' ']) ++ '=' :: ' ' :: value) := by
    simp [settingLine, key]
  have indent : ∀ c ∈ [' ', ' ', ' '], isBlank c = true := List.all_eq_true.mp rfl
  rw [shape, Text.trim_append_of_blank _ indent, Text.trim, Text.strip_cons _ visible,
    Text.stripEnd_append_cons _ _ (by decide), key]
  rfl

theorem head?_trim_settingLine (setting : Setting) (value : Text) :
    ∃ c, (settingLine setting value).trim.head? = some c ∧ c ≠ '[' ∧ c ≠ '#' ∧ c ≠ ';' := by
  obtain ⟨c, rest, key, -, apart⟩ := setting.key_eq_cons
  exact ⟨c, by simp [trim_settingLine, key], apart⟩

theorem header?_eq_none_of_trim_eq {line : Text} {setting : Setting} {value : Text}
    (same : line.trim = (settingLine setting value).trim) : line.header? = none := by
  obtain ⟨c, first, apart, -⟩ := head?_trim_settingLine setting value
  apply Text.header?_eq_none_of_head
  rw [same, first]
  simpa using apart

theorem directive?_settingLine (setting : Setting) (value : Text) :
    (settingLine setting value).directive? = some (setting.key, value.trim) := by
  obtain ⟨c, first, -, notHash, notSemicolon⟩ := head?_trim_settingLine setting value
  obtain ⟨d, rest, key, -⟩ := setting.key_eq_cons
  have spaced := setting.key_spaced
  rw [Text.directive?_eq_some_iff, first]
  refine ⟨by simpa using notHash, by simpa using notSemicolon, by simp [key], _, _,
    trim_settingLine setting value, spaced.1, spaced.2.2, ?_⟩
  have blank : ∀ c ∈ [' '], isBlank c = true := List.all_eq_true.mp rfl
  rw [Text.trim_trimEnd]
  exact Text.trim_append_of_blank value blank

theorem isBody_settingLine {setting : Setting} {value : Text} (single : '\n' ∉ value) :
    (settingLine setting value).IsBody := by
  refine ⟨?_, header?_eq_none_of_trim_eq rfl⟩
  simp [settingLine, single, setting.key_spaced.2.1]

theorem isBody_trimEnd_settingLine {setting : Setting} {value : Text} (single : '\n' ∉ value) :
    (settingLine setting value).trimEnd.IsBody := by
  refine ⟨?_, header?_eq_none_of_trim_eq (Text.trim_trimEnd _)⟩
  intro inside
  exact (isBody_settingLine single).1 ((Text.stripEnd_sublist _).subset inside)

theorem eq_settingLine_of_mem {spec : ShareSpec} {line : Text} (member : line ∈ spec.settingLines) :
    ∃ setting value, line = settingLine setting value ∨ line = (settingLine setting value).trimEnd := by
  rcases List.mem_append.1 member with fixed | last
  · simp only [List.mem_cons, List.not_mem_nil, or_false] at fixed
    rcases fixed with rfl | rfl | rfl | rfl | rfl | rfl
    · exact ⟨_, _, Or.inl rfl⟩
    · exact ⟨_, _, Or.inl rfl⟩
    · exact ⟨_, _, Or.inl rfl⟩
    · exact ⟨_, _, Or.inl rfl⟩
    · exact ⟨_, _, Or.inl rfl⟩
    · exact ⟨_, _, Or.inr rfl⟩
  · split at last
    · cases last
    · exact ⟨_, _, Or.inl (List.mem_singleton.1 last)⟩

theorem head?_trimEnd_settingLine (setting : Setting) (value : Text) :
    (settingLine setting value).trimEnd.head? = some ' ' := by
  obtain ⟨c, rest, key, visible, -⟩ := setting.key_eq_cons
  have shape : settingLine setting value =
      "   ".toList ++ c :: (rest ++ " = ".toList ++ value) := by
    simp [settingLine, key]
  rw [shape, Text.trimEnd, Text.stripEnd_append_cons _ _ visible]
  rfl

/-- Every written line is indented. -/
theorem head?_of_mem_settingLines {spec : ShareSpec} {line : Text}
    (member : line ∈ spec.settingLines) : line.head? = some ' ' := by
  obtain ⟨setting, value, rfl | rfl⟩ := eq_settingLine_of_mem member
  · rfl
  · exact head?_trimEnd_settingLine setting value

theorem isBlankText_of_mem_settingLines {spec : ShareSpec} {line : Text}
    (member : line ∈ spec.settingLines) : line.isBlankText = false := by
  by_contra blank
  have silent := Text.directive?_of_isBlankText (by simpa using blank)
  obtain ⟨setting, value, rfl | rfl⟩ := eq_settingLine_of_mem member
  · rw [directive?_settingLine] at silent
    cases silent
  · rw [Text.directive?_trimEnd, directive?_settingLine] at silent
    cases silent

/-- What the lines of a share are read back as. -/
def readings (spec : ShareSpec) : List (Setting × Text) :=
  [(.path, spec.path.trim),
    (.writeable, if spec.writable then "Yes".toList else "No".toList),
    (.createMask, "0777".toList),
    (.directoryMask, "0777".toList),
    (.guest, "no".toList),
    (.comment, spec.normalizedComment)] ++
  if spec.normalizedUsers.isEmpty then []
  else [(.validUsers, Text.trim ([' '].intercalate spec.normalizedUsers))]

def directives (spec : ShareSpec) : List (Text × Text) :=
  spec.readings.map fun (setting, value) => (setting.key, value)

theorem filterMap_directive?_settingLines (spec : ShareSpec) :
    spec.settingLines.filterMap Text.directive? = spec.directives := by
  have flag : Text.trim (if spec.writable then "Yes".toList else "No".toList) =
      if spec.writable then "Yes".toList else "No".toList := by
    cases spec.writable <;> decide
  have mask : Text.trim "0777".toList = "0777".toList := by decide
  have off : Text.trim "no".toList = "no".toList := by decide
  unfold settingLines directives readings
  by_cases none : spec.normalizedUsers.isEmpty = true
  · simpa [none, directive?_settingLine] using ⟨flag, mask, off⟩
  · simpa [none, directive?_settingLine] using ⟨flag, mask, off⟩

/-- The share that a request asks for. -/
def share (spec : ShareSpec) : Share where
  name := spec.name
  path := spec.path.trim
  writable := spec.writable
  guest := false
  comment := spec.normalizedComment
  validUsers := spec.normalizedUsers

/-- How often a setting is written. The reader knows a second key for write access, which is never
written. -/
def times (spec : ShareSpec) : Setting → Nat
  | .writable => 0
  | .validUsers => if spec.normalizedUsers.isEmpty then 0 else 1
  | _ => 1

end ShareSpec

/-- A section that says what a request asks for, each setting in it as often as it is written. -/
structure Section.Holds (part : Section) (spec : ShareSpec) : Prop where
  share : part.share? = some spec.share
  times : ∀ setting : Setting, (part.directives.map Prod.fst).count setting.key = spec.times setting

namespace Share

theorem foldl_apply_eq_self {directives : List (Text × Text)} (share : Share)
    (others : ∀ entry ∈ directives, Setting.ofKey? entry.1 = none) :
    directives.foldl apply share = share := by
  induction directives with
  | nil => rfl
  | cons entry rest ih =>
    have here := others entry List.mem_cons_self
    have same : share.apply entry = share := by
      simp only [apply, here]
    rw [List.foldl_cons, same]
    exact ih (fun other member => others other (List.mem_cons_of_mem _ member))

theorem ofDirectives_directives {spec : ShareSpec} (accepted : spec.Accepted) :
    ofDirectives spec.name spec.directives = spec.share := by
  have flag : Text.isOn (if spec.writable then "Yes".toList else "No".toList) = spec.writable := by
    cases spec.writable <;> decide
  have off : Text.isOn "no".toList = false := by decide
  have users : usersOf (Text.trim ([' '].intercalate spec.normalizedUsers)) =
      spec.normalizedUsers := by
    rw [usersOf, Text.words_trim]
    exact accepted.usersOf_intercalate
  unfold ofDirectives ShareSpec.directives ShareSpec.readings ShareSpec.share
  by_cases none : spec.normalizedUsers.isEmpty = true
  · simpa [apply, List.isEmpty_iff.1 none] using ⟨flag, off⟩
  · simpa [none, apply, users] using ⟨flag, off⟩

end Share

namespace ShareSpec

theorem count_directives (spec : ShareSpec) (setting : Setting) :
    (spec.directives.map Prod.fst).count setting.key = spec.times setting := by
  have keys : spec.directives.map Prod.fst = (spec.readings.map Prod.fst).map Setting.key := by
    simp [directives]
  rw [keys, List.count_map_of_injective _ _ Setting.key_injective]
  unfold readings times
  by_cases none : spec.normalizedUsers.isEmpty = true
  · cases setting <;> simp [none]
  · cases setting <;> simp [none]

/-- A section with these settings first and no other setting of a share after them. -/
theorem Accepted.holds {spec : ShareSpec} (accepted : spec.Accepted)
    (free : isReserved spec.name = false) (header : Text) {rest : List (Text × Text)}
    (others : ∀ entry ∈ rest, Setting.ofKey? entry.1 = none) :
    Section.Holds ⟨header, spec.name, spec.directives ++ rest⟩ spec where
  share := by
    have read : Share.ofDirectives spec.name (spec.directives ++ rest) = spec.share := by
      rw [Share.ofDirectives, List.foldl_append, Share.foldl_apply_eq_self _ others]
      exact Share.ofDirectives_directives accepted
    simp [Section.share?, free, read]
  times := by
    intro setting
    have absent : setting.key ∉ rest.map Prod.fst := by
      intro inside
      obtain ⟨entry, member, same⟩ := List.mem_map.1 inside
      have unknown := others entry member
      rw [same, Setting.ofKey?_key] at unknown
      cases unknown
    rw [List.map_append, List.count_append, count_directives, List.count_eq_zero.2 absent,
      Nat.add_zero]

theorem Accepted.isBody_of_mem_settingLines {spec : ShareSpec} (accepted : spec.Accepted) :
    ∀ line ∈ spec.settingLines, line.IsBody := by
  have path : '\n' ∉ spec.path := fun inside => by simpa [breaksLine] using accepted.path _ inside
  have comment : '\n' ∉ spec.normalizedComment := fun inside => by
    simpa [breaksLine] using accepted.comment _ (Text.mem_of_mem_strip inside)
  have flag : '\n' ∉ if spec.writable then "Yes".toList else "No".toList := by
    cases spec.writable <;> decide
  have users : '\n' ∉ [' '].intercalate spec.normalizedUsers := by
    intro inside
    rcases Text.mem_intercalate inside with between | ⟨user, member, inUser⟩
    · simp at between
    · have clean := (accepted.user_clean member).2 '\n' inUser
      rw [isBlank_newline] at clean
      cases clean
  intro line member
  rcases List.mem_append.1 member with fixed | last
  · simp only [List.mem_cons, List.not_mem_nil, or_false] at fixed
    rcases fixed with rfl | rfl | rfl | rfl | rfl | rfl
    · exact isBody_settingLine path
    · exact isBody_settingLine flag
    · exact isBody_settingLine (by decide)
    · exact isBody_settingLine (by decide)
    · exact isBody_settingLine (by decide)
    · exact isBody_trimEnd_settingLine comment
  · split at last
    · cases last
    · rw [List.mem_singleton.1 last]
      exact isBody_settingLine users

theorem Accepted.wellFormed_plain {spec : ShareSpec} {lines : List Text} (accepted : spec.Accepted)
    (body : ∀ line ∈ lines, line.IsBody) : (Block.plain spec.name lines).WellFormed := by
  apply Block.wellFormed_plain accepted.named ?_ body
  intro c inside
  obtain ⟨visible, allowed⟩ := accepted.name c inside
  refine ⟨?_, ?_, ?_⟩
  · intro opens
    rw [opens] at allowed
    exact allowed (by decide)
  · intro closes
    rw [closes] at allowed
    exact allowed (by decide)
  · intro newline
    rw [newline, isBlank_newline] at visible
    cases visible

theorem Accepted.wellFormed_toBlock {spec : ShareSpec} (accepted : spec.Accepted) :
    spec.toBlock.WellFormed :=
  accepted.wellFormed_plain accepted.isBody_of_mem_settingLines

theorem Accepted.wellFormed_renewBlock {spec : ShareSpec} {old : Block} (accepted : spec.Accepted)
    (formed : old.WellFormed) : (spec.renewBlock old).WellFormed := by
  apply accepted.wellFormed_plain
  intro line member
  rw [List.mem_append, List.mem_append] at member
  rcases member with (new | blank) | kept
  · exact accepted.isBody_of_mem_settingLines line new
  · rw [(List.mem_replicate.1 blank).2]
    exact Text.isBody_nil
  · exact formed.body line (Block.mem_lines_of_mem_keptOnUpdate kept)

theorem Accepted.holds_toBlock {spec : ShareSpec} (accepted : spec.Accepted)
    (free : isReserved spec.name = false) : spec.toBlock.toSection.Holds spec := by
  have parts : spec.toBlock.toSection =
      ⟨Block.plainHeader spec.name, spec.name, spec.directives ++ []⟩ := by
    simp [toBlock, Block.plain, Block.toSection, Block.directives, filterMap_directive?_settingLines]
  rw [parts]
  exact accepted.holds free _ (by simp)

/-- The kept lines of an older block hold no setting of a share. -/
theorem ofKey?_eq_none_of_mem_keptOnUpdate {old : Block} :
    ∀ entry ∈ old.keptOnUpdate.filterMap Text.directive?, Setting.ofKey? entry.1 = none := by
  intro entry member
  obtain ⟨line, kept, read⟩ := List.mem_filterMap.1 member
  have unmanaged := (List.mem_filter.1 kept).2
  simpa [Text.isManaged, read] using unmanaged

theorem Accepted.holds_renewBlock {spec : ShareSpec} (old : Block) (accepted : spec.Accepted)
    (free : isReserved spec.name = false) : (spec.renewBlock old).toSection.Holds spec := by
  have blank : (List.replicate old.blankTail ([] : Text)).filterMap Text.directive? = [] := by
    simp
  have parts : (spec.renewBlock old).toSection = ⟨Block.plainHeader spec.name, spec.name,
      spec.directives ++ old.keptOnUpdate.filterMap Text.directive?⟩ := by
    simp [renewBlock, Block.plain, Block.toSection, Block.directives, blank,
      filterMap_directive?_settingLines]
  rw [parts]
  exact accepted.holds free _ ofKey?_eq_none_of_mem_keptOnUpdate

end ShareSpec

end SambaShares
