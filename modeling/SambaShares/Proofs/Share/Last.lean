import SambaShares.Proofs.Share.Read
import SambaShares.Proofs.Share.Written
/-!
What a share is read from: for each of its fields the last line of the section that gives it. All
other lines, wherever they stand, and all earlier lines for the same field make no difference.
-/

namespace SambaShares

namespace Text

/-- Whether a line gives one of these settings. -/
def gives (settings : List Setting) (line : Text) : Bool :=
  line.directive?.any fun entry => settings.any (·.key == entry.1)

/-- The value on the last line that gives one of these settings. -/
def lastValue? (settings : List Setting) (lines : List Text) : Option Text :=
  ((lines.filter (gives settings)).getLast?.bind directive?).map Prod.snd

variable {settings kept : List Setting} {lines : List Text} {line key value : Text}

theorem gives_of_directive? (read : line.directive? = some (key, value)) :
    line.gives settings = settings.any (·.key == key) := by
  simp [gives, read]

theorem gives_of_silent (silent : line.directive? = none) : line.gives settings = false := by
  simp [gives, silent]

theorem directive?_of_comment (comment : line.trim.head? = some '#' ∨ line.trim.head? = some ';') :
    line.directive? = none := by
  rw [Option.eq_none_iff_forall_ne_some]
  rintro ⟨key, value⟩ read
  obtain ⟨notHash, notSemicolon, -⟩ := directive?_eq_some_iff.1 read
  exact comment.elim notHash notSemicolon

theorem lastValue?_concat_of_silent (silent : line.directive? = none) :
    lastValue? settings (lines ++ [line]) = lastValue? settings lines := by
  simp [lastValue?, List.filter_append, gives_of_silent silent]

theorem lastValue?_concat (read : line.directive? = some (key, value)) :
    lastValue? settings (lines ++ [line]) =
      if settings.any (·.key == key) then some value else lastValue? settings lines := by
  unfold lastValue?
  rw [List.filter_append, ← gives_of_directive? read]
  cases given : line.gives settings with
  | true =>
    rw [List.filter_cons_of_pos given, List.filter_nil, List.getLast?_concat, Option.bind_some,
      read]
    rfl
  | false =>
    have other : ¬line.gives settings = true := by simp [given]
    rw [List.filter_cons_of_neg other, List.filter_nil, List.append_nil]
    rfl

theorem gives_of_subset (some : settings ⊆ kept) (given : line.gives settings = true) :
    line.gives kept = true := by
  cases read : line.directive? with
  | none => simp [gives_of_silent read] at given
  | some entry =>
    rw [gives_of_directive? read, List.any_eq_true] at given ⊢
    obtain ⟨setting, member, same⟩ := given
    exact ⟨setting, some member, same⟩

/-- The last values are still there when only lines for more settings are kept. -/
theorem lastValue?_filter (some : settings ⊆ kept) (lines : List Text) :
    lastValue? settings (lines.filter (gives kept)) = lastValue? settings lines := by
  have both : ∀ line : Text, (line.gives settings && line.gives kept) = line.gives settings := by
    intro line
    cases given : line.gives settings with
    | false => rfl
    | true => rw [gives_of_subset some given, Bool.true_and]
  simp only [lastValue?, List.filter_filter, both]

/-- What stands before a line for these settings does not count for them. -/
theorem lastValue?_append {front : List Text} (here : ∃ line ∈ lines, line.gives settings = true) :
    lastValue? settings (front ++ lines) = lastValue? settings lines := by
  obtain ⟨line, member, given⟩ := here
  have some : lines.filter (gives settings) ≠ [] :=
    List.ne_nil_of_mem (List.mem_filter.2 ⟨member, given⟩)
  rw [lastValue?, List.filter_append, List.getLast?_append_of_ne_nil _ some]
  rfl

end Text

namespace Setting

/-- The settings of which each field of a share is read. Write access has two, of which neither goes
before the other. -/
def fields : List (List Setting) :=
  [[path], [writeable, writable], [guest], [comment], [validUsers]]

/-- The settings that are read. -/
def readable : List Setting := fields.flatten

theorem subset_readable {settings : List Setting} (field : settings ∈ fields) :
    settings ⊆ readable :=
  fun _ member => List.mem_flatten.2 ⟨settings, field, member⟩

theorem ofKey?_cases (key : Text) :
    (∃ setting : Setting, setting.key = key) ∨
      ofKey? key = none ∧ ∀ setting : Setting, setting.key ≠ key := by
  cases found : ofKey? key with
  | some setting =>
    unfold ofKey? at found
    exact Or.inl ⟨setting, by simpa using List.find?_some found⟩
  | none =>
    refine Or.inr ⟨rfl, fun setting same => ?_⟩
    rw [← same, ofKey?_key] at found
    cases found

end Setting

namespace Share

/-- The share of lines of which each field is read from the last line for it. -/
def ofLast (name : Text) (lines : List Text) : Share where
  name
  path := (Text.lastValue? [.path] lines).getD []
  writable := (Text.lastValue? [.writeable, .writable] lines).elim false Text.isOn
  guest := (Text.lastValue? [.guest] lines).elim false Text.isOn
  comment := (Text.lastValue? [.comment] lines).elim [] fun value => value.strip (· == '"')
  validUsers := (Text.lastValue? [.validUsers] lines).elim [] usersOf

theorem ofLast_concat {line key value : Text} (name : Text) (lines : List Text)
    (read : line.directive? = some (key, value)) :
    ofLast name (lines ++ [line]) = (ofLast name lines).apply (key, value) := by
  simp only [ofLast, Text.lastValue?_concat read]
  rcases Setting.ofKey?_cases key with ⟨setting, rfl⟩ | ⟨unknown, other⟩
  · have known : ∀ settings : List Setting,
        settings.any (·.key == setting.key) = settings.contains setting := by
      intro settings
      rw [List.contains_eq_any_beq]
      congr 1
      funext other
      rw [Bool.eq_iff_iff, beq_iff_eq, beq_iff_eq, Setting.key_injective.eq_iff, eq_comm]
    simp only [known]
    rw [apply, Setting.ofKey?_key]
    cases setting <;> rfl
  · have absent : ∀ settings : List Setting, settings.any (·.key == key) = false := by
      intro settings
      rw [List.any_eq_false]
      intro setting _
      simpa using other setting
    simp only [absent, apply, unknown]
    rfl

theorem ofDirectives_eq_ofLast (name : Text) (lines : List Text) :
    ofDirectives name (lines.filterMap Text.directive?) = ofLast name lines := by
  induction lines using List.reverseRecOn with
  | nil => rfl
  | append_singleton lines line ih =>
    rw [List.filterMap_append]
    cases read : line.directive? with
    | none =>
      have same : ofLast name (lines ++ [line]) = ofLast name lines := by
        simp only [ofLast, Text.lastValue?_concat_of_silent read]
      simp [read, ih, same]
    | some entry =>
      have next : ofDirectives name (lines.filterMap Text.directive? ++ [entry]) =
          (ofDirectives name (lines.filterMap Text.directive?)).apply entry := by
        simp [ofDirectives]
      rw [List.filterMap_cons_some read, List.filterMap_nil, next, ih,
        ofLast_concat name lines read]

theorem ofLast_congr (name : Text) {first second : List Text}
    (same : ∀ settings ∈ Setting.fields,
      Text.lastValue? settings first = Text.lastValue? settings second) :
    ofLast name first = ofLast name second := by
  simp only [Setting.fields, List.forall_mem_cons, List.not_mem_nil, false_implies, implies_true,
    and_true] at same
  obtain ⟨path, writable, guest, comment, validUsers⟩ := same
  simp only [ofLast, path, writable, guest, comment, validUsers]

theorem ofLast_of_filter_eq (name : Text) {first second : List Text}
    (same : first.filter (Text.gives Setting.readable) =
      second.filter (Text.gives Setting.readable)) :
    ofLast name first = ofLast name second := by
  refine ofLast_congr name fun settings field => ?_
  have read := Setting.subset_readable field
  rw [← Text.lastValue?_filter read first, same, Text.lastValue?_filter read]

/-- Lines that give none of the settings that are read. -/
theorem gives_readable_eq_false {line : Text}
    (silent : line.isBlankText = true ∨ line.trim.head? = some '#' ∨ line.trim.head? = some ';' ∨
      ∃ key value, line.directive? = some (key, value) ∧
        ∀ setting ∈ Setting.readable, setting.key ≠ key) :
    line.gives Setting.readable = false := by
  rcases silent with blank | hash | semicolon | ⟨key, value, read, other⟩
  · exact Text.gives_of_silent (Text.directive?_of_isBlankText blank)
  · exact Text.gives_of_silent (Text.directive?_of_comment (Or.inl hash))
  · exact Text.gives_of_silent (Text.directive?_of_comment (Or.inr semicolon))
  · rw [Text.gives_of_directive? read, List.any_eq_false]
    intro setting member
    simpa using other setting member

/-- The share of a section is told by the last line for each of its fields. Blank lines, comments
and other settings may be put in, taken out or moved, and anything may stand before lines for all
fields; the share stays the same. -/
theorem read_from_last_lines {block : Block} (managed : block.isReserved = false) :
    ofBlock? block = some (ofLast block.name block.lines) ∧
      (∀ lines, lines.filter (Text.gives Setting.readable) =
          block.lines.filter (Text.gives Setting.readable) →
        ofBlock? { block with lines } = ofBlock? block) ∧
      (∀ line : Text, line.isBlankText = true ∨ line.trim.head? = some '#' ∨
          line.trim.head? = some ';' ∨ (∃ key value, line.directive? = some (key, value) ∧
            ∀ setting ∈ Setting.readable, setting.key ≠ key) →
        line.gives Setting.readable = false) ∧
      ((∀ settings ∈ Setting.fields, ∃ line ∈ block.lines, line.gives settings = true) →
        ∀ front, ofBlock? { block with lines := front ++ block.lines } = ofBlock? block) := by
  have read : ∀ lines, ofBlock? { block with lines } = some (ofLast block.name lines) := by
    intro lines
    rw [← ofDirectives_eq_ofLast]
    exact ofBlock?_of_managed managed
  refine ⟨read block.lines, fun lines same => ?_, fun _ => gives_readable_eq_false,
    fun complete front => ?_⟩
  · rw [read lines, ofLast_of_filter_eq block.name same]
    exact (read block.lines).symm
  · have same : ofLast block.name (front ++ block.lines) = ofLast block.name block.lines :=
      ofLast_congr block.name fun settings field => Text.lastValue?_append (complete settings field)
    rw [read (front ++ block.lines), same]
    exact (read block.lines).symm

/-- A section with two paths, both keys for write access and lines in between that are not read. -/
def editedByHand : Block :=
  .plain "media".toList ["path = /srv/a".toList, "# path = /srv/c".toList, "writable = yes".toList,
    "guest ok = yes".toList, " path = /srv/b".toList, "public = 1".toList, "".toList,
    "comment = films".toList, "valid users = ann %S".toList, "writeable = no".toList]

theorem read_from_last_lines_edited :
    editedByHand.isReserved = false ∧
      ofBlock? editedByHand = some ⟨"media".toList, "/srv/b".toList, false, true, "films".toList,
        ["ann".toList]⟩ ∧
      ofBlock? { editedByHand with lines := "path = /srv/d".toList :: editedByHand.lines } =
        ofBlock? editedByHand := by
  have managed : editedByHand.isReserved = false := by decide
  obtain ⟨last, -, -, prepended⟩ := read_from_last_lines managed
  have share : ofLast editedByHand.name editedByHand.lines =
      ⟨"media".toList, "/srv/b".toList, false, true, "films".toList, ["ann".toList]⟩ := by
    decide
  have complete : ∀ settings ∈ Setting.fields,
      ∃ line ∈ editedByHand.lines, line.gives settings = true := by
    decide
  exact ⟨managed, share ▸ last, prepended complete ["path = /srv/d".toList]⟩

end Share

end SambaShares
