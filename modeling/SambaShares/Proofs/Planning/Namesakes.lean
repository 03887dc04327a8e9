import SambaShares.Proofs.Planning.Session
/-!
The names of sections. The file server does not tell names apart by the case of their letters, so two
shares of the same name up to case shadow each other; a file edited by hand may have such pairs, and
no request makes more of them. Sections with a meaning of their own keep their headers, their
settings and their order, so none becomes a share and no share becomes one.
-/

namespace SambaShares

namespace Text

/-- How many pairs of these names are the same up to case. -/
def namesakes : List Text → Nat
  | [] => 0
  | name :: rest => rest.countP (sameName name) + namesakes rest

theorem namesakes_eq_zero_iff {names : List Text} :
    namesakes names = 0 ↔ names.Pairwise fun first second => sameName first second = false := by
  induction names with
  | nil => simp [namesakes]
  | cons name rest ih => simp [namesakes, List.countP_eq_zero, ih]

/-- The pairs with one name in them, and the others. -/
theorem namesakes_middle (before after : List Text) (name : Text) :
    namesakes (before ++ name :: after) =
      (before ++ after).countP (sameName name) + namesakes (before ++ after) := by
  induction before with
  | nil => rfl
  | cons first rest ih =>
    have turned : sameName first name = sameName name first := sameName_comm first name
    simp only [List.cons_append, namesakes, ih, List.countP_append, List.countP_cons, turned]
    omega

/-- No pair comes about when at most one name is exchanged for at most one other, which no name but
those equal to the old one is the same as up to case. -/
theorem namesakes_exchange_le {before after : List Text} {old new : Option Text}
    (free : ∀ name ∈ new, ∀ other ∈ before ++ after, some other ≠ old →
      sameName name other = false) :
    namesakes (before ++ new.toList ++ after) ≤ namesakes (before ++ old.toList ++ after) := by
  cases new with
  | none =>
    cases old with
    | none => exact Nat.le_refl _
    | some former => simp [namesakes_middle]
  | some name =>
    have given := free name rfl
    cases old with
    | none =>
      have none : (before ++ after).countP (sameName name) = 0 :=
        List.countP_eq_zero.2 fun other member => by simp [given other member]
      simp [namesakes_middle, none]
    | some former =>
      have fewer : (before ++ after).countP (sameName name) ≤
          (before ++ after).countP (sameName former) := by
        refine List.countP_mono_left fun other member same => ?_
        by_cases equal : other = former
        · rw [equal, sameName_refl]
        · rw [given other member (by simpa using equal)] at same
          cases same
      simpa [namesakes_middle] using fewer

end Text

namespace Document

/-- The names of the shares in the order of the file, with each repetition. -/
def managedNames (document : Document) : List Text :=
  (document.sections.map Section.name).filter (!isReserved ·)

/-- How many pairs of shares have the same name up to case. -/
def namesakes (document : Document) : Nat := Text.namesakes document.managedNames

/-- The sections with a meaning of their own, in order. -/
def reservedSections (document : Document) : List Section :=
  document.sections.filter (isReserved ·.name)

theorem map_name_shares (document : Document) :
    document.shares.map Share.name = document.managedNames := by
  unfold shares managedNames sections
  induction document.blocks with
  | nil => rfl
  | cons block rest ih =>
    cases reserved : isReserved block.name with
    | true => simpa [Share.ofBlock?_of_reserved reserved, Block.toSection, reserved] using ih
    | false =>
      simpa [Share.ofBlock?_of_managed reserved, Share.name_ofDirectives, Block.toSection,
        reserved] using ih

theorem mem_managedNames {document : Document} {name : Text} :
    name ∈ document.managedNames ↔
      isReserved name = false ∧ ∃ block ∈ document.blocks, block.name = name := by
  simp [managedNames, sections, Block.toSection, and_comm]

/-- Exactly when a name can be given: no share but those of the excepted name has it up to case. -/
theorem taken_eq_false_iff {document : Document} {name : Text} {except? : Option Text} :
    (Registry.ofDocument document).taken name except? = false ↔
      ∀ other ∈ document.managedNames, some other ≠ except? → Text.sameName name other = false := by
  simp only [Registry.taken_ofDocument_eq_false_iff, ← map_name_shares, List.forall_mem_map,
    Text.sameName_comm name]

/-- What a request keeps of the names of sections. -/
structure KeepsNames (document next : Document) : Prop where
  namesakes : next.namesakes ≤ document.namesakes
  apart : document.managedNames.Pairwise (fun first second => Text.sameName first second = false) →
    next.managedNames.Pairwise fun first second => Text.sameName first second = false
  reserved : next.reservedSections = document.reservedSections

theorem KeepsNames.of_le {document next : Document} (fewer : next.namesakes ≤ document.namesakes)
    (reserved : next.reservedSections = document.reservedSections) : document.KeepsNames next := by
  refine ⟨fewer, fun apart => ?_, reserved⟩
  rw [← Text.namesakes_eq_zero_iff] at apart ⊢
  exact Nat.le_zero.1 (Nat.le_trans fewer (Nat.le_of_eq apart))

theorem KeepsNames.of_sections_eq {document next : Document}
    (same : next.sections = document.sections) : document.KeepsNames next := by
  apply KeepsNames.of_le
  · simp only [Document.namesakes, managedNames, same, Nat.le_refl]
  · simp only [reservedSections, same]

theorem KeepsNames.trans {first second third : Document} (former : first.KeepsNames second)
    (latter : second.KeepsNames third) : first.KeepsNames third :=
  ⟨latter.namesakes.trans former.namesakes, fun apart => latter.apart (former.apart apart),
    latter.reserved.trans former.reserved⟩

theorem managedNames_of_sections {document : Document} {before after : List Section}
    {here : Option Section} (shape : document.sections = before ++ here.toList ++ after)
    (managed : ∀ part ∈ here, isReserved part.name = false) :
    document.managedNames = (before.map Section.name).filter (!isReserved ·) ++
      (here.map Section.name).toList ++ (after.map Section.name).filter (!isReserved ·) := by
  rw [managedNames, shape]
  cases here with
  | none => simp
  | some part => simp [managed part rfl]

/-- In the place of at most one share there is at most one other, whose name is free. -/
theorem KeepsNames.of_exchange {document next : Document} (before after : List Section)
    (old new : Option Section) (was : document.sections = before ++ old.toList ++ after)
    (is : next.sections = before ++ new.toList ++ after)
    (oldManaged : ∀ part ∈ old, isReserved part.name = false)
    (managed : ∀ part ∈ new, isReserved part.name = false)
    (free : ∀ part ∈ new, (Registry.ofDocument document).taken part.name
      (old.map Section.name) = false) : document.KeepsNames next := by
  have names := managedNames_of_sections was oldManaged
  apply KeepsNames.of_le
  · unfold Document.namesakes
    rw [names, managedNames_of_sections is managed]
    refine Text.namesakes_exchange_le fun name given other member apart => ?_
    obtain ⟨part, inside, rfl⟩ := Option.map_eq_some_iff.1 given
    refine taken_eq_false_iff.1 (free part inside) other ?_ apart
    rw [names]
    rcases List.mem_append.1 member with front | back
    · exact List.mem_append_left _ (List.mem_append_left _ front)
    · exact List.mem_append_right _ back
  · have none : ∀ here : Option Section, (∀ part ∈ here, isReserved part.name = false) →
        here.toList.filter (isReserved ·.name) = [] := by
      intro here managed
      cases here with
      | none => rfl
      | some part => simp [managed part rfl]
    simp only [reservedSections, was, is, List.filter_append, none old oldManaged,
      none new managed]

end Document

theorem Change.keepsNames {document next : Document} (change : Change document next) :
    document.KeepsNames next := by
  cases change with
  | @added spec accepted managed free =>
    refine .of_exchange document.sections [] none (some spec.toBlock.toSection) ?_ ?_ ?_ ?_ ?_
    · simp
    · simp [Document.sections_push]
    · simp
    · rintro part ⟨⟩
      exact managed
    · rintro part ⟨⟩
      exact free
  | @renewed old spec before after block split oldManaged accepted managed free =>
    obtain rfl := split.named
    refine .of_exchange (before.map Block.toSection) (after.map Block.toSection)
      (some block.toSection) (some (spec.renewBlock block).toSection) ?_ ?_ ?_ ?_ ?_
    · simp [Document.sections, split.blocks]
    · simp [Document.sections]
    · rintro part ⟨⟩
      exact oldManaged
    · rintro part ⟨⟩
      exact managed
    · rintro part ⟨⟩
      exact free
  | @removed name before after block split managed =>
    obtain rfl := split.named
    refine .of_exchange (before.map Block.toSection) (after.map Block.toSection)
      (some block.toSection) none ?_ ?_ ?_ ?_ ?_
    · simp [Document.sections, split.blocks]
    · simp [Document.sections_without]
    · rintro part ⟨⟩
      exact managed
    · simp
    · simp

/-- No request makes more pairs of shares with the same name up to case, nor does it add, remove,
rename or move a section with a meaning of its own; so it is for any number of requests, however
often the file is read again between them. -/
theorem Session.namesakes_and_reserved (document : Document) :
    (∀ (probe : Text → Bool) (request : Request) (next : Document),
      request.plan probe document = .ok next → document.KeepsNames next) ∧
    (document.WellFormed → ∀ next, Session document next → document.KeepsNames next) := by
  refine ⟨fun probe request next planned => (Change.of_plan planned).keepsNames, ?_⟩
  intro formed next session
  induction session with
  | start => exact .of_sections_eq rfl
  | plan _ planned ih => exact ih.trans (Change.of_plan planned).keepsNames
  | reread session ih =>
    exact ih.trans (.of_sections_eq (Document.sections_parse_render (session.wellFormed formed)))

/-- A file with a repeated section: the first of the two may be renamed to a variant of its own name,
which makes no new pair, and with the other one the pair is gone. -/
theorem Session.namesakes_and_reserved_repeated :
    let document : Document := .parse "[Global]
x = 1
[a]
[homes]
[a]
path = /y".toList
    let spec : ShareSpec := { name := "A".toList, path := "/x".toList }
    let renamed : Document :=
      .parse ("[Global]
x = 1
[A]
".toList ++ Text.ofLines spec.settingLines ++
        "
[homes]
[a]
path = /y".toList)
    let next : Document :=
      .parse ("[Global]
x = 1
[A]
".toList ++ Text.ofLines spec.settingLines ++
        "
[homes]".toList)
    document.namesakes = 1 ∧ renamed.namesakes = 1 ∧ next.namesakes = 0 ∧
      (Request.update "a".toList spec).plan (fun _ => true) document = .ok renamed ∧
      document.KeepsNames renamed ∧ Session document next ∧ document.KeepsNames next := by
  intro document spec renamed next
  have first : (Request.update "a".toList spec).plan (fun _ => true) document = .ok renamed := by
    decide +kernel
  have second : (Request.delete "a".toList).plan (fun _ => true) (.parse renamed.render) =
      .ok next := by
    decide +kernel
  have session : Session document next := .plan (.reread (.plan .start first)) second
  have formed : document.WellFormed := by decide +kernel
  exact ⟨by decide +kernel, by decide +kernel, by decide +kernel, first,
    (namesakes_and_reserved document).1 _ _ _ first, session,
    (namesakes_and_reserved document).2 formed next session⟩

end SambaShares
