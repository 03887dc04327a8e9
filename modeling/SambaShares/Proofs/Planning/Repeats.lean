import SambaShares.Proofs.Planning.Session
/-!
Repeated sections. The registry shows the first section of a name, and a request is about that one
only. When it is removed or gets another name, the next section of the same name takes its place in
the registry; the name is gone only if there is none.
-/

namespace SambaShares

namespace Document

/-- The sections of exactly this name, in order. -/
def sectionsOf (document : Document) (name : Text) : List Section :=
  document.sections.filter (·.name == name)

theorem sectionsOf_congr {first second : Document} (same : first.sections = second.sections)
    (name : Text) : first.sectionsOf name = second.sectionsOf name := by
  rw [sectionsOf, sectionsOf, same]

theorem name_of_mem_sectionsOf {document : Document} {name : Text} {part : Section}
    (member : part ∈ document.sectionsOf name) : part.name = name := by
  simpa using (List.mem_filter.1 member).2

/-- The first section of a name is the one that the registry shows. -/
theorem lookup_eq_head?_sectionsOf (document : Document) (name : Text) :
    (Registry.ofDocument document).lookup name =
      (document.sectionsOf name).head?.bind Section.share? := by
  have first : (document.sectionsOf name).head? = (document.block? name).map Block.toSection := by
    rw [sectionsOf, List.head?_filter, sections, List.find?_map]
    rfl
  rw [Registry.lookup_ofDocument, first, Option.bind_map]
  rfl

theorem contains_iff_sectionsOf_ne_nil {document : Document} {name : Text}
    (managed : isReserved name = false) :
    (Registry.ofDocument document).contains name = true ↔ document.sectionsOf name ≠ [] := by
  rw [Registry.contains_eq_isSome_lookup, lookup_eq_head?_sectionsOf]
  cases shape : document.sectionsOf name with
  | nil => simp
  | cons part rest =>
    have member : part ∈ document.sectionsOf name := by
      rw [shape]
      exact List.mem_cons_self
    have named := name_of_mem_sectionsOf member
    simp [Section.share?, named, managed]

theorem Split.sectionsOf {document : Document} {name : Text} {before after : List Block}
    {block : Block} (split : document.Split name before block after) :
    document.sectionsOf name =
      block.toSection :: (after.map Block.toSection).filter (·.name == name) := by
  have none : (before.map Block.toSection).filter (·.name == name) = [] := by
    rw [List.filter_eq_nil_iff]
    intro part member
    obtain ⟨other, inside, rfl⟩ := List.mem_map.1 member
    simpa [Block.toSection] using split.first other inside
  have named : block.toSection.name = name := split.named
  rw [Document.sectionsOf, sections, split.blocks, List.map_append, List.map_cons,
    List.filter_append, none, List.nil_append, List.filter_cons_of_pos (by simpa using named)]

/-- In the place of the first section of a name there is none, or one of another name. -/
theorem sectionsOf_of_exchange {document next : Document} {name : Text} {before after : List Block}
    {block : Block} (split : document.Split name before block after) (here : Option Section)
    (shape : next.sections =
      before.map Block.toSection ++ here.toList ++ after.map Block.toSection)
    (renamed : ∀ part ∈ here, part.name ≠ name) :
    next.sectionsOf name = (document.sectionsOf name).tail := by
  have none : (before.map Block.toSection ++ here.toList).filter (·.name == name) = [] := by
    rw [List.filter_eq_nil_iff]
    intro part member
    rcases List.mem_append.1 member with front | new
    · obtain ⟨other, inside, rfl⟩ := List.mem_map.1 front
      simpa [Block.toSection] using split.first other inside
    · simpa using renamed part (Option.mem_toList.1 new)
  rw [split.sectionsOf, sectionsOf, shape, List.filter_append, none, List.nil_append,
    List.tail_cons]

end Document

namespace Request

/-- A request after which the share of this name is no longer there, or has another name. -/
def Removes (name : Text) : Request → Prop
  | add _ => False
  | update old spec => old = name ∧ spec.name ≠ name
  | delete given => given = name
  | setUsers _ _ => False

instance (name : Text) (request : Request) : Decidable (request.Removes name) := by
  unfold Removes
  split <;> infer_instance

variable {probe : Text → Bool} {document next : Document} {name : Text} {request : Request}

theorem Removes.managed (removes : request.Removes name)
    (planned : request.plan probe document = .ok next) : isReserved name = false := by
  cases request with
  | add spec => exact removes.elim
  | update old spec =>
    obtain ⟨rfl, -⟩ := removes
    exact (Document.updateShare_eq_ok_iff.1 planned).1
  | delete given =>
    obtain rfl := removes
    exact (Document.deleteShare_eq_ok_iff.1 planned).1
  | setUsers given users => exact removes.elim

/-- The first section of the name goes, the others stay as they are and in their order. -/
theorem Removes.sectionsOf (removes : request.Removes name)
    (planned : request.plan probe document = .ok next) :
    next.sectionsOf name = (document.sectionsOf name).tail := by
  cases request with
  | add spec => exact removes.elim
  | update old spec =>
    obtain ⟨rfl, apart⟩ := removes
    obtain ⟨-, -, -, -, before, block, after, split, rfl⟩ :=
      Document.updateShare_eq_ok_iff.1 planned
    refine Document.sectionsOf_of_exchange split (some (spec.renewBlock block).toSection) ?_ ?_
    · simp [Document.sections]
    · rintro part ⟨⟩
      exact apart
  | delete given =>
    obtain rfl := removes
    obtain ⟨-, before, block, after, split, rfl⟩ := Document.deleteShare_eq_ok_iff.1 planned
    refine Document.sectionsOf_of_exchange split none ?_ (by simp)
    simp [Document.sections_without]
  | setUsers given users => exact removes.elim

/-- What a reader of the file finds under a name that was removed: the share of the next section of
exactly this name, if the file had one, and otherwise none. -/
theorem lookup_of_removes (text : Text) (planned : request.plan probe (.parse text) = .ok next)
    (removes : request.Removes name) :
    let registry := Registry.ofDocument (.parse next.render)
    registry.lookup name = ((Document.parse text).sectionsOf name)[1]?.bind Section.share? ∧
      (registry.contains name = true ↔ 2 ≤ ((Document.parse text).sectionsOf name).length) := by
  intro registry
  have formed : next.WellFormed :=
    (Change.of_plan planned).wellFormed (Document.canonical_parse text).toWellFormed
  have read : (Document.parse next.render).sectionsOf name =
      ((Document.parse text).sectionsOf name).tail :=
    (Document.sectionsOf_congr (Document.sections_parse_render formed) name).trans
      (removes.sectionsOf planned)
  constructor
  · rw [Document.lookup_eq_head?_sectionsOf, read, List.head?_tail]
  · rw [Document.contains_iff_sectionsOf_ne_nil (removes.managed planned), read,
      ← List.length_pos_iff, List.length_tail]
    omega

/-- The first of two sections gets another name, and its users are gone with it; the name is now that
of the second, with the users that are named there. -/
theorem lookup_of_removes_renamed :
    let text := "[m]\n path = /a\n valid users = bob\n[n]\n[m]\n path = /b\nvalid users = eve".toList
    let spec : ShareSpec := { name := "k".toList, path := "/a".toList }
    let rest : Text := "\n[n]\n[m]\n path = /b\nvalid users = eve".toList
    let next : Document := .parse ("[k]\n".toList ++ Text.ofLines spec.settingLines ++ rest)
    let registry := Registry.ofDocument (.parse next.render)
    (update "m".toList spec).plan (fun _ => true) (.parse text) = .ok next ∧
      (update "m".toList spec).Removes "m".toList ∧
      registry.lookup "m".toList = some
        { name := "m".toList, path := "/b".toList, validUsers := ["eve".toList] } ∧
      registry.contains "m".toList = true := by
  intro text spec rest next registry
  have planned : (update "m".toList spec).plan (fun _ => true) (.parse text) = .ok next := by
    decide +kernel
  have removes : (update "m".toList spec).Removes "m".toList := by decide
  obtain ⟨found, contained⟩ := lookup_of_removes text planned removes
  refine ⟨planned, removes, ?_, contained.2 (by decide +kernel)⟩
  rw [found]
  decide +kernel

/-- A repeated section outlives the removal of its name, and other users have the share then. -/
theorem removed_name_remains :
    let first := "[m]\n   path = /a\n   valid users = bob\n\n".toList
    let second := "[m]\n   path = /b\n   valid users = eve\n".toList
    let registry := Registry.ofDocument (.parse (Document.parse second).render)
    (Document.parse (first ++ second)).deleteShare "m".toList = .ok (.parse second) ∧
      registry.contains "m".toList = true ∧ registry.lookup "m".toList = some
        { name := "m".toList, path := "/b".toList, validUsers := ["eve".toList] } := by
  decide +kernel

end Request

end SambaShares
