import SambaShares.Proofs.Document.Reread
import SambaShares.Proofs.Share.Read
/-!
The registry speaks of the first block of a name. Looking a share up reads that block, unless the
name has a meaning of its own, however often the section is repeated.
-/

namespace SambaShares

namespace Document

/-- The first block of a name, with the blocks before and after it. -/
structure Split (document : Document) (name : Text) (before : List Block) (block : Block)
    (after : List Block) : Prop where
  blocks : document.blocks = before ++ block :: after
  named : block.name = name
  first : ∀ other ∈ before, other.name ≠ name

theorem Split.mem {document : Document} {name : Text} {before after : List Block} {block : Block}
    (split : document.Split name before block after) : block ∈ document.blocks := by
  simp [split.blocks]

theorem block?_eq_some_iff {document : Document} {name : Text} {block : Block} :
    document.block? name = some block ↔
      ∃ before after, document.Split name before block after := by
  unfold block?
  rw [List.find?_eq_some_iff_append]
  constructor
  · intro found
    obtain ⟨named, before, after, shape, first⟩ := found
    exact ⟨before, after, shape, by simpa using named, by simpa using first⟩
  · intro found
    obtain ⟨before, after, split⟩ := found
    exact ⟨by simpa using split.named, before, after, split.blocks, by simpa using split.first⟩

theorem position?_eq_some_iff {document : Document} {name : Text} {index : Nat} :
    document.position? name = some index ↔
      ∃ before block after, document.Split name before block after ∧ before.length = index := by
  unfold position?
  constructor
  · intro found
    obtain ⟨bound, named, first⟩ := List.findIdx?_eq_some_iff_getElem.1 found
    refine ⟨document.blocks.take index, document.blocks[index], document.blocks.drop (index + 1),
      ⟨?_, by simpa using named, ?_⟩, List.length_take_of_le bound.le⟩
    · rw [List.getElem_cons_drop, List.take_append_drop]
    · intro other member
      obtain ⟨i, small, rfl⟩ := List.mem_iff_getElem.1 member
      rw [List.length_take] at small
      rw [List.getElem_take]
      simpa using first i (by omega)
  · intro found
    obtain ⟨before, block, after, split, rfl⟩ := found
    have none : before.findIdx? (·.name == name) = none := by
      rw [List.findIdx?_eq_none_iff]
      simpa using split.first
    rw [split.blocks, List.findIdx?_append, none, List.findIdx?_cons, split.named]
    simp

theorem Split.unique {document : Document} {name : Text} {before front after back : List Block}
    {block other : Block} (split : document.Split name before block after)
    (again : document.Split name front other back) : before = front ∧ block = other ∧ after = back := by
  have here := position?_eq_some_iff.2 ⟨before, block, after, split, rfl⟩
  have there := position?_eq_some_iff.2 ⟨front, other, back, again, rfl⟩
  have sameIndex : before.length = front.length := Option.some.inj (here.symm.trans there)
  have sameBlocks := split.blocks.symm.trans again.blocks
  obtain ⟨fronts, rest⟩ := List.append_inj sameBlocks sameIndex
  exact ⟨fronts, List.cons.inj rest⟩

end Document

namespace Registry

theorem find?_firstOfEachName (shares : List Share) (name : Text) :
    (firstOfEachName shares).find? (·.name == name) = shares.find? (·.name == name) := by
  induction shares with
  | nil => rfl
  | cons share rest ih =>
    by_cases same : share.name = name
    · rw [firstOfEachName, List.find?_cons_of_pos (by simpa using same),
        List.find?_cons_of_pos (by simpa using same)]
    · rw [firstOfEachName, List.find?_cons_of_neg (by simpa using same),
        List.find?_cons_of_neg (by simpa using same), List.find?_filter, ← ih]
      congr 1
      funext other
      by_cases named : other.name = name
      · have apart : name ≠ share.name := fun equal => same equal.symm
        simp [named, apart]
      · simp [named]

theorem find?_shares (document : Document) (name : Text) :
    document.shares.find? (·.name == name) = (document.block? name).bind Share.ofBlock? := by
  unfold Document.shares Document.block?
  induction document.blocks with
  | nil => rfl
  | cons block rest ih =>
    cases read : Share.ofBlock? block with
    | some share =>
      have named := (Share.managed_of_ofBlock?_eq_some read).2
      rw [List.filterMap_cons_some read]
      by_cases same : block.name = name
      · rw [List.find?_cons_of_pos (by simpa [named] using same),
          List.find?_cons_of_pos (by simpa using same), Option.bind_some, read]
      · rw [List.find?_cons_of_neg (by simpa [named] using same),
          List.find?_cons_of_neg (by simpa using same), ih]
    | none =>
      rw [List.filterMap_cons_none read]
      by_cases same : block.name = name
      · -- Every later section of this name is passed over as well.
        have reserved : isReserved name = true := by
          by_contra managed
          rw [Share.ofBlock?_of_managed (by rw [same]; simpa using managed)] at read
          cases read
        rw [List.find?_cons_of_pos (by simpa using same), Option.bind_some, read,
          List.find?_eq_none]
        intro share member
        obtain ⟨other, -, otherRead⟩ := List.mem_filterMap.1 member
        obtain ⟨managed, named⟩ := Share.managed_of_ofBlock?_eq_some otherRead
        simp only [named, beq_iff_eq]
        intro equal
        rw [← equal, managed] at reserved
        cases reserved
      · rw [List.find?_cons_of_neg (by simpa using same), ih]

theorem lookup_eq_find?_shares (document : Document) (name : Text) :
    (ofDocument document).lookup name = document.shares.find? (·.name == name) :=
  find?_firstOfEachName document.shares name

theorem lookup_ofDocument (document : Document) (name : Text) :
    (ofDocument document).lookup name = (document.block? name).bind Share.ofBlock? :=
  (lookup_eq_find?_shares document name).trans (find?_shares document name)

theorem contains_eq_isSome_lookup (registry : Registry) (name : Text) :
    registry.contains name = (registry.lookup name).isSome :=
  List.isSome_find?.symm

theorem lookup_ofDocument_eq_some_iff {document : Document} {name : Text} {share : Share} :
    (ofDocument document).lookup name = some share ↔
      ∃ before block after, document.Split name before block after ∧
        Share.ofBlock? block = some share := by
  rw [lookup_ofDocument, Option.bind_eq_some_iff]
  constructor
  · intro found
    obtain ⟨block, here, read⟩ := found
    obtain ⟨before, after, split⟩ := Document.block?_eq_some_iff.1 here
    exact ⟨before, block, after, split, read⟩
  · intro found
    obtain ⟨before, block, after, split, read⟩ := found
    exact ⟨block, Document.block?_eq_some_iff.2 ⟨before, after, split⟩, read⟩

theorem contains_ofDocument_iff {document : Document} {name : Text} :
    (ofDocument document).contains name = true ↔
      isReserved name = false ∧ ∃ before block after, document.Split name before block after := by
  rw [contains_eq_isSome_lookup, Option.isSome_iff_exists]
  constructor
  · intro contained
    obtain ⟨share, found⟩ := contained
    obtain ⟨before, block, after, split, read⟩ := lookup_ofDocument_eq_some_iff.1 found
    have managed := (Share.managed_of_ofBlock?_eq_some read).1
    exact ⟨split.named ▸ managed, before, block, after, split⟩
  · intro found
    obtain ⟨managed, before, block, after, split⟩ := found
    have managedBlock : isReserved block.name = false := split.named ▸ managed
    have read := Share.ofBlock?_of_managed managedBlock
    exact ⟨_, lookup_ofDocument_eq_some_iff.2 ⟨before, block, after, split, read⟩⟩

theorem mem_names_ofDocument {document : Document} {name : Text} :
    name ∈ (ofDocument document).names ↔ ∃ share ∈ document.shares, share.name = name := by
  have found := congrArg Option.isSome (find?_firstOfEachName document.shares name)
  rw [List.isSome_find?, List.isSome_find?] at found
  calc
    name ∈ (ofDocument document).names ↔
        (firstOfEachName document.shares).any (·.name == name) = true := by
      simp [names, ofDocument, Document.shares]
    _ ↔ document.shares.any (·.name == name) = true := by rw [found]
    _ ↔ ∃ share ∈ document.shares, share.name = name := by simp

/-- A name is free when no share but the excepted one has it, whatever the case of its letters. -/
theorem taken_ofDocument_eq_false_iff {document : Document} {name : Text} {except? : Option Text} :
    (ofDocument document).taken name except? = false ↔
      ∀ share ∈ document.shares, some share.name ≠ except? → Text.sameName share.name name = false := by
  unfold taken
  rw [List.any_eq_false]
  constructor
  · intro free share member other
    have absent := free share.name (mem_names_ofDocument.2 ⟨share, member, rfl⟩)
    simpa [other] using absent
  · intro free other member
    obtain ⟨share, inside, rfl⟩ := mem_names_ofDocument.1 member
    by_cases excepted : some share.name = except?
    · simp [excepted]
    · simp [free share inside excepted]

/-- The shares of a document are those that are read from its text. -/
theorem ofDocument_parse_render {document : Document} (formed : document.WellFormed) :
    ofDocument (.parse document.render) = ofDocument document :=
  congrArg (fun shares => Registry.mk (firstOfEachName shares)) formed.reread.shares

end Registry

end SambaShares
