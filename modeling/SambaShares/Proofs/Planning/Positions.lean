import SambaShares.Proofs.Planning.Namesakes
/-!
The registry and the blocks by their position are two views of the same document. A request is
checked against the one and carried out on the other, so the share that is looked up has to be that
of the block that is edited, also where sections are repeated.
-/

namespace SambaShares

namespace Document

/-- The share of a name is read from the block at this index: of the blocks that have a share, it is
the first whose share has the name. -/
structure ReadFrom (document : Document) (name : Text) (index : Nat) (share : Share) : Prop where
  here : document.blocks[index]?.bind Share.ofBlock? = some share
  named : share.name = name
  first : ∀ earlier < index, ∀ other,
    document.blocks[earlier]?.bind Share.ofBlock? = some other → other.name ≠ name

/-- Sections without a share never come between: a name with a meaning of its own has no share. -/
theorem readFrom_iff_split {document : Document} {name : Text} {index : Nat} {share : Share} :
    document.ReadFrom name index share ↔ ∃ before block after,
      document.Split name before block after ∧ before.length = index ∧
        Share.ofBlock? block = some share := by
  constructor
  · rintro ⟨here, named, first⟩
    obtain ⟨block, there, read⟩ := Option.bind_eq_some_iff.1 here
    obtain ⟨managed, sameName⟩ := Share.managed_of_ofBlock?_eq_some read
    obtain ⟨bound, rfl⟩ := List.getElem?_eq_some_iff.1 there
    have position : document.position? name = some index := by
      unfold position?
      rw [List.findIdx?_eq_some_iff_getElem]
      refine ⟨bound, by simpa using sameName.symm.trans named, fun earlier less => ?_⟩
      simp only [beq_iff_eq]
      intro same
      have inside : earlier < document.blocks.length := less.trans bound
      have managedEarlier : isReserved document.blocks[earlier].name = false := by
        rw [same, ← named, sameName]
        exact managed
      have readEarlier := Share.ofBlock?_of_managed managedEarlier
      refine first earlier less _ ?_ ((Share.managed_of_ofBlock?_eq_some readEarlier).2.trans same)
      rw [List.getElem?_eq_getElem inside, Option.bind_some, readEarlier]
    obtain ⟨before, block, after, split, length⟩ := position?_eq_some_iff.1 position
    refine ⟨before, block, after, split, length, ?_⟩
    have shape : document.blocks[index]? = some block := by rw [split.blocks, ← length]; simp
    rw [there, Option.some.injEq] at shape
    exact shape ▸ read
  · rintro ⟨before, block, after, split, rfl, read⟩
    have named := (Share.managed_of_ofBlock?_eq_some read).2
    refine ⟨?_, named.trans split.named, fun earlier less other found => ?_⟩
    · rw [split.blocks]
      simpa using read
    · obtain ⟨source, there, readEarlier⟩ := Option.bind_eq_some_iff.1 found
      rw [split.blocks, List.getElem?_append_left less] at there
      rw [(Share.managed_of_ofBlock?_eq_some readEarlier).2]
      exact split.first source (List.mem_of_getElem? there)

theorem block?_eq_bind_position? (document : Document) (name : Text) :
    document.block? name = (document.position? name).bind fun index => document.blocks[index]? := by
  unfold block? position?
  exact List.find?_eq_bind_findIdx?_getElem?

end Document

namespace Registry

theorem lookup_eq_some_iff_readFrom {document : Document} {name : Text} {share : Share} :
    (ofDocument document).lookup name = some share ↔
      ∃ index, document.ReadFrom name index share := by
  simp only [lookup_ofDocument_eq_some_iff, Document.readFrom_iff_split]
  constructor
  · rintro ⟨before, block, after, split, read⟩
    exact ⟨before.length, before, block, after, split, rfl, read⟩
  · rintro ⟨_, before, block, after, split, -, read⟩
    exact ⟨before, block, after, split, read⟩

theorem lookup_eq_none_iff {document : Document} {name : Text} :
    (ofDocument document).lookup name = none ↔
      document.block? name = none ∨ isReserved name = true := by
  rw [lookup_ofDocument]
  cases found : document.block? name with
  | none => simp
  | some block =>
    obtain ⟨before, after, split⟩ := Document.block?_eq_some_iff.1 found
    have named := split.named
    cases reserved : isReserved name with
    | true =>
      have none := Share.ofBlock?_of_reserved (named.symm ▸ reserved)
      simp [none]
    | false =>
      have read := Share.ofBlock?_of_managed (named.symm ▸ reserved)
      simp [read]

theorem managedPosition_eq_ok_iff_readFrom {document : Document} {name : Text} {index : Nat} :
    document.managedPosition name = .ok index ↔
      ∃ share, (ofDocument document).lookup name = some share ∧
        document.ReadFrom name index share := by
  rw [Document.managedPosition_eq_ok_iff]
  constructor
  · rintro ⟨managed, before, block, after, split, length⟩
    have read := Share.ofBlock?_of_managed (split.named.symm ▸ managed)
    have here := Document.readFrom_iff_split.2 ⟨before, block, after, split, length, read⟩
    exact ⟨_, lookup_eq_some_iff_readFrom.2 ⟨index, here⟩, here⟩
  · rintro ⟨share, -, here⟩
    obtain ⟨before, block, after, split, length, read⟩ := Document.readFrom_iff_split.1 here
    have managed := (Share.managed_of_ofBlock?_eq_some read).1
    exact ⟨split.named ▸ managed, before, block, after, split, length⟩

theorem managedPosition_eq_error_iff {document : Document} {name : Text} :
    document.managedPosition name = .error (.notFound name) ↔
      (ofDocument document).lookup name = none := by
  have missing : ∀ e, document.managedPosition name = .error e → e = .notFound name := by
    intro e failed
    unfold Document.managedPosition at failed
    split at failed
    · split at failed
      · cases failed
      · exact (Except.error.inj failed).symm
    · exact (Except.error.inj failed).symm
  cases found : document.managedPosition name with
  | ok index =>
    obtain ⟨share, known, -⟩ := managedPosition_eq_ok_iff_readFrom.1 found
    simp [known]
  | error e =>
    rw [missing e found]
    simp only [true_iff, Option.eq_none_iff_forall_ne_some]
    intro share known
    obtain ⟨index, here⟩ := lookup_eq_some_iff_readFrom.1 known
    rw [managedPosition_eq_ok_iff_readFrom.2 ⟨share, known, here⟩] at found
    cases found

theorem mem_firstOfEachName {shares : List Share} {share : Share} :
    share ∈ firstOfEachName shares ↔ shares.find? (·.name == share.name) = some share := by
  induction shares with
  | nil => simp [firstOfEachName]
  | cons first rest ih =>
    rw [firstOfEachName, List.mem_cons, List.mem_filter, ih]
    by_cases same : first.name = share.name
    · rw [List.find?_cons_of_pos (by simpa using same)]
      simp [same, eq_comm]
    · rw [List.find?_cons_of_neg (by simpa using same)]
      have apart : share ≠ first := fun equal => same (equal ▸ rfl)
      have other : share.name ≠ first.name := fun equal => same equal.symm
      simp [apart, other]

theorem nodup_names (document : Document) : (ofDocument document).names.Nodup := by
  have once : ∀ shares : List Share, ((firstOfEachName shares).map Share.name).Nodup := by
    intro shares
    induction shares with
    | nil => exact List.nodup_nil
    | cons first rest ih =>
      rw [firstOfEachName, List.map_cons, List.nodup_cons]
      refine ⟨by simp, ih.sublist (List.filter_sublist.map _)⟩
  exact once document.shares

theorem mem_names_iff {document : Document} {name : Text} :
    name ∈ (ofDocument document).names ↔
      isReserved name = false ∧ ∃ block ∈ document.blocks, block.name = name := by
  rw [mem_names_ofDocument, ← Document.mem_managedNames, ← Document.map_name_shares, List.mem_map]

/-- Behind another block every name is found one place later. -/
theorem pairwise_findIdx_cons {block : Block} {rest : List Block} {names : List Text}
    (others : ∀ name ∈ names, block.name ≠ name)
    (pairs : names.Pairwise fun first second =>
      rest.findIdx (·.name == first) < rest.findIdx (·.name == second)) :
    names.Pairwise fun first second =>
      (block :: rest).findIdx (·.name == first) < (block :: rest).findIdx (·.name == second) := by
  refine pairs.imp_of_mem fun {first second} inFirst inSecond less => ?_
  rw [List.findIdx_cons, List.findIdx_cons, beq_false_of_ne (others first inFirst),
    beq_false_of_ne (others second inSecond)]
  exact Nat.succ_lt_succ less

/-- The names stand in the order in which their blocks are first found. -/
theorem pairwise_names (document : Document) :
    (ofDocument document).names.Pairwise fun first second =>
      document.blocks.findIdx (·.name == first) < document.blocks.findIdx (·.name == second) := by
  change ((firstOfEachName (document.blocks.filterMap Share.ofBlock?)).map Share.name).Pairwise _
  induction document.blocks with
  | nil => exact .nil
  | cons block rest ih =>
    cases reserved : isReserved block.name with
    | true =>
      rw [List.filterMap_cons_none (Share.ofBlock?_of_reserved reserved)]
      refine pairwise_findIdx_cons (fun name member same => ?_) ih
      obtain ⟨share, known, rfl⟩ := List.mem_map.1 member
      have found := List.mem_of_find?_eq_some (mem_firstOfEachName.1 known)
      obtain ⟨source, -, read⟩ := List.mem_filterMap.1 found
      obtain ⟨managed, named⟩ := Share.managed_of_ofBlock?_eq_some read
      rw [same, named, managed] at reserved
      cases reserved
    | false =>
      have read := Share.ofBlock?_of_managed reserved
      have named := (Share.managed_of_ofBlock?_eq_some read).2
      rw [List.filterMap_cons_some read, firstOfEachName, List.map_cons, named]
      have others : ∀ name ∈ ((firstOfEachName (rest.filterMap Share.ofBlock?)).filter
          (·.name != block.name)).map Share.name, block.name ≠ name := by
        intro name member same
        obtain ⟨share, kept, rfl⟩ := List.mem_map.1 member
        simp [same] at kept
      refine List.pairwise_cons.2 ⟨fun name member => ?_, pairwise_findIdx_cons others ?_⟩
      · rw [List.findIdx_cons, List.findIdx_cons, beq_false_of_ne (others name member),
          beq_self_eq_true]
        exact Nat.succ_pos _
      · exact ih.sublist (List.filter_sublist.map _)

theorem taken_iff {document : Document} {name : Text} {except? : Option Text} :
    (ofDocument document).taken name except? = true ↔
      ∃ block ∈ document.blocks, isReserved block.name = false ∧ some block.name ≠ except? ∧
        Text.sameName block.name name = true := by
  simp only [taken, List.any_eq_true, mem_names_iff, Bool.and_eq_true, bne_iff_ne]
  constructor
  · rintro ⟨_, ⟨managed, block, member, rfl⟩, other, same⟩
    exact ⟨block, member, managed, other, same⟩
  · rintro ⟨block, member, managed, other, same⟩
    exact ⟨block.name, ⟨managed, block, member, rfl⟩, other, same⟩

theorem mem_shares_iff {document : Document} {share : Share} :
    share ∈ (ofDocument document).shares ↔
      ∃ index, document.ReadFrom share.name index share := by
  rw [← lookup_eq_some_iff_readFrom, lookup_eq_find?_shares]
  exact mem_firstOfEachName

/-- The two views of a document: what the registry says of a name, and which block the name stands
for. -/
structure Agrees (document : Document) (name : Text) (except? : Option Text) : Prop where
  lookup : (ofDocument document).lookup name = (document.block? name).bind Share.ofBlock?
  unknown : (ofDocument document).lookup name = none ↔
    document.block? name = none ∨ isReserved name = true
  block : document.block? name =
    (document.position? name).bind fun index => document.blocks[index]?
  /-- Each share of the registry was read from one of the blocks. -/
  origin : ∀ share, share ∈ (ofDocument document).shares ↔
    ∃ index, document.ReadFrom share.name index share
  /-- The block that a request edits is the one that the share of the name was read from. -/
  position : ∀ index, document.managedPosition name = .ok index ↔
    ∃ share, (ofDocument document).lookup name = some share ∧ document.ReadFrom name index share
  notFound : document.managedPosition name = .error (.notFound name) ↔
    (ofDocument document).lookup name = none
  once : (ofDocument document).names.Nodup
  names : ∀ other, other ∈ (ofDocument document).names ↔
    isReserved other = false ∧ ∃ block ∈ document.blocks, block.name = other
  inOrder : (ofDocument document).names.Pairwise fun first second =>
    document.blocks.findIdx (·.name == first) < document.blocks.findIdx (·.name == second)
  taken : (ofDocument document).taken name except? = true ↔
    ∃ block ∈ document.blocks, isReserved block.name = false ∧ some block.name ≠ except? ∧
      Text.sameName block.name name = true

theorem agrees (document : Document) (name : Text) (except? : Option Text) :
    Agrees document name except? where
  lookup := lookup_ofDocument document name
  unknown := lookup_eq_none_iff
  block := document.block?_eq_bind_position? name
  origin := fun _ => mem_shares_iff
  position := fun _ => managedPosition_eq_ok_iff_readFrom
  notFound := managedPosition_eq_error_iff
  once := nodup_names document
  names := fun _ => mem_names_iff
  inOrder := pairwise_names document
  taken := taken_iff

end Registry

end SambaShares
