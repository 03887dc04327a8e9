import SambaShares.Proofs.Planning.Session
/-!
What a program that reads the file afterwards sees of a request. The section that was written gives
the share that was asked for, each of its settings once, and the other shares are as they were. Its
path is the one of the request without the white space around it, so the path that is exported is
the one that was looked for only where the two are the same or both exist.
-/

namespace SambaShares

namespace Document

variable {probe : Text → Bool} {document next : Document} {spec : ShareSpec}

/-- `next` has one section more, the last, which says what `spec` asks for. -/
structure Appends (document next : Document) (spec : ShareSpec) : Prop where
  written : ∃ block, next.blocks.getLast? = some block ∧ block.toSection.Holds spec
  shares : next.shares = document.shares ++ [spec.share]

/-- In the place of `block`, the first block named `old`, `next` has a section that says what `spec`
asks for. -/
structure Exchanges (document next : Document) (old : Text) (spec : ShareSpec)
    (before : List Block) (block : Block) (after : List Block) : Prop where
  split : document.Split old before block after
  written : ∃ renewed, next.blocks[before.length]? = some renewed ∧ renewed.toSection.Holds spec
  share : ∃ share, Share.ofBlock? block = some share ∧ document.shares =
    before.filterMap Share.ofBlock? ++ share :: after.filterMap Share.ofBlock?
  shares : next.shares =
    before.filterMap Share.ofBlock? ++ spec.share :: after.filterMap Share.ofBlock?

theorem appends_of_addShare (formed : document.WellFormed)
    (planned : document.addShare probe spec = .ok next) :
    document.Appends (parse next.render) spec := by
  obtain ⟨accepted, -, ⟨managed, -⟩, rfl⟩ := addShare_eq_ok_iff.1 planned
  have holds := accepted.holds_toBlock managed
  have read := sections_parse_render (formed.push accepted.wellFormed_toBlock)
  rw [sections_push] at read
  constructor
  · have last : (parse (document.push spec.toBlock).render).sections.getLast? =
        some spec.toBlock.toSection := by simp [read]
    rw [sections, List.getLast?_map, Option.map_eq_some_iff] at last
    obtain ⟨block, found, same⟩ := last
    exact ⟨block, found, same ▸ holds⟩
  · rw [shares_eq_filterMap, read, List.filterMap_append, ← shares_eq_filterMap]
    simp [holds.share]

theorem exchanges_of_updateShare {old : Text} (formed : document.WellFormed)
    (planned : document.updateShare probe old spec = .ok next) : ∃ before block after,
      document.Exchanges (parse next.render) old spec before block after := by
  obtain ⟨oldManaged, accepted, ⟨managed, -⟩, -, before, block, after, split, shape⟩ :=
    updateShare_eq_ok_iff.1 planned
  have holds := accepted.holds_renewBlock block managed
  have renewed := accepted.wellFormed_renewBlock (formed.blocks block split.mem)
  have read := sections_parse_render (formed.exchange split.blocks renewed)
  rw [← shape] at read
  refine ⟨before, block, after, split, ?_, ?_, ?_⟩
  · have here : (parse next.render).sections[before.length]? =
        some (spec.renewBlock block).toSection := by
      rw [read, shape]
      simp [sections]
    rw [sections, List.getElem?_map, Option.map_eq_some_iff] at here
    obtain ⟨renewed, found, same⟩ := here
    exact ⟨renewed, found, same ▸ holds⟩
  · have given := Share.ofBlock?_of_managed (split.named.symm ▸ oldManaged)
    refine ⟨_, given, ?_⟩
    rw [shares, split.blocks, List.filterMap_append, List.filterMap_cons_some given]
  · have given : Share.ofBlock? (spec.renewBlock block) = some spec.share :=
      (Section.share?_toSection _).symm.trans holds.share
    rw [shares_eq_of_sections_eq read, shape, shares, List.filterMap_append,
      List.filterMap_cons_some given]

theorem lookup_of_shares {before after : List Share} {share : Share}
    (shape : document.shares = before ++ share :: after)
    (first : ∀ other ∈ before, other.name ≠ share.name) :
    (Registry.ofDocument document).lookup share.name = some share := by
  have none : before.find? (·.name == share.name) = none := by
    rw [List.find?_eq_none]
    simpa using first
  rw [Registry.lookup_eq_find?_shares, shape, List.find?_append, none]
  simp

theorem lookup_of_addShare (formed : document.WellFormed)
    (planned : document.addShare probe spec = .ok next) :
    (Registry.ofDocument (parse next.render)).lookup spec.name = some spec.share := by
  obtain ⟨-, -, ⟨-, free⟩, -⟩ := addShare_eq_ok_iff.1 planned
  refine lookup_of_shares (appends_of_addShare formed planned).shares ?_
  intro other member
  exact Text.ne_of_sameName_eq_false
    (Registry.taken_ofDocument_eq_false_iff.1 free other member (by simp))

theorem lookup_of_updateShare {old : Text} (formed : document.WellFormed)
    (planned : document.updateShare probe old spec = .ok next) :
    (Registry.ofDocument (parse next.render)).lookup spec.name = some spec.share := by
  obtain ⟨-, -, ⟨-, free⟩, -⟩ := updateShare_eq_ok_iff.1 planned
  obtain ⟨before, block, after, exchanges⟩ := exchanges_of_updateShare formed planned
  obtain ⟨share, -, given⟩ := exchanges.share
  refine lookup_of_shares exchanges.shares ?_
  intro other member
  obtain ⟨source, inside, read⟩ := List.mem_filterMap.1 member
  have named := (Share.managed_of_ofBlock?_eq_some read).2
  have notOld : some other.name ≠ some old := by
    simpa [named] using exchanges.split.first source inside
  exact Text.ne_of_sameName_eq_false (Registry.taken_ofDocument_eq_false_iff.1 free other
    (by rw [given]; exact List.mem_append_left _ member) notOld)

/-- What is read after a share was added or updated: the section that was written gives the share
that was asked for, each of its settings as often as it is written, and takes its place among the
other shares, which are as they were. -/
theorem read_back_written (text : Text) (probe : Text → Bool) (spec : ShareSpec) :
    (∀ next, (parse text).addShare probe spec = .ok next →
      (parse text).Appends (parse next.render) spec) ∧
    ∀ old next, (parse text).updateShare probe old spec = .ok next → ∃ before block after,
      (parse text).Exchanges (parse next.render) old spec before block after :=
  have formed := (canonical_parse text).toWellFormed
  ⟨fun _ => appends_of_addShare formed, fun _ _ => exchanges_of_updateShare formed⟩

/-- Settings below a comment would count last; they are dropped when the share is written anew. -/
theorem read_back_written_below_comment :
    let text := "[m]\n# note\n path = /y\n valid users = bob\n\n[n]".toList
    let spec : ShareSpec :=
      ⟨"M".toList, "/srv = ".toList, false, " \"a \"b\"".toList, [" eve ".toList, "%S".toList]⟩
    let next : Document :=
      ⟨[], [.plain "M".toList (spec.settingLines ++ ["# note".toList, []]), .plain "n".toList []], false⟩
    (parse text).updateShare (fun _ => true) "m".toList spec = .ok next ∧ ∃ before block after,
      (parse text).Exchanges (parse next.render) "m".toList spec before block after := by
  intro text spec next
  have planned : (parse text).updateShare (fun _ => true) "m".toList spec = .ok next := by
    decide +kernel
  exact ⟨planned, (read_back_written text (fun _ => true) spec).2 _ _ planned⟩

/-- The share of this name, as a reader of the file sees it, has a path that exists. -/
def Exports (probe : Text → Bool) (document : Document) (name : Text) : Prop :=
  ∃ share, (Registry.ofDocument document).lookup name = some share ∧
    share.path ≠ [] ∧ probe share.path = true

theorem exports_iff {name : Text} {share : Share}
    (found : (Registry.ofDocument document).lookup name = some share) :
    document.Exports probe name ↔ share.path ≠ [] ∧ probe share.path = true := by
  simp [Exports, found]

/-- After a share was added or updated, its exported path is one that exists exactly when that holds
of the requested path without the white space around it; after its users were set it always is. -/
theorem exports_of_planned {text : Text} (session : Session (.parse text) document) :
    (∀ spec next, document.addShare probe spec = .ok next →
      ((parse next.render).Exports probe spec.name ↔
        spec.path.trim ≠ [] ∧ probe spec.path.trim = true)) ∧
    (∀ old spec next, document.updateShare probe old spec = .ok next →
      ((parse next.render).Exports probe spec.name ↔
        spec.path.trim ≠ [] ∧ probe spec.path.trim = true)) ∧
    ∀ name users next, document.setShareUsers probe name users = .ok next →
      (parse next.render).Exports probe name := by
  have formed := session.wellFormed (canonical_parse text).toWellFormed
  refine ⟨?_, ?_, ?_⟩
  · intro spec next planned
    exact exports_iff (lookup_of_addShare formed planned)
  · intro old spec next planned
    exact exports_iff (lookup_of_updateShare formed planned)
  · intro name users next planned
    obtain ⟨before, block, after, share, split, read, updated⟩ :=
      setShareUsers_eq_ok_iff.1 planned
    have checked := (updateShare_eq_ok_iff.1 updated).2.2.2.1
    have found := lookup_of_updateShare formed updated
    have named : share.name = name :=
      (Share.managed_of_ofBlock?_eq_some read).2.trans split.named
    have trimmed := Share.trim_path_of_ofBlock? read
    rw [← named]
    apply (exports_iff found).2
    change share.path.trim ≠ [] ∧ probe share.path.trim = true
    rw [trimmed]
    exact checked

/-- White space around the path does no harm where both paths exist. -/
theorem exports_of_planned_padded :
    let probe : Text → Bool := fun path => path.trim == "/srv/x".toList
    let spec : ShareSpec := { name := "a".toList, path := " /srv/x\t".toList }
    let next : Document := (parse []).push spec.toBlock
    Session (.parse []) (parse []) ∧ (parse []).addShare probe spec = .ok next ∧
      (parse next.render).Exports probe spec.name := by
  intro probe spec next
  have planned : (parse []).addShare probe spec = .ok next := by decide +kernel
  refine ⟨.start, planned, ?_⟩
  exact ((exports_of_planned .start).1 spec next planned).2 (by decide +kernel)

/-- A directory whose name ends in a space is found, but the path without the space is exported. -/
theorem not_exports_of_trailing_space :
    let probe : Text → Bool := fun path => path == "/srv/media ".toList
    let spec : ShareSpec := { name := "media".toList, path := "/srv/media ".toList }
    let next : Document := (parse []).push spec.toBlock
    (parse []).addShare probe spec = .ok next ∧ ¬(parse next.render).Exports probe spec.name := by
  intro probe spec next
  have planned : (parse []).addShare probe spec = .ok next := by decide +kernel
  refine ⟨planned, ?_⟩
  rw [exports_iff (lookup_of_addShare (canonical_parse []).toWellFormed planned)]
  decide +kernel

end Document

end SambaShares
