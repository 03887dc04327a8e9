import SambaShares.Proofs.Planning.Namesakes
import SambaShares.Proofs.Planning.Surroundings
/-!
Updates of the same share one after the other. The first of them leaves the share in its place and
under a name that no section before it has, and the check for a free name passes over the share
either way; so a later update finds the same lines to keep, and only the last request is seen.
-/

namespace SambaShares

namespace Document

/-- Of the sections, only the excepted one can have a name that is free. -/
theorem name_ne_of_free {document : Document} {name : Text} {except? : Option Text}
    (managed : isReserved name = false)
    (free : (Registry.ofDocument document).taken name except? = false) {block : Block}
    (member : block ∈ document.blocks) (apart : some block.name ≠ except?) : block.name ≠ name := by
  intro same
  have inside : name ∈ document.managedNames := mem_managedNames.2 ⟨managed, block, member, same⟩
  exact Text.ne_of_sameName_eq_false (taken_eq_false_iff.1 free name inside (same ▸ apart)) rfl

variable {document : Document} {old name : Text} {before after : List Block} {block renewed : Block}

/-- A section that takes the place of another, under a name that is free, is the first of its name. -/
theorem Split.exchange (split : document.Split old before block after)
    (managed : isReserved name = false)
    (free : (Registry.ofDocument document).taken name (some old) = false)
    (named : renewed.name = name) :
    Split ⟨document.preamble, before ++ renewed :: after, document.endsInNewline⟩ name before renewed
      after where
  blocks := rfl
  named := named
  first := by
    intro other member
    have inside : other ∈ document.blocks := by simp [split.blocks, member]
    exact name_ne_of_free managed free inside (by simpa using split.first other member)

/-- The names other than that of the exchanged section are still there. -/
theorem Split.mem_managedNames_exchange (split : document.Split old before block after) {other : Text}
    (member : other ∈ document.managedNames) (apart : other ≠ old) (renewed : Block) :
    other ∈ managedNames
      ⟨document.preamble, before ++ renewed :: after, document.endsInNewline⟩ := by
  obtain ⟨managed, source, inside, rfl⟩ := mem_managedNames.1 member
  refine mem_managedNames.2 ⟨managed, source, ?_, rfl⟩
  rw [split.blocks, List.mem_append, List.mem_cons] at inside
  rcases inside with front | rfl | back
  · exact List.mem_append_left _ front
  · exact absurd split.named apart
  · exact List.mem_append_right _ (List.mem_cons_of_mem _ back)

/-- A name that is free for a share that was renamed is free for the share as it was: each share that
is in the way of the latter is in the way of the former. -/
theorem Split.free_of_free_exchange (split : document.Split old before block after)
    (free : (Registry.ofDocument document).taken name (some old) = false) {last : Text}
    (later : (Registry.ofDocument ⟨document.preamble, before ++ renewed :: after,
      document.endsInNewline⟩).taken last (some name) = false) :
    (Registry.ofDocument document).taken last (some old) = false := by
  rw [taken_eq_false_iff] at free later ⊢
  intro other member apart
  have kept := split.mem_managedNames_exchange member (by simpa using apart) renewed
  have different := Text.ne_of_sameName_eq_false (free other member apart)
  exact later other kept fun same => different (Option.some.inj same).symm

/-- Two updates of a share, the second one under the name that it has after the first, make of a
document what the second one alone makes of it, which succeeds if both do. -/
theorem updateShare_of_two {probe : Text → Bool} {document first second : Document} {old : Text}
    {spec last : ShareSpec} (former : document.updateShare probe old spec = .ok first)
    (latter : first.updateShare probe spec.name last = .ok second) :
    document.updateShare probe old last = .ok second := by
  obtain ⟨oldManaged, -, ⟨managed, free⟩, -, before, block, after, split, rfl⟩ :=
    updateShare_eq_ok_iff.1 former
  obtain ⟨-, accepted, ⟨lastManaged, later⟩, path, front, here, back, found, rfl⟩ :=
    updateShare_eq_ok_iff.1 latter
  obtain ⟨rfl, rfl, rfl⟩ := (split.exchange managed free rfl).unique found
  rw [ShareSpec.renewBlock_renewBlock]
  exact updateShare_eq_ok_iff.2 ⟨oldManaged, accepted,
    ⟨lastManaged, split.free_of_free_exchange free later⟩, path, before, block, after, split, rfl⟩

/-- The first of two sections is renamed to a variant of its name, and then again. The note stays, with
one setting below it, and nothing is left of the first request. -/
theorem updateShare_of_two_repeated :
    let document : Document :=
      .parse "[a]\n path = /a\n\n\t\n# note\npath = /n\nkey = 1\n[b]\n[a]\n path = /c".toList
    let spec : ShareSpec := { name := "A".toList, path := "/x".toList, validUsers := ["eve".toList] }
    let last : ShareSpec := { name := "c".toList, path := "/y".toList, writable := false }
    let kept := [[], [], "# note".toList, "key = 1".toList]
    let rest : List Block := [.plain "b".toList [], .plain "a".toList [" path = /c".toList]]
    let first : Document := ⟨[], .plain "A".toList (spec.settingLines ++ kept) :: rest, false⟩
    let second : Document := ⟨[], .plain "c".toList (last.settingLines ++ kept) :: rest, false⟩
    document.updateShare (fun _ => true) "a".toList spec = .ok first ∧
      first.updateShare (fun _ => true) spec.name last = .ok second ∧
      document.updateShare (fun _ => true) "a".toList last = .ok second := by
  intro document spec last kept rest first second
  have former : document.updateShare (fun _ => true) "a".toList spec = .ok first := by
    decide +kernel
  have latter : first.updateShare (fun _ => true) spec.name last = .ok second := by
    decide +kernel
  exact ⟨former, latter, updateShare_of_two former latter⟩

end Document

end SambaShares
