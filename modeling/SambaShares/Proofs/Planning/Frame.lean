import Mathlib.Data.List.Forall2
import SambaShares.Proofs.Planning.Outcome
/-!
What a request does not touch. Every block but the one that it is about keeps its header and its lines;
only the last one before the place of the change, or the preamble, may get lines after its own, and
none of these is a setting. So every other section says what it said before, and when a share is
removed no other share owns more lines than before.
-/

namespace SambaShares

namespace Block

/-- `next` is the same section as `block`, perhaps with more lines at its end. -/
structure Undisturbed (block next : Block) : Prop where
  header : next.header = block.header
  name : next.name = block.name
  lines : block.lines <+: next.lines
  directives : next.directives = block.directives
  share : Share.ofBlock? next = Share.ofBlock? block

theorem Undisturbed.of_silent (block : Block) {moved : List Text}
    (silent : ∀ line ∈ moved, line.directive? = none) :
    block.Undisturbed { block with lines := block.lines ++ moved } := by
  have nothing : moved.filterMap Text.directive? = [] := List.filterMap_eq_nil_iff.2 silent
  have same : ({ block with lines := block.lines ++ moved } : Block).directives = block.directives := by
    show (block.lines ++ moved).filterMap Text.directive? = block.lines.filterMap Text.directive?
    rw [List.filterMap_append, nothing, List.append_nil]
  refine ⟨rfl, rfl, List.prefix_append _ _, same, ?_⟩
  rw [Share.ofBlock?, Share.ofBlock?, same]
  rfl

theorem Undisturbed.refl (block : Block) : block.Undisturbed block :=
  ⟨rfl, rfl, List.prefix_rfl, rfl, rfl⟩

/-- Whatever settings are taken out of a trailer, what is left of it begins with a line that closes the
extent of a share. -/
theorem closesExtent_of_head?_filter_trailer {block : Block} {keep : Text → Bool}
    (settings : ∀ line : Text, line.directive? = none → keep line = true) {line : Text}
    (first : (block.trailer.filter keep).head? = some line) : line.closesExtent = true := by
  cases shape : block.trailer with
  | nil =>
    rw [shape] at first
    cases first
  | cons opening rest =>
    have closes : opening.closesExtent = true := by
      have stop := List.head?_dropWhile_not (!·.closesExtent) block.lines
      unfold trailer at shape
      simpa [shape] using stop
    have silent : opening.directive? = none := by
      rw [Text.closesExtent, Bool.and_eq_true, Option.isNone_iff_eq_none] at closes
      exact closes.2
    rw [shape, List.filter_cons, if_pos (settings opening silent)] at first
    cases first
    exact closes

theorem closesExtent_of_head?_keptOnDelete {block : Block} {line : Text}
    (first : block.keptOnDelete.head? = some line) : line.closesExtent = true :=
  closesExtent_of_head?_filter_trailer (fun _ silent => by simp [silent]) first

theorem closesExtent_of_head?_keptOnUpdate {block : Block} {line : Text}
    (first : block.keptOnUpdate.head? = some line) : line.closesExtent = true :=
  closesExtent_of_head?_filter_trailer (fun _ silent => by simp [Text.isManaged, silent]) first

/-- Lines after those of a block belong to its share only if the first of them does. -/
theorem owned_append (block : Block) {moved : List Text}
    (closed : ∀ line, moved.head? = some line → line.closesExtent = true) :
    owned { block with lines := block.lines ++ moved } = block.owned := by
  have none : moved.takeWhile (!·.closesExtent) = [] := by
    cases moved with
    | nil => rfl
    | cons line rest => simp [closed line rfl]
  unfold owned
  rw [List.takeWhile_append, none]
  split
  · next whole =>
    rw [List.append_nil, (List.takeWhile_prefix _).eq_of_length whole]
  · rfl

end Block

namespace Document

/-- Lines put after those of the last block, or after the preamble if there is no block. -/
inductive Lengthened (moved : List Text) :
    List Text → List Block → List Text → List Block → Prop
  | preamble (lines : List Text) : Lengthened moved lines [] (lines ++ moved) []
  | last (lines : List Text) (front : List Block) (block : Block) :
    Lengthened moved lines (front ++ [block]) lines
      (front ++ [{ block with lines := block.lines ++ moved }])

theorem lengthened_extend (document : Document) (moved : List Text) :
    Lengthened moved document.preamble document.blocks (document.extend moved).preamble
      (document.extend moved).blocks := by
  rcases cases_last document with ⟨preamble, ends, rfl⟩ | ⟨preamble, front, last, ends, rfl⟩
  · exact .preamble preamble
  · rw [extend_concat]
    exact .last preamble front last

variable {moved preamble later : List Text} {blocks kept : List Block}

/-- What holds of each block with the same lines, and of one with the moved lines after its own, holds
of all of them. -/
theorem Lengthened.forall₂ {holds : Block → Block → Prop}
    (lengthened : Lengthened moved preamble blocks later kept) (same : ∀ block, holds block block)
    (extended : ∀ block : Block, holds block { block with lines := block.lines ++ moved }) :
    List.Forall₂ holds blocks kept := by
  cases lengthened with
  | preamble => exact .nil
  | last front block =>
    refine List.rel_append (List.forall₂_same.2 fun block _ => same block) ?_
    exact .cons (extended block) .nil

theorem Lengthened.undisturbed (lengthened : Lengthened moved preamble blocks later kept)
    (silent : ∀ line ∈ moved, line.directive? = none) :
    List.Forall₂ Block.Undisturbed blocks kept :=
  lengthened.forall₂ Block.Undisturbed.refl fun block => .of_silent block silent

end Document

/-- What a request that makes `next` of `document` leaves as it is. -/
def Request.Frame (document next : Document) : Request → Prop
  /- Before the new block, the last one may get an empty line. -/
  | .add spec => ∃ moved kept, (moved = [] ∨ moved = [[]]) ∧
    next.blocks = kept ++ [spec.toBlock] ∧
      Document.Lengthened moved document.preamble document.blocks next.preamble kept ∧
        List.Forall₂ Block.Undisturbed document.blocks kept
  | .update old _ => ∃ before block renewed after, document.Split old before block after ∧
    next.preamble = document.preamble ∧ next.blocks = before ++ renewed :: after
  | .setUsers name _ => ∃ before block renewed after, document.Split name before block after ∧
    next.preamble = document.preamble ∧ next.blocks = before ++ renewed :: after
  /- The lines of its trailer that are no settings go to the end of the block before it. -/
  | .delete name => ∃ before block kept after, document.Split name before block after ∧
    next.blocks = kept ++ after ∧
      Document.Lengthened (block.trailer.filter (·.directive?.isNone)) document.preamble before
        next.preamble kept ∧
      List.Forall₂ Block.Undisturbed before kept ∧
        List.Forall₂ (fun old new => new.owned = old.owned) before kept

namespace Document

theorem frame_of_push (document : Document) (spec : ShareSpec) :
    (Request.add spec).Frame document (document.push spec.toBlock) := by
  have lengthened := lengthened_extend document document.separator
  refine ⟨document.separator, _, separator_cases document, rfl, lengthened, ?_⟩
  exact lengthened.undisturbed fun _ => directive?_of_mem_separator

theorem frame_of_without {document : Document} {name : Text} {before after : List Block}
    {block : Block} (split : document.Split name before block after) :
    (Request.delete name).Frame document (document.without before block after) := by
  have lengthened := lengthened_extend ⟨document.preamble, before, document.endsInNewline⟩
    block.keptOnDelete
  refine ⟨before, block, _, after, split, rfl, lengthened, ?_, ?_⟩
  · exact lengthened.undisturbed fun _ => directive?_of_mem_keptOnDelete
  · exact lengthened.forall₂ (fun _ => rfl) fun other =>
      other.owned_append fun _ => Block.closesExtent_of_head?_keptOnDelete

theorem frame_of_updateShare {probe : Text → Bool} {document next : Document} {old : Text}
    {spec : ShareSpec} (planned : document.updateShare probe old spec = .ok next) :
    (Request.update old spec).Frame document next := by
  obtain ⟨-, -, -, -, before, block, after, split, rfl⟩ := updateShare_eq_ok_iff.1 planned
  exact ⟨before, block, spec.renewBlock block, after, split, rfl, rfl⟩

end Document

/-- Whatever the document, a request that succeeds leaves all other blocks as they are, but for lines
at the end of the block before the place of the change. -/
theorem Request.frame_of_plan {probe : Text → Bool} {document next : Document} {request : Request}
    (planned : request.plan probe document = .ok next) : request.Frame document next := by
  cases request with
  | add spec =>
    obtain ⟨-, -, -, rfl⟩ := Document.addShare_eq_ok_iff.1 planned
    exact document.frame_of_push spec
  | update old spec => exact Document.frame_of_updateShare planned
  | delete name =>
    obtain ⟨-, before, block, after, split, rfl⟩ := Document.deleteShare_eq_ok_iff.1 planned
    exact Document.frame_of_without split
  | setUsers name users =>
    obtain ⟨-, -, -, share, -, -, updated⟩ := Document.setShareUsers_eq_ok_iff.1 planned
    exact Document.frame_of_updateShare updated

/-- The note below a removed share goes to the section before it, the setting below the note does
not: it would have changed what that section says. -/
theorem Request.frame_of_plan_note :
    let document : Document := .parse "[global]\n x = 1\n[a]\n path = /a\n# note\nx = 2\n\n[b]".toList
    let next : Document := .parse "[global]\n x = 1\n# note\n\n[b]".toList
    (Request.delete "a".toList).plan (fun _ => true) document = .ok next ∧
      (Request.delete "a".toList).Frame document next := by
  intro document next
  have planned : (Request.delete "a".toList).plan (fun _ => true) document = .ok next := by
    decide +kernel
  exact ⟨planned, frame_of_plan planned⟩

end SambaShares
