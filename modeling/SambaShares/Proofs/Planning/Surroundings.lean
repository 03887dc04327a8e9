import SambaShares.Proofs.Document.Slices
import SambaShares.Proofs.Planning.Frame
/-!
What an update and a removal leave of the text of a file. The text before the header line of the
share and the text from the next header line on stay as they are, byte for byte; in between stand
the new lines of the share, or the kept ones of its trailer. A share that is written anew owns
exactly its new lines and the blank lines that closed it before, so the next update finds the same
place.
-/

namespace SambaShares

namespace Block

/-- Where the part that a share owns ends. -/
theorem owned_trailer_of_lines {block : Block} {front moved : List Text}
    (shape : block.lines = front ++ moved) (inside : ∀ line ∈ front, line.closesExtent = false)
    (closed : ∀ line, moved.head? = some line → line.closesExtent = true) :
    block.owned = front ∧ block.trailer = moved := by
  have passes : ∀ line ∈ front, (!line.closesExtent) = true := by
    intro line member
    rw [inside line member]
    rfl
  rw [owned, trailer, shape, List.takeWhile_append_of_pos passes, List.dropWhile_append_of_pos passes]
  cases moved with
  | nil => simp
  | cons line rest => simp [closed line rfl]

end Block

theorem Text.closesExtent_of_indented {line : Text} (indented : line.head? = some ' ') :
    line.closesExtent = false := by
  simp [closesExtent, indented]

namespace Block

/-- What can be kept of a trailer when a share is written anew: a trailer that gives no setting of a
share. -/
structure IsKept (kept : List Text) : Prop where
  closed : ∀ line, kept.head? = some line → line.closesExtent = true
  unmanaged : ∀ line ∈ kept, line.isManaged = false

theorem isKept_keptOnUpdate (block : Block) : IsKept block.keptOnUpdate := by
  refine ⟨fun _ => closesExtent_of_head?_keptOnUpdate, fun line member => ?_⟩
  simpa using (List.mem_filter.1 member).2

end Block

namespace ShareSpec

/-- The block of a share with blank lines and a trailer after its settings. -/
def blockWith (spec : ShareSpec) (count : Nat) (kept : List Text) : Block :=
  .plain spec.name (spec.settingLines ++ List.replicate count [] ++ kept)

theorem renewBlock_eq (spec : ShareSpec) (old : Block) :
    spec.renewBlock old = spec.blockWith old.blankTail old.keptOnUpdate := rfl

variable {count : Nat} {kept : List Text}

/-- The blank lines close what the share owns, and the trailer starts after them. -/
theorem owned_trailer_blockWith (spec : ShareSpec) (count : Nat) (isKept : Block.IsKept kept) :
    (spec.blockWith count kept).owned = spec.settingLines ++ List.replicate count [] ∧
      (spec.blockWith count kept).trailer = kept := by
  refine Block.owned_trailer_of_lines rfl ?_ isKept.closed
  intro line member
  rcases List.mem_append.1 member with new | blank
  · exact Text.closesExtent_of_indented (head?_of_mem_settingLines new)
  · rw [(List.mem_replicate.1 blank).2]
    rfl

theorem blankTail_blockWith (spec : ShareSpec) (count : Nat) (isKept : Block.IsKept kept) :
    (spec.blockWith count kept).blankTail = count := by
  have visible : spec.settingLines.reverse.takeWhile (·.isBlankText) = [] := by
    rw [List.takeWhile_eq_nil_iff]
    intro some
    have member := List.mem_reverse.1 (List.getElem_mem some)
    rw [List.get_eq_getElem, isBlankText_of_mem_settingLines member]
    exact Bool.false_ne_true
  have blank : ∀ line ∈ List.replicate count [], Text.isBlankText line = true := by
    intro line member
    rw [(List.mem_replicate.1 member).2]
    rfl
  rw [Block.blankTail, (spec.owned_trailer_blockWith count isKept).1, List.reverse_append,
    List.reverse_replicate, List.takeWhile_append_of_pos blank, visible, List.append_nil,
    List.length_replicate]

/-- Writing a share anew exchanges its settings and leaves what is after them. -/
theorem renewBlock_blockWith (spec other : ShareSpec) (count : Nat) (isKept : Block.IsKept kept) :
    spec.renewBlock (other.blockWith count kept) = spec.blockWith count kept := by
  have all : kept.filter (!·.isManaged) = kept := by
    rw [List.filter_eq_self]
    intro line member
    rw [isKept.unmanaged line member]
    rfl
  rw [renewBlock_eq, other.blankTail_blockWith count isKept, Block.keptOnUpdate,
    (other.owned_trailer_blockWith count isKept).2, all]

/-- Of a share that is written anew several times, only the last request is seen. -/
theorem renewBlock_renewBlock (spec other : ShareSpec) (old : Block) :
    spec.renewBlock (other.renewBlock old) = spec.renewBlock old :=
  spec.renewBlock_blockWith other old.blankTail old.isKept_keptOnUpdate

end ShareSpec

namespace Document

/-- A text cut at its first section of a name: what stands before the header line, the lines of that
section, and what stands from the next header line on. -/
structure Cut (text name : Text) (before : List Block) (block : Block) (after : List Block) :
    Prop where
  split : (parse text).Split name before block after
  whole : text = (parse text).textBefore before ++ (parse text).textOf block.allLines after ++
    (parse text).textFrom after

theorem Split.cut {text name : Text} {before after : List Block} {block : Block}
    (split : (parse text).Split name before block after) : Cut text name before block after := by
  refine ⟨split, ?_⟩
  rw [← render_around rfl split.blocks rfl, render_parse]

/-- What an update makes of a text: the lines of `block` are exchanged for those of `renewed`. -/
structure Rewrites (text : Text) (next : Document) (old : Text) (spec : ShareSpec)
    (before : List Block) (block renewed : Block) (after : List Block) : Prop
    extends Cut text old before block after where
  rendered : next.render = (parse text).textBefore before ++
    (parse text).textOf renewed.allLines after ++ (parse text).textFrom after
  endsInNewline : next.endsInNewline = (parse text).endsInNewline
  blocks : next.blocks = before ++ renewed :: after
  name : renewed.name = spec.name
  lines : renewed.allLines = ['[' :: spec.name ++ [']']] ++ spec.settingLines ++
    List.replicate block.blankTail [] ++ block.trailer.filter (!·.isManaged)
  owned : renewed.owned = spec.settingLines ++ List.replicate block.blankTail []
  blankTail : renewed.blankTail = block.blankTail
  trailer : renewed.trailer = block.trailer.filter (!·.isManaged)

/-- A successful update exchanges the lines of one block and no other byte of the file. -/
theorem rewrites_of_updateShare {text old : Text} {probe : Text → Bool} {spec : ShareSpec}
    {next : Document} (planned : (parse text).updateShare probe old spec = .ok next) :
    ∃ before block renewed after, Rewrites text next old spec before block renewed after := by
  obtain ⟨-, -, -, -, before, block, after, split, rfl⟩ := updateShare_eq_ok_iff.1 planned
  have isKept := block.isKept_keptOnUpdate
  have parts := spec.owned_trailer_blockWith block.blankTail isKept
  refine ⟨before, block, spec.renewBlock block, after, ?_⟩
  exact {
    toCut := split.cut
    rendered := render_around rfl rfl rfl
    endsInNewline := rfl
    blocks := rfl
    name := rfl
    lines := by simp [Block.allLines, ShareSpec.renewBlock, Block.plain, Block.plainHeader,
      Block.keptOnUpdate]
    owned := parts.1
    blankTail := spec.blankTail_blockWith block.blankTail isKept
    trailer := parts.2
  }

/-- Two blank lines closed the older settings and close the newer ones; of what is below the note only
the path goes. -/
theorem rewrites_of_updateShare_note :
    let text := "# top\n[m]\n path = /a\n\n\t\n# note\npath = /b\nkey = 1\n\n [n]".toList
    let spec : ShareSpec := { name := "M".toList, path := "/c".toList }
    let kept := ["# note".toList, "key = 1".toList, []]
    let next : Document := ⟨["# top".toList],
      [.plain "M".toList (spec.settingLines ++ [[], []] ++ kept),
        ⟨"n".toList, " [n]".toList, []⟩], false⟩
    (parse text).updateShare (fun _ => true) "m".toList spec = .ok next ∧
      ∃ before block renewed after, Rewrites text next "m".toList spec before block renewed after := by
  intro text spec kept next
  have planned : (parse text).updateShare (fun _ => true) "m".toList spec = .ok next := by
    decide +kernel
  exact ⟨planned, rewrites_of_updateShare planned⟩

/-- What a removal makes of a text: the lines of `block` make room for those of its trailer that are
no settings. If there is nothing in between or after it, and the last line of the file was not ended,
the line before the header is not ended either. -/
structure Excises (text : Text) (next : Document) (name : Text)
    (before : List Block) (block : Block) (after : List Block) : Prop
    extends Cut text name before block after where
  rendered : next.render =
    let kept := block.trailer.filter (·.directive?.isNone)
    if after = [] ∧ kept = [] ∧ (parse text).endsInNewline = false then
      ((parse text).textBefore before).dropLast
    else (parse text).textBefore before ++ (parse text).textOf kept after ++
      (parse text).textFrom after

/-- A successful removal keeps every byte around the removed lines, but for the last line feed. -/
theorem excises_of_deleteShare {text name : Text} {next : Document}
    (planned : (parse text).deleteShare name = .ok next) :
    ∃ before block after, Excises text next name before block after := by
  obtain ⟨-, before, block, after, split, rfl⟩ := deleteShare_eq_ok_iff.1 planned
  exact ⟨before, block, after, split.cut, render_without _ _ _ _⟩

/-- The note stays where it was, between the blank line before the header and the next header. -/
theorem excises_of_deleteShare_note :
    let text := "[a]\n\n[m]\n path = /a\n\n# note\npath = /b\n[n]".toList
    let next : Document := .parse "[a]\n\n# note\n[n]".toList
    (parse text).deleteShare "m".toList = .ok next ∧
      ∃ before block after, Excises text next "m".toList before block after := by
  intro text next
  have planned : (parse text).deleteShare "m".toList = .ok next := by decide +kernel
  exact ⟨planned, excises_of_deleteShare planned⟩

/-- With the last section of a file whose last line is not ended, the line feed before it goes. -/
theorem deleteShare_drops_line_feed :
    let text := "[a]\n[b]".toList
    let before : List Block := [.plain "a".toList []]
    let next : Document := .parse "[a]".toList
    (parse text).Split "b".toList before (.plain "b".toList []) [] ∧
      (parse text).textBefore before = "[a]\n".toList ∧
      (parse text).deleteShare "b".toList = .ok next ∧
      ¬(parse text).textBefore before <+: next.render := by
  refine ⟨⟨by decide +kernel, rfl, by decide⟩, ?_⟩
  decide +kernel

end Document

end SambaShares
