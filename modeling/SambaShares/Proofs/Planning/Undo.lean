import SambaShares.Proofs.Planning.Stability
/-!
A share that is added and removed again. What stands in the file stays, byte for byte, and in front of
the new section there is one empty line, unless the text is empty or ends in a blank line already. The
removal leaves this empty line, so adding and removing the share once more adds none.
-/

namespace SambaShares

namespace Text

/-- The text without a line feed at its end. -/
def withoutNewline (text : Text) : Text :=
  if text.getLast? = some '\n' then text.dropLast else text

/-- The characters after the last line feed, but for one that ends the text. There are none in a text
without lines. -/
def lastLine (text : Text) : Text := text.withoutNewline.rtakeWhile (· != '\n')

/-- Whether the last line of a text is there and is not ended. -/
def isOpen (text : Text) : Bool := text != [] && text.getLast? != some '\n'

/-- What is put between a text and a new section: the line feed that its last line may lack, and another
one after a last line that is not blank. -/
def gap (text : Text) : Text :=
  (if text.isOpen then ['\n'] else []) ++ if text.lastLine.isBlankText then [] else ['\n']

theorem withoutNewline_of_isOpen {text : Text} (opened : text.isOpen = true) :
    text.withoutNewline = text := by
  simp only [isOpen, Bool.and_eq_true, bne_iff_ne, ne_eq] at opened
  rw [withoutNewline, if_neg opened.2]

theorem withoutNewline_append_newline {text : Text} (some : text ≠ []) :
    text.withoutNewline ++ ['\n'] = text ++ if text.isOpen then ['\n'] else [] := by
  by_cases opened : text.isOpen = true
  · rw [withoutNewline_of_isOpen opened, if_pos opened]
  · have ended : text.getLast? = .some '\n' := by simpa [isOpen, some] using opened
    rw [if_neg opened, List.append_nil, withoutNewline, if_pos ended,
      List.dropLast_append_getLast? '\n' ended]

@[simp] theorem withoutNewline_concat_newline (text : Text) :
    (text ++ ['\n']).withoutNewline = text := by
  simp [withoutNewline]

@[simp] theorem isOpen_concat_newline (text : Text) : (text ++ ['\n']).isOpen = false := by
  simp [isOpen]

theorem rtakeWhile_append_cons {keep : Char → Bool} {c : Char} {last : Text} (front : Text)
    (stops : keep c = false) (all : ∀ d ∈ last, keep d = true) :
    (front ++ c :: last).rtakeWhile keep = last := by
  have reversed : (front ++ c :: last).reverse = last.reverse ++ c :: front.reverse := by simp
  have passes : ∀ d ∈ last.reverse, keep d = true := by simpa using all
  rw [List.rtakeWhile, reversed, List.takeWhile_append_of_pos passes,
    List.takeWhile_cons_of_neg (by simp [stops])]
  simp

theorem getLast?_lines (text : Text) :
    (lines text).getLast? = some (text.rtakeWhile (· != '\n')) := by
  have some : lines text ≠ [] := lines_ne_nil text
  obtain ⟨front, last, shape⟩ := (List.eq_nil_or_concat (lines text)).resolve_left some
  rw [List.concat_eq_append] at shape
  have single : ∀ c ∈ last, (c != '\n') = true := by
    have clean := not_newline_of_mem_lines (show last ∈ lines text by simp [shape])
    intro c inside
    simpa using fun same : c = '\n' => clean (same ▸ inside)
  have whole := ofLines_lines text
  rw [shape] at whole
  rw [shape, List.getLast?_concat, ← whole]
  by_cases none : front = []
  · rw [none, List.nil_append, ofLines, List.intercalate_singleton,
      List.rtakeWhile_eq_self_iff.2 single]
  · rw [ofLines_concat none, rtakeWhile_append_cons _ (by decide) single]

/-- Another gap is not needed. -/
theorem gap_append_gap (text : Text) : (text ++ text.gap).gap = [] := by
  by_cases blank : text.lastLine.isBlankText = true
  · by_cases opened : text.isOpen = true
    · have last : (text ++ ['\n']).lastLine = text.lastLine := by
        rw [lastLine, lastLine, withoutNewline_concat_newline, withoutNewline_of_isOpen opened]
      simp [gap, blank, opened, last]
    · simp [gap, blank, opened]
  · have some : text ≠ [] := by
      rintro rfl
      exact blank rfl
    have ended := withoutNewline_append_newline some
    have shape : text ++ text.gap = text.withoutNewline ++ ['\n'] ++ ['\n'] := by
      rw [gap, if_neg blank, ← List.append_assoc, ended]
    have last : (text.withoutNewline ++ ['\n'] ++ ['\n']).lastLine = [] := by
      rw [lastLine, withoutNewline_concat_newline]
      exact List.rtakeWhile_concat_neg _ _ _ (by decide)
    rw [shape, gap, last, isOpen_concat_newline]
    rfl

end Text

theorem ShareSpec.keptOnDelete_toBlock (spec : ShareSpec) : spec.toBlock.keptOnDelete = [] := by
  have plain : spec.toBlock = spec.blockWith 0 [] := by simp [toBlock, blockWith]
  rw [plain, Block.keptOnDelete, (spec.owned_trailer_blockWith 0 ⟨by simp, by simp⟩).2,
    List.filter_nil]

namespace Document

theorem allLines_parse {text : Text} (some : text ≠ []) :
    (parse text).allLines = Text.lines text.withoutNewline := by
  by_cases ended : text.getLast? = .some '\n'
  · simp [parse, Text.withoutNewline, some, ended]
  · simp [parse, Text.withoutNewline, some, ended]

theorem ended_allLines_parse (text : Text) :
    Text.ended (parse text).allLines = text ++ if text.isOpen then ['\n'] else [] := by
  by_cases none : text = []
  · subst none
    rfl
  · have some : Text.lines text.withoutNewline ≠ [] := Text.lines_ne_nil _
    rw [allLines_parse none, Text.ended_eq_ofLines_concat some, Text.ofLines_lines,
      Text.withoutNewline_append_newline none]

theorem ended_separator_parse (text : Text) :
    Text.ended (parse text).separator =
      if text.lastLine.isBlankText then [] else ['\n'] := by
  by_cases none : text = []
  · subst none
    rfl
  · have last : (parse text).lastLine? = some text.lastLine := by
      rw [lastLine?, allLines_parse none]
      exact Text.getLast?_lines text.withoutNewline
    rw [separator, last]
    by_cases blank : text.lastLine.isBlankText = true
    · simp [blank]
    · simp [blank, Text.ended]

theorem ended_parse_separator (text : Text) :
    Text.ended ((parse text).allLines ++ (parse text).separator) = text ++ text.gap := by
  rw [Text.ended_append, ended_allLines_parse, ended_separator_parse, Text.gap, List.append_assoc]

/-- The document with a line feed at its end and a separator after its last line. -/
def spaced (document : Document) : Document :=
  { document.extend document.separator with endsInNewline := true }

theorem render_spaced (document : Document) :
    document.spaced.render = Text.ended (document.allLines ++ document.separator) := by
  rw [render_eq_written, ← allLines_extend]
  rfl

theorem render_push (document : Document) (block : Block) :
    (document.push block).render = document.spaced.render ++ Text.ended block.allLines := by
  rw [render_spaced, ← allLines_extend, ← Text.ended_append, render_eq_written]
  simp [push_eq, allLines]

theorem WellFormed.spaced {document : Document} (formed : document.WellFormed) :
    document.spaced.WellFormed :=
  ⟨formed.extend_separator.preamble, formed.extend_separator.blocks⟩

theorem ofDocument_spaced (document : Document) :
    Registry.ofDocument document.spaced = Registry.ofDocument document := by
  have same : document.spaced.sections = document.sections :=
    sections_extend document fun _ => directive?_of_mem_separator
  exact congrArg (fun shares => Registry.mk (Registry.firstOfEachName shares))
    (shares_eq_of_sections_eq same)

variable {probe : Text → Bool} {document next : Document} {spec : ShareSpec}

/-- A share that was added is removed with all its lines, and only the separator is left. -/
theorem deleteShare_push (managed : isReserved spec.name = false)
    (free : (Registry.ofDocument document).taken spec.name none = false) :
    (document.push spec.toBlock).deleteShare spec.name = .ok document.spaced := by
  have split : (document.push spec.toBlock).Split spec.name document.spaced.blocks spec.toBlock [] := by
    refine ⟨rfl, rfl, fun other member => ?_⟩
    obtain ⟨source, inside, same⟩ := name_of_mem_extend member
    rw [← same]
    exact name_ne_of_free managed free inside (by simp)
  refine deleteShare_eq_ok_iff.2 ⟨managed, _, _, _, split, ?_⟩
  have nothing : extend ⟨(document.push spec.toBlock).preamble, document.spaced.blocks, true⟩
      spec.toBlock.keptOnDelete = document.spaced := by
    rw [spec.keptOnDelete_toBlock, extend_nil]
    rfl
  rw [without, show (document.push spec.toBlock).endsInNewline = true from rfl, nothing,
    List.append_nil]
  rfl

theorem parse_render_push {block : Block} (formed : document.WellFormed) (new : block.WellFormed) :
    parse (document.push block).render = document.push block :=
  parse_render_of_newline (formed.push new) rfl (by simp [push_eq, allLines, Block.allLines])

/-- A share is added to a file, the file is read again, and the share is removed: the text of the file
before and after. -/
def addRemoveText (probe : Text → Bool) (spec : ShareSpec) (text : Text) :
    Except ShareError Text := do
  let next ← (parse text).addShare probe spec
  let rest ← (parse next.render).deleteShare spec.name
  return rest.render

theorem addRemoveText_of_addShare {text : Text}
    (planned : (parse text).addShare probe spec = .ok next) :
    addRemoveText probe spec text = .ok (text ++ text.gap) := by
  obtain ⟨accepted, -, ⟨managed, free⟩, rfl⟩ := addShare_eq_ok_iff.1 planned
  have read := parse_render_push (canonical_parse text).toWellFormed accepted.wellFormed_toBlock
  have removed := deleteShare_push managed free
  rw [addRemoveText, planned, ← ended_parse_separator, ← render_spaced]
  change ((parse _).deleteShare spec.name >>= fun rest => pure rest.render) = _
  rw [read, removed]
  rfl

/-- A share that can be added to a document can be added again after it was added and removed. -/
theorem exists_addShare_spaced (formed : document.WellFormed)
    (planned : document.addShare probe spec = .ok next) :
    ∃ again, (parse document.spaced.render).addShare probe spec = .ok again := by
  obtain ⟨accepted, path, ⟨managed, free⟩, -⟩ := addShare_eq_ok_iff.1 planned
  rw [← ofDocument_spaced, ← Registry.ofDocument_parse_render formed.spaced] at free
  exact ⟨_, addShare_eq_ok_iff.2 ⟨accepted, path, ⟨managed, free⟩, rfl⟩⟩

/-- A new share is written behind the text as it stands and a gap. Its removal leaves the text and the
gap, and to add and remove it again leaves them too, so no blank lines pile up. -/
theorem addShare_undone {text : Text} (planned : (parse text).addShare probe spec = .ok next) :
    next.render =
        text ++ text.gap ++ Text.ended (Block.plainHeader spec.name :: spec.settingLines) ∧
      parse next.render = next ∧
      (∃ rest, next.deleteShare spec.name = .ok rest ∧ rest.render = text ++ text.gap) ∧
      addRemoveText probe spec (text ++ text.gap) = .ok (text ++ text.gap) ∧
      ∀ count, Text.repeatedly (addRemoveText probe spec) (count + 1) text =
        .ok (text ++ text.gap) := by
  have formed := (canonical_parse text).toWellFormed
  have spacedText : (parse text).spaced.render = text ++ text.gap := by
    rw [render_spaced, ended_parse_separator]
  have settled : addRemoveText probe spec (text ++ text.gap) = .ok (text ++ text.gap) := by
    obtain ⟨again, replanned⟩ := exists_addShare_spaced formed planned
    rw [spacedText] at replanned
    rw [addRemoveText_of_addShare replanned, Text.gap_append_gap, List.append_nil]
  have repeated := Text.repeatedly_succ_of_settled (addRemoveText_of_addShare planned) settled
  obtain ⟨accepted, -, ⟨managed, free⟩, rfl⟩ := addShare_eq_ok_iff.1 planned
  refine ⟨?_, parse_render_push formed accepted.wellFormed_toBlock,
    ⟨_, deleteShare_push managed free, spacedText⟩, settled, repeated⟩
  rw [render_push, spacedText]
  rfl

/-- A text without a line feed at its end gets one, and an empty line before the new share. -/
theorem addShare_undone_open :
    let text : Text := "# top\n[m]\npath = /x".toList
    let spec : ShareSpec := { name := "new".toList, path := "/srv".toList }
    let next := (parse text).push spec.toBlock
    (parse text).addShare (fun _ => true) spec = .ok next ∧ text.gap = "\n\n".toList ∧
      next.render =
        text ++ text.gap ++ Text.ended (Block.plainHeader spec.name :: spec.settingLines) ∧
      parse next.render = next ∧
      (∃ rest, next.deleteShare spec.name = .ok rest ∧ rest.render = text ++ text.gap) ∧
      addRemoveText (fun _ => true) spec (text ++ text.gap) = .ok (text ++ text.gap) ∧
      ∀ count, Text.repeatedly (addRemoveText (fun _ => true) spec) (count + 1) text =
        .ok (text ++ text.gap) := by
  intro text spec next
  have planned : (parse text).addShare (fun _ => true) spec = .ok next := by decide +kernel
  exact ⟨planned, by decide +kernel, addShare_undone planned⟩

end Document

end SambaShares
