import SambaShares.Proofs.Document.RoundTrip
import SambaShares.Registry
/-!
What is read back from the text of a document that need not be canonical. At most the last line
feed or an empty last line is lost; every section keeps its header, its name and its settings, so
the shares are the same.
-/

namespace SambaShares

/-- What a block says: its header, its name and its settings in order. -/
structure Section where
  header : Text
  name : Text
  directives : List (Text × Text)
  deriving DecidableEq, Repr

def Block.toSection (block : Block) : Section := ⟨block.header, block.name, block.directives⟩

/-- The share of a section, unless the section has a meaning of its own. -/
def Section.share? (part : Section) : Option Share :=
  if isReserved part.name then none else some (Share.ofDirectives part.name part.directives)

theorem Section.share?_toSection (block : Block) : block.toSection.share? = Share.ofBlock? block :=
  rfl

namespace Document

def sections (document : Document) : List Section := document.blocks.map Block.toSection

/-- The shares of a document, in the order of the file and with each repetition. -/
def shares (document : Document) : List Share := document.blocks.filterMap Share.ofBlock?

theorem shares_eq_filterMap (document : Document) :
    document.shares = document.sections.filterMap Section.share? := by
  rw [sections, List.filterMap_map]
  rfl

theorem shares_eq_of_sections_eq {first second : Document} (same : first.sections = second.sections) :
    first.shares = second.shares := by
  rw [shares_eq_filterMap, shares_eq_filterMap, same]

/-- Lines without a setting say nothing in whatever section they end up. -/
theorem sections_extend {lines : List Text} (document : Document)
    (silent : ∀ line ∈ lines, line.directive? = none) :
    (document.extend lines).sections = document.sections := by
  have nothing : lines.filterMap Text.directive? = [] := List.filterMap_eq_nil_iff.2 silent
  rcases cases_last document with ⟨preamble, ends, rfl⟩ | ⟨preamble, front, last, ends, rfl⟩
  · rfl
  · simp [sections, Block.toSection, Block.directives, nothing]

theorem directive?_of_mem_separator {document : Document} {line : Text}
    (member : line ∈ document.separator) : line.directive? = none := by
  simp [eq_nil_of_mem_separator member]

theorem sections_push (document : Document) (block : Block) :
    (document.push block).sections = document.sections ++ [block.toSection] := by
  have silent : ∀ line ∈ document.separator, line.directive? = none :=
    fun _ => directive?_of_mem_separator
  rw [push_eq, ← sections_extend document silent]
  simp [sections]

theorem directive?_of_mem_keptOnDelete {block : Block} {line : Text}
    (member : line ∈ block.keptOnDelete) : line.directive? = none := by
  simpa using (List.mem_filter.1 member).2

/-- What is kept of a removed section says nothing where it stands now. -/
theorem sections_without {document : Document} {before after : List Block} {block : Block} :
    (document.without before block after).sections =
      before.map Block.toSection ++ after.map Block.toSection := by
  have front := sections_extend ⟨document.preamble, before, document.endsInNewline⟩
    fun _ (member : _ ∈ block.keptOnDelete) => directive?_of_mem_keptOnDelete member
  unfold sections at front
  rw [without, sections, List.map_append, front]

/-- An empty last line is no header, so it stands at the end of the preamble or of the last block. -/
theorem exists_extend_of_lastLine? {document : Document} (formed : document.WellFormed)
    (blank : document.lastLine? = some []) :
    ∃ rest : Document, rest.WellFormed ∧ document = rest.extend [[]] := by
  rcases cases_last document with ⟨preamble, ends, rfl⟩ | ⟨preamble, front, last, ends, rfl⟩
  · obtain ⟨before, shape⟩ : ∃ before, preamble = before ++ [[]] :=
      List.getLast?_eq_some_iff.1 (by simpa [lastLine?, allLines] using blank)
    subst shape
    refine ⟨⟨before, [], ends⟩, ⟨?_, by simp⟩, rfl⟩
    exact fun line member => formed.preamble line (List.mem_append_left _ member)
  · have lastFormed := formed.blocks last (by simp)
    have ending : (last.header :: last.lines).getLast? = some [] := by
      simpa [lastLine?, allLines, Block.allLines, List.getLast?_append, List.getLast?_cons] using blank
    obtain ⟨before, shape⟩ : ∃ before, last.lines = before ++ [[]] := by
      rcases List.eq_nil_or_concat last.lines with none | ⟨before, line, shape⟩
      · simp only [none, List.getLast?_singleton, Option.some.injEq] at ending
        exact absurd ending lastFormed.header_ne_nil
      · rw [List.concat_eq_append] at shape
        refine ⟨before, ?_⟩
        simpa [shape, List.getLast?_cons] using ending
    refine ⟨⟨preamble, front ++ [{ last with lines := before }], ends⟩, ⟨formed.preamble, ?_⟩, ?_⟩
    · intro block member
      rcases List.mem_append.1 member with earlier | here
      · exact formed.blocks block (List.mem_append_left _ earlier)
      · rw [List.mem_singleton.1 here]
        refine ⟨lastFormed.single, lastFormed.named, ?_⟩
        exact fun line inside => lastFormed.body line (by simp [shape, inside])
    · rw [extend_concat, ← shape]

/-- A line feed that would have to end a line that is not there. -/
def LosesNewline (document : Document) : Prop :=
  document.allLines = [] ∧ document.endsInNewline = true

/-- An empty last line that no line feed ends. -/
def LosesLine (document : Document) : Prop :=
  document.endsInNewline = false ∧ document.lastLine? = some []

theorem canonical_iff {document : Document} (formed : document.WellFormed) :
    document.Canonical ↔ ¬document.LosesNewline ∧ ¬document.LosesLine := by
  constructor
  · intro canonical
    rcases canonical.ended with ⟨ends, some⟩ | ⟨opened, shown⟩
    · exact ⟨fun loses => some loses.1, fun loses => absurd (ends.symm.trans loses.1) (by decide)⟩
    · exact ⟨fun loses => absurd (opened.symm.trans loses.2) (by decide), fun loses => shown loses.2⟩
  · intro kept
    obtain ⟨newline, line⟩ := kept
    refine ⟨formed, ?_⟩
    cases ends : document.endsInNewline with
    | true => exact Or.inl ⟨rfl, fun none => newline ⟨none, ends⟩⟩
    | false => exact Or.inr ⟨rfl, fun blank => line ⟨ends, blank⟩⟩

theorem parse_render_of_losesNewline {document : Document} (loses : document.LosesNewline) :
    parse document.render = { document with endsInNewline := false } := by
  rw [eq_empty_of_allLines_eq_nil loses.1, loses.2]
  rfl

theorem parse_render_extend_blank {rest : Document} (formed : rest.WellFormed)
    (opened : rest.endsInNewline = false) :
    parse (rest.extend [[]]).render = { rest with endsInNewline := !rest.allLines.isEmpty } := by
  have written : (rest.extend [[]]).render = Text.ofLines (rest.allLines ++ [[]]) := by
    rw [render_of_no_newline (rest.extend [[]]) opened, allLines_extend]
  by_cases none : rest.allLines = []
  · have empty := eq_empty_of_allLines_eq_nil none
    rw [written, none, empty]
    rfl
  · have ended : WellFormed { rest with endsInNewline := true } := ⟨formed.preamble, formed.blocks⟩
    have same : Text.ofLines (rest.allLines ++ [[]]) =
        render { rest with endsInNewline := true } := by
      rw [Text.ofLines_concat none]
      exact (render_of_newline { rest with endsInNewline := true } rfl none).symm
    have flag : (!rest.allLines.isEmpty) = true := by simpa using none
    rw [written, same, flag]
    exact parse_render_of_newline ended rfl none

/-- How `next`, read back from the text of `document`, compares with it. -/
structure Reread (document next : Document) : Prop where
  /-- Only a last line feed without a line and an empty last line without a line feed are lost. -/
  same : next = document ↔ ¬document.LosesNewline ∧ ¬document.LosesLine
  newline : document.LosesNewline → next = { document with endsInNewline := false }
  /-- The line before the lost one is ended by a line feed, if there is one. -/
  line : document.LosesLine → ∃ rest : Document, document = rest.extend [[]] ∧
    next = { rest with endsInNewline := !rest.allLines.isEmpty }
  sections : next.sections = document.sections
  shares : next.shares = document.shares

theorem exists_parse_render_of_losesLine {document : Document} (formed : document.WellFormed)
    (loses : document.LosesLine) : ∃ rest : Document, document = rest.extend [[]] ∧
      parse document.render = { rest with endsInNewline := !rest.allLines.isEmpty } := by
  obtain ⟨rest, restFormed, shape⟩ := exists_extend_of_lastLine? formed loses.2
  have opened : rest.endsInNewline = false := by
    have unset := loses.1
    rwa [shape] at unset
  exact ⟨rest, shape, shape ▸ parse_render_extend_blank restFormed opened⟩

theorem sections_parse_render {document : Document} (formed : document.WellFormed) :
    (parse document.render).sections = document.sections := by
  by_cases newline : document.LosesNewline
  · rw [parse_render_of_losesNewline newline]
    rfl
  · by_cases line : document.LosesLine
    · obtain ⟨rest, shape, read⟩ := exists_parse_render_of_losesLine formed line
      rw [read, shape, sections_extend rest (by simp)]
      rfl
    · rw [parse_render ((canonical_iff formed).2 ⟨newline, line⟩)]

theorem WellFormed.reread {document : Document} (formed : document.WellFormed) :
    Reread document (parse document.render) where
  same := by
    rw [← canonical_iff formed]
    constructor
    · intro same
      exact same ▸ canonical_parse document.render
    · exact parse_render
  newline := parse_render_of_losesNewline
  line := exists_parse_render_of_losesLine formed
  sections := sections_parse_render formed
  shares := shares_eq_of_sections_eq (sections_parse_render formed)

end Document

end SambaShares
