import SambaShares.Proofs.Planning.Session
/-!
Free lines are the hand-written lines at the left margin: no blank line, no header, no setting. They
are never part of what a share owns, both filters of a trailer keep them, and no written line is
one, so a session keeps all of them in their order, though some may move from block to block.
-/

namespace SambaShares

namespace Text

theorem directive?_of_isFree {line : Text} (free : line.isFree = true) :
    line.directive? = none := by
  simp only [isFree, closesExtent, Bool.and_eq_true, Option.isNone_iff_eq_none] at free
  exact free.1.2

theorem closesExtent_of_isFree {line : Text} (free : line.isFree = true) :
    line.closesExtent = true := by
  rw [isFree, Bool.and_eq_true] at free
  exact free.1

theorem isFree_eq_false_of_indented {line : Text} (indented : line.head? = some ' ') :
    line.isFree = false := by
  simp [isFree, closesExtent, indented]

@[simp] theorem isFree_nil : isFree [] = false := rfl

end Text

namespace Block

/-- A free line closes the extent, so what a share owns ends before the first one. -/
theorem filter_isFree_owned (block : Block) : block.owned.filter Text.isFree = [] := by
  rw [List.filter_eq_nil_iff]
  intro line member free
  have inside := List.mem_takeWhile_imp member
  rw [Text.closesExtent_of_isFree free] at inside
  cases inside

theorem filter_isFree_lines (block : Block) :
    block.lines.filter Text.isFree = block.trailer.filter Text.isFree := by
  rw [← block.owned_append_trailer, List.filter_append, filter_isFree_owned, List.nil_append]

/-- Whatever is taken out of a trailer, the free lines stay if only settings are taken out. -/
theorem filter_isFree_filter {lines : List Text} {keep : Text → Bool}
    (settings : ∀ line : Text, line.directive? = none → keep line = true) :
    (lines.filter keep).filter Text.isFree = lines.filter Text.isFree := by
  rw [List.filter_filter]
  apply List.filter_congr
  intro line _
  cases free : line.isFree with
  | false => rfl
  | true => exact settings line (Text.directive?_of_isFree free)

theorem filter_isFree_keptOnUpdate (block : Block) :
    block.keptOnUpdate.filter Text.isFree = block.lines.filter Text.isFree := by
  rw [filter_isFree_lines]
  exact filter_isFree_filter fun line silent => by simp [Text.isManaged, silent]

theorem filter_isFree_keptOnDelete (block : Block) :
    block.keptOnDelete.filter Text.isFree = block.lines.filter Text.isFree := by
  rw [filter_isFree_lines]
  exact filter_isFree_filter fun line silent => by simp [silent]

end Block

namespace ShareSpec

theorem filter_isFree_settingLines (spec : ShareSpec) :
    spec.settingLines.filter Text.isFree = [] := by
  rw [List.filter_eq_nil_iff]
  intro line member
  rw [Bool.not_eq_true]
  exact Text.isFree_eq_false_of_indented (head?_of_mem_settingLines member)

theorem filter_isFree_renewBlock (spec : ShareSpec) (old : Block) :
    (spec.renewBlock old).lines.filter Text.isFree = old.lines.filter Text.isFree := by
  simp [renewBlock, Block.plain, filter_isFree_settingLines, Block.filter_isFree_keptOnUpdate]

end ShareSpec

namespace Document

/-- The free lines of a document: those of the preamble, then those of each block, in order. -/
def freeLines (document : Document) : List Text :=
  (document.preamble ++ document.blocks.flatMap Block.lines).filter Text.isFree

theorem freeLines_extend (document : Document) (lines : List Text) :
    (document.extend lines).freeLines = document.freeLines ++ lines.filter Text.isFree := by
  rcases cases_last document with ⟨preamble, ends, rfl⟩ | ⟨preamble, front, last, ends, rfl⟩
  · simp [freeLines]
  · simp [freeLines]

theorem freeLines_append (preamble : List Text) (before after : List Block) (ends : Bool) :
    freeLines ⟨preamble, before ++ after, ends⟩ =
      freeLines ⟨preamble, before, ends⟩ ++ (after.flatMap Block.lines).filter Text.isFree := by
  simp [freeLines]

theorem freeLines_push (document : Document) (block : Block) :
    (document.push block).freeLines = document.freeLines ++ block.lines.filter Text.isFree := by
  have separator : document.separator.filter Text.isFree = [] :=
    List.filter_eq_nil_iff.2 fun _ member => by simp [eq_nil_of_mem_separator member]
  have before := freeLines_extend document document.separator
  rw [separator, List.append_nil] at before
  rw [push_eq, freeLines_append, ← before]
  simp [freeLines]

/-- The free lines of a removed block stand where they stood, now behind those of what is before. -/
theorem freeLines_without {document : Document} {before after : List Block} {block : Block}
    (shape : document.blocks = before ++ block :: after) :
    (document.without before block after).freeLines = document.freeLines := by
  have front := freeLines_extend ⟨document.preamble, before, document.endsInNewline⟩
    block.keptOnDelete
  rw [Block.filter_isFree_keptOnDelete] at front
  calc
    (document.without before block after).freeLines =
        (extend ⟨document.preamble, before, document.endsInNewline⟩ block.keptOnDelete).freeLines ++
          (after.flatMap Block.lines).filter Text.isFree := by
      simp [without, freeLines]
    _ = document.freeLines := by
      rw [front]
      simp [freeLines, shape]

theorem freeLines_exchange {document : Document} {before after : List Block} {block : Block}
    (shape : document.blocks = before ++ block :: after) (spec : ShareSpec) :
    freeLines ⟨document.preamble, before ++ spec.renewBlock block :: after,
      document.endsInNewline⟩ = document.freeLines := by
  simp [freeLines, shape, ShareSpec.filter_isFree_renewBlock]

/-- Writing and reading again loses an empty last line at most. -/
theorem freeLines_parse_render {document : Document} (formed : document.WellFormed) :
    (parse document.render).freeLines = document.freeLines := by
  by_cases newline : document.LosesNewline
  · rw [formed.reread.newline newline]
    rfl
  · by_cases line : document.LosesLine
    · obtain ⟨rest, shape, read⟩ := formed.reread.line line
      have lost := freeLines_extend rest [[]]
      rw [read, shape, lost]
      simp [freeLines]
    · rw [formed.reread.same.2 ⟨newline, line⟩]

end Document

theorem Change.freeLines {document next : Document} (change : Change document next) :
    next.freeLines = document.freeLines := by
  cases change with
  | added accepted managed free =>
    rw [Document.freeLines_push, ShareSpec.toBlock, Block.plain,
      ShareSpec.filter_isFree_settingLines, List.append_nil]
  | renewed split oldManaged accepted managed free =>
    exact Document.freeLines_exchange split.blocks _
  | removed split managed => exact Document.freeLines_without split.blocks

/-- No request loses, repeats, changes or moves past each other the free lines of a file, however
many follow each other and whether or not the file is read again between them. -/
theorem Session.freeLines_eq {text : Text} {document : Document}
    (session : Session (.parse text) document) :
    document.freeLines = (Document.parse text).freeLines := by
  have formed := (Document.canonical_parse text).toWellFormed
  induction session with
  | start => rfl
  | plan _ planned ih => exact (Change.of_plan planned).freeLines.trans ih
  | reread session ih =>
    exact (Document.freeLines_parse_render (session.wellFormed formed)).trans ih

/-- The note below the settings of one share moves to the preamble, and then stays there. -/
theorem Session.freeLines_eq_moved :
    let text := "# top\n[a]\n path = /x\n# note\npath = /y\n[b]\n path = /z\nmemo\n".toList
    let spec : ShareSpec := { name := "c".toList, path := "/w".toList }
    let removed : Document :=
      ⟨["# top".toList, "# note".toList],
        [⟨"b".toList, "[b]".toList, [" path = /z".toList, "memo".toList]⟩], true⟩
    let next : Document :=
      ⟨removed.preamble, [.plain "c".toList (spec.settingLines ++ ["memo".toList])], true⟩
    Session (.parse text) next ∧ next.freeLines = (Document.parse text).freeLines := by
  intro text spec removed next
  have first : (Request.delete "a".toList).plan (fun _ => true) (.parse text) = .ok removed := by
    decide +kernel
  have reread : Document.parse removed.render = removed := by decide +kernel
  have second : (Request.update "b".toList spec).plan (fun _ => true)
      (.parse removed.render) = .ok next := by
    rw [reread]
    decide +kernel
  have session : Session (.parse text) next := .plan (.reread (.plan .start first)) second
  exact ⟨session, session.freeLines_eq⟩

end SambaShares
