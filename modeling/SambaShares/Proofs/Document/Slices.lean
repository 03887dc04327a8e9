import SambaShares.Proofs.Registry
/-!
Where the parts of a document are in its text. The text is that of the lines before a block, each
ended by a line feed, then that of the block, then that of the blocks after it. Whether the last
line is ended is kept once for the whole document, so it concerns whatever part comes last.
-/

namespace SambaShares

namespace Text

/-- The lines, each ended by a line feed. -/
def ended (lines : List Text) : Text := lines.flatMap (· ++ ['\n'])

/-- The lines with a line feed between neighbours, and one after the last if it `ends`. -/
def written (lines : List Text) (ends : Bool) : Text := if ends then ended lines else ofLines lines

@[simp] theorem written_true (lines : List Text) : written lines true = ended lines := rfl

@[simp] theorem written_false (lines : List Text) : written lines false = ofLines lines := rfl

@[simp] theorem written_nil (ends : Bool) : written [] ends = [] := by cases ends <;> rfl

@[simp] theorem ended_nil : ended [] = [] := rfl

theorem ended_append (front back : List Text) :
    ended (front ++ back) = ended front ++ ended back :=
  List.flatMap_append

theorem ofLines_append (front : List Text) {back : List Text} (some : back ≠ []) :
    ofLines (front ++ back) = ended front ++ ofLines back := by
  induction front with
  | nil => rfl
  | cons line rest ih =>
    unfold ofLines at ih ⊢
    rw [List.cons_append, List.intercalate_cons_of_ne_nil (by simp [some]), ih]
    simp [ended]

theorem written_append (front : List Text) {back : List Text} (some : back ≠ []) (ends : Bool) :
    written (front ++ back) ends = ended front ++ written back ends := by
  cases ends with
  | false => exact ofLines_append front some
  | true => exact ended_append front back

theorem ended_eq_ofLines_concat {lines : List Text} (some : lines ≠ []) :
    ended lines = ofLines lines ++ ['\n'] := by
  have empty : ofLines (lines ++ [[]]) = ended lines ++ ofLines [[]] :=
    ofLines_append lines (by simp)
  rw [ofLines_concat some] at empty
  simpa [ofLines] using empty.symm

/-- Without its last line feed the text is that of the same lines. -/
theorem dropLast_ended (lines : List Text) : (ended lines).dropLast = ofLines lines := by
  by_cases none : lines = []
  · subst none
    rfl
  · rw [ended_eq_ofLines_concat none, List.dropLast_concat]

end Text

namespace Document

theorem render_eq_written (document : Document) :
    document.render = Text.written document.allLines document.endsInNewline := by
  cases ends : document.endsInNewline with
  | false => exact render_of_no_newline document ends
  | true =>
    by_cases none : document.allLines = []
    · simp [render, none, Text.ofLines]
    · rw [render_of_newline document ends none, Text.written_true,
        Text.ended_eq_ofLines_concat none]

/-- The text before the header line of the block that follows the blocks `before`. -/
def textBefore (document : Document) (before : List Block) : Text :=
  Text.ended (document.preamble ++ before.flatMap Block.allLines)

/-- The text from the first header line of the last blocks `after` on; nothing, if there are none. -/
def textFrom (document : Document) (after : List Block) : Text :=
  Text.written (after.flatMap Block.allLines) document.endsInNewline

/-- The text of lines that stand right before the last blocks `after`. -/
def textOf (document : Document) (lines : List Text) (after : List Block) : Text :=
  Text.written lines (document.endsInNewline || !after.isEmpty)

theorem flatMap_allLines_ne_nil {after : List Block} (some : after ≠ []) :
    after.flatMap Block.allLines ≠ [] := by
  cases after with
  | nil => exact absurd rfl some
  | cons next rest => simp [Block.allLines]

/-- Lines between two runs of blocks. Something has to come last that the last line feed, or its
absence, belongs to. -/
theorem written_around (document : Document) (before after : List Block) {lines : List Text}
    (last : lines ≠ [] ∨ after ≠ [] ∨ document.endsInNewline = true) :
    Text.written (document.preamble ++ before.flatMap Block.allLines ++ lines ++
        after.flatMap Block.allLines) document.endsInNewline =
      document.textBefore before ++ document.textOf lines after ++ document.textFrom after := by
  unfold textBefore textOf textFrom
  by_cases none : after = []
  · subst none
    by_cases empty : lines = []
    · have ends : document.endsInNewline = true := by simpa [empty] using last
      simp [empty, ends]
    · simpa using Text.written_append (document.preamble ++ before.flatMap Block.allLines) empty
        document.endsInNewline
  · have some := flatMap_allLines_ne_nil none
    have flag : (document.endsInNewline || !after.isEmpty) = true := by simp [none]
    rw [Text.written_append _ some, Text.ended_append, flag, Text.written_true]

/-- The text of a document, cut before and after a block. -/
theorem render_around {document next : Document} {before after : List Block} {block : Block}
    (preamble : next.preamble = document.preamble) (blocks : next.blocks = before ++ block :: after)
    (ends : next.endsInNewline = document.endsInNewline) :
    next.render = document.textBefore before ++ document.textOf block.allLines after ++
      document.textFrom after := by
  have some : block.allLines ≠ [] := by simp [Block.allLines]
  rw [← document.written_around before after (Or.inl some), render_eq_written, ends]
  simp [allLines, preamble, blocks]

theorem allLines_without (document : Document) (before after : List Block) (block : Block) :
    (document.without before block after).allLines =
      document.preamble ++ before.flatMap Block.allLines ++ block.keptOnDelete ++
        after.flatMap Block.allLines := by
  have front := allLines_extend ⟨document.preamble, before, document.endsInNewline⟩
    block.keptOnDelete
  calc
    (document.without before block after).allLines =
        (extend ⟨document.preamble, before, document.endsInNewline⟩ block.keptOnDelete).allLines ++
          after.flatMap Block.allLines := by
      simp [without, allLines]
    _ = _ := by rw [front, allLines]

/-- The text of a document without one of its blocks. If that was the last one, nothing of it is kept
and the last line was not ended, the line before it is not ended any more. -/
theorem render_without (document : Document) (before after : List Block) (block : Block) :
    (document.without before block after).render =
      if after = [] ∧ block.keptOnDelete = [] ∧ document.endsInNewline = false then
        (document.textBefore before).dropLast
      else
        document.textBefore before ++ document.textOf block.keptOnDelete after ++
          document.textFrom after := by
  have ends : (document.without before block after).endsInNewline = document.endsInNewline := rfl
  rw [render_eq_written, allLines_without, ends]
  split
  · next gone =>
    obtain ⟨noBlock, noLine, opened⟩ := gone
    simp [noBlock, noLine, opened, textBefore, Text.dropLast_ended]
  · next kept =>
    refine document.written_around before after ?_
    by_contra none
    simp only [not_or, ne_eq, not_not, Bool.not_eq_true] at none
    exact kept ⟨none.2.1, none.1, none.2.2⟩

end Document

end SambaShares
