import SambaShares.Document.Edit
import SambaShares.Proofs.Document.Line
/-!
The invariant of documents: every line is a single line, a line of the preamble or of a block is no
header, and a block is named by its header. It is what makes the text of a document say the same as
the document. Adding, exchanging and removing a block keep it.
-/

namespace SambaShares

/-- A single line that is no header, so it opens no section of its own. -/
def Text.IsBody (line : Text) : Prop := '\n' ∉ line ∧ line.header? = none

instance (line : Text) : Decidable line.IsBody := inferInstanceAs (Decidable (_ ∧ _))

theorem Text.isBody_nil : Text.IsBody [] := by decide

/-- A block that its own lines describe. -/
structure Block.WellFormed (block : Block) : Prop where
  single : '\n' ∉ block.header
  named : block.header.header? = some block.name
  body : ∀ line ∈ block.lines, line.IsBody

instance (block : Block) : Decidable block.WellFormed :=
  decidable_of_iff ('\n' ∉ block.header ∧ block.header.header? = some block.name ∧
      ∀ line ∈ block.lines, line.IsBody)
    ⟨fun ⟨single, named, body⟩ => ⟨single, named, body⟩,
      fun formed => ⟨formed.single, formed.named, formed.body⟩⟩

/-- A document that its own lines describe. -/
structure Document.WellFormed (document : Document) : Prop where
  preamble : ∀ line ∈ document.preamble, line.IsBody
  blocks : ∀ block ∈ document.blocks, block.WellFormed

instance (document : Document) : Decidable document.WellFormed :=
  decidable_of_iff ((∀ line ∈ document.preamble, line.IsBody) ∧
      ∀ block ∈ document.blocks, block.WellFormed)
    ⟨fun ⟨preamble, blocks⟩ => ⟨preamble, blocks⟩, fun formed => ⟨formed.preamble, formed.blocks⟩⟩

namespace Block

theorem WellFormed.header_ne_nil {block : Block} (formed : block.WellFormed) : block.header ≠ [] := by
  intro none
  have named := formed.named
  rw [none, Text.header?_nil] at named
  cases named

theorem WellFormed.single_of_mem {block : Block} (formed : block.WellFormed) {line : Text}
    (member : line ∈ block.allLines) : '\n' ∉ line := by
  rcases List.mem_cons.1 member with rfl | inside
  · exact formed.single
  · exact (formed.body line inside).1

theorem WellFormed.extend {block : Block} {lines : List Text} (formed : block.WellFormed)
    (added : ∀ line ∈ lines, line.IsBody) :
    WellFormed { block with lines := block.lines ++ lines } := by
  refine ⟨formed.single, formed.named, ?_⟩
  intro line member
  rcases List.mem_append.1 member with old | new
  · exact formed.body line old
  · exact added line new

/-- A plain block is well formed if its name can stand in brackets on a single line. -/
theorem wellFormed_plain {name : Text} {lines : List Text} (some : name ≠ [])
    (allowed : ∀ c ∈ name, c ≠ '[' ∧ c ≠ ']' ∧ c ≠ '\n') (body : ∀ line ∈ lines, line.IsBody) :
    (plain name lines).WellFormed := by
  refine ⟨?_, ?_, body⟩
  · intro inside
    have inName : '\n' ∈ name := by simpa [plain, plainHeader] using inside
    exact (allowed _ inName).2.2 rfl
  · exact Text.header?_plainHeader some (fun inside => (allowed _ inside).1 rfl)
      (fun inside => (allowed _ inside).2.1 rfl)

theorem mem_lines_of_mem_keptOnUpdate {block : Block} {line : Text}
    (member : line ∈ block.keptOnUpdate) : line ∈ block.lines :=
  (List.dropWhile_sublist _).subset (List.mem_filter.1 member).1

theorem mem_lines_of_mem_keptOnDelete {block : Block} {line : Text}
    (member : line ∈ block.keptOnDelete) : line ∈ block.lines :=
  (List.dropWhile_sublist _).subset (List.mem_filter.1 member).1

end Block

namespace Document

theorem mem_allLines {document : Document} {line : Text} :
    line ∈ document.allLines ↔
      line ∈ document.preamble ∨ ∃ block ∈ document.blocks, line ∈ block.allLines := by
  simp [allLines]

theorem WellFormed.single_of_mem {document : Document} (formed : document.WellFormed) {line : Text}
    (member : line ∈ document.allLines) : '\n' ∉ line := by
  rcases mem_allLines.1 member with before | ⟨block, inBlock, inside⟩
  · exact (formed.preamble line before).1
  · exact (formed.blocks block inBlock).single_of_mem inside

theorem extendLast_concat (preamble lines : List Text) (front : List Block) (last : Block) :
    extendLast preamble lines (front ++ [last]) =
      (preamble, front ++ [{ last with lines := last.lines ++ lines }]) := by
  induction front with
  | nil => rfl
  | cons first rest ih =>
    cases rest with
    | nil => rfl
    | cons second more =>
      simp only [List.cons_append] at ih ⊢
      simp only [extendLast, ih]

def extend (document : Document) (lines : List Text) : Document where
  preamble := (extendLast document.preamble lines document.blocks).1
  blocks := (extendLast document.preamble lines document.blocks).2
  endsInNewline := document.endsInNewline

@[simp] theorem extend_no_block (preamble lines : List Text) (ends : Bool) :
    extend ⟨preamble, [], ends⟩ lines = ⟨preamble ++ lines, [], ends⟩ := rfl

@[simp] theorem extend_concat (preamble lines : List Text) (front : List Block) (last : Block)
    (ends : Bool) :
    extend ⟨preamble, front ++ [last], ends⟩ lines =
      ⟨preamble, front ++ [{ last with lines := last.lines ++ lines }], ends⟩ := by
  simp only [extend, extendLast_concat]

theorem cases_last (document : Document) :
    (∃ preamble ends, document = ⟨preamble, [], ends⟩) ∨
      ∃ preamble front last ends, document = ⟨preamble, front ++ [last], ends⟩ := by
  rcases document with ⟨preamble, blocks, ends⟩
  rcases List.eq_nil_or_concat blocks with rfl | ⟨front, last, rfl⟩
  · exact Or.inl ⟨preamble, ends, rfl⟩
  · exact Or.inr ⟨preamble, front, last, ends, by rw [List.concat_eq_append]⟩

theorem allLines_extend (document : Document) (lines : List Text) :
    (document.extend lines).allLines = document.allLines ++ lines := by
  rcases cases_last document with ⟨preamble, ends, rfl⟩ | ⟨preamble, front, last, ends, rfl⟩
  · simp [allLines]
  · simp [allLines, Block.allLines]

theorem WellFormed.extend {document : Document} {lines : List Text} (formed : document.WellFormed)
    (added : ∀ line ∈ lines, line.IsBody) : (document.extend lines).WellFormed := by
  rcases cases_last document with ⟨preamble, ends, rfl⟩ | ⟨preamble, front, last, ends, rfl⟩
  · refine ⟨?_, by simp⟩
    intro line member
    rcases List.mem_append.1 member with old | new
    · exact formed.preamble line old
    · exact added line new
  · rw [extend_concat]
    refine ⟨formed.preamble, ?_⟩
    intro block member
    rcases List.mem_append.1 member with before | here
    · exact formed.blocks block (List.mem_append_left _ before)
    · rw [List.mem_singleton.1 here]
      exact (formed.blocks last (by simp)).extend added

theorem separator_cases (document : Document) :
    document.separator = [] ∨ document.separator = [[]] := by
  unfold separator
  split
  · split
    · exact Or.inl rfl
    · exact Or.inr rfl
  · exact Or.inl rfl

theorem eq_nil_of_mem_separator {document : Document} {line : Text}
    (member : line ∈ document.separator) : line = [] := by
  rcases separator_cases document with none | blank
  · simp [none] at member
  · simpa [blank] using member

theorem push_eq (document : Document) (block : Block) :
    document.push block =
      ⟨(document.extend document.separator).preamble,
        (document.extend document.separator).blocks ++ [block], true⟩ := rfl

/-- The document without the block between `before` and `after`, whose kept lines stand at the end
of what comes before. -/
def without (document : Document) (before : List Block) (block : Block) (after : List Block) :
    Document :=
  let front := extend ⟨document.preamble, before, document.endsInNewline⟩ block.keptOnDelete
  ⟨front.preamble, front.blocks ++ after, document.endsInNewline⟩

theorem replace_length {document : Document} {before after : List Block} {old : Block}
    (shape : document.blocks = before ++ old :: after) (new : Block) :
    document.replace before.length new =
      ⟨document.preamble, before ++ new :: after, document.endsInNewline⟩ := by
  simp [replace, shape]

theorem remove_length {document : Document} {before after : List Block} {block : Block}
    (shape : document.blocks = before ++ block :: after) :
    document.remove before.length = document.without before block after := by
  simp [remove, without, extend, shape]

theorem WellFormed.extend_separator {document : Document} (formed : document.WellFormed) :
    (document.extend document.separator).WellFormed :=
  formed.extend fun _ member => eq_nil_of_mem_separator member ▸ Text.isBody_nil

theorem WellFormed.push {document : Document} {block : Block} (formed : document.WellFormed)
    (new : block.WellFormed) : (document.push block).WellFormed := by
  have before := formed.extend_separator
  rw [push_eq]
  refine ⟨before.preamble, ?_⟩
  intro other member
  rcases List.mem_append.1 member with old | here
  · exact before.blocks other old
  · exact List.mem_singleton.1 here ▸ new

theorem WellFormed.exchange {document : Document} {before after : List Block} {old new : Block}
    (formed : document.WellFormed) (shape : document.blocks = before ++ old :: after)
    (renewed : new.WellFormed) :
    WellFormed ⟨document.preamble, before ++ new :: after, document.endsInNewline⟩ := by
  refine ⟨formed.preamble, ?_⟩
  intro other member
  rcases List.mem_append.1 member with front | here
  · exact formed.blocks other (by simp [shape, front])
  · rcases List.mem_cons.1 here with rfl | back
    · exact renewed
    · exact formed.blocks other (by simp [shape, back])

theorem WellFormed.without {document : Document} {before after : List Block} {block : Block}
    (formed : document.WellFormed) (shape : document.blocks = before ++ block :: after) :
    (document.without before block after).WellFormed := by
  have removed : block.WellFormed := formed.blocks block (by simp [shape])
  have front : WellFormed ⟨document.preamble, before, document.endsInNewline⟩ :=
    ⟨formed.preamble, fun other member => formed.blocks other (by simp [shape, member])⟩
  have kept : ∀ line ∈ block.keptOnDelete, line.IsBody := fun line member =>
    removed.body line (Block.mem_lines_of_mem_keptOnDelete member)
  have extended := front.extend kept
  refine ⟨extended.preamble, ?_⟩
  intro other member
  rcases List.mem_append.1 member with old | later
  · exact extended.blocks other old
  · exact formed.blocks other (by simp [shape, later])

end Document

end SambaShares
