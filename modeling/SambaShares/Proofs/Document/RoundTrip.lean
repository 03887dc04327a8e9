import SambaShares.Proofs.Document.WellFormed
/-!
Reading and writing a file are inverse to each other. A document is canonical if it is well formed
and its last line feed is where reading would see it. Reading gives a canonical document, whatever
the text, and writing that gives the text again; writing a canonical document and reading the text
gives the document again.
-/

namespace SambaShares

namespace Text

theorem not_newline_of_mem_lines {text line : Text} (member : line ∈ lines text) : '\n' ∉ line := by
  intro inside
  rw [lines, List.splitOn_eq_splitOnP] at member
  have kept := (of_mem_splitOnP member inside).1
  simp at kept

theorem ofLines_concat {front : List Text} (some : front ≠ []) (last : Text) :
    ofLines (front ++ [last]) = ofLines front ++ '\n' :: last := by
  induction front with
  | nil => exact absurd rfl some
  | cons first others ih =>
    by_cases none : others = []
    · subst none
      simp [ofLines]
    · have later := ih none
      unfold ofLines at later ⊢
      rw [List.cons_append, List.intercalate_cons_of_ne_nil (by simp), later,
        List.intercalate_cons_of_ne_nil none]
      simp

theorem exists_ofLines_eq_concat (front : List Text) (start : Text) (c : Char) :
    ∃ before, ofLines (front ++ [start ++ [c]]) = before ++ [c] := by
  by_cases none : front = []
  · subst none
    exact ⟨start, by simp [ofLines]⟩
  · refine ⟨ofLines front ++ '\n' :: start, ?_⟩
    rw [ofLines_concat none, List.append_assoc, List.cons_append]

theorem getLast?_lines_concat (text : Text) {c : Char} (apart : c ≠ '\n') :
    (lines (text ++ [c])).getLast? ≠ some [] := by
  intro empty
  obtain ⟨front, shape⟩ := List.getLast?_eq_some_iff.1 empty
  have whole := ofLines_lines (text ++ [c])
  rw [shape] at whole
  by_cases none : front = []
  · subst none
    simp [ofLines] at whole
  · rw [ofLines_concat none] at whole
    have same := (List.append_inj' whole rfl).2
    simp only [List.cons.injEq, and_true] at same
    exact apart same.symm

end Text

namespace Document

theorem deal_cons_of_header {line name : Text} (header : line.header? = some name)
    (rest : List Text) :
    deal (line :: rest) = ([], ⟨name, line, (deal rest).1⟩ :: (deal rest).2) := by
  simp only [deal, header]

theorem deal_cons_of_body {line : Text} (body : line.header? = none) (rest : List Text) :
    deal (line :: rest) = (line :: (deal rest).1, (deal rest).2) := by
  simp only [deal, body]

@[simp] theorem allLines_ofLines (lines : List Text) (ends : Bool) :
    (ofLines lines ends).allLines = lines := by
  induction lines with
  | nil => rfl
  | cons line rest ih =>
    simp only [allLines, ofLines] at ih ⊢
    cases header : line.header? with
    | none => rw [deal_cons_of_body header, List.cons_append, ih]
    | some name =>
      rw [deal_cons_of_header header, List.nil_append, List.flatMap_cons]
      simp only [Block.allLines, List.cons_append, ih]

/-- Dealing out opens a block at each header and nowhere else. -/
theorem wellFormed_ofLines {lines : List Text} (single : ∀ line ∈ lines, '\n' ∉ line)
    (ends : Bool) : (ofLines lines ends).WellFormed := by
  induction lines with
  | nil => exact ⟨by simp [ofLines, deal], by simp [ofLines, deal]⟩
  | cons line rest ih =>
    have here := single line List.mem_cons_self
    have later := ih (fun other member => single other (List.mem_cons_of_mem _ member))
    unfold ofLines at later ⊢
    cases header : line.header? with
    | none =>
      rw [deal_cons_of_body header]
      refine ⟨?_, later.blocks⟩
      intro other member
      rcases List.mem_cons.1 member with rfl | before
      · exact ⟨here, header⟩
      · exact later.preamble other before
    | some name =>
      rw [deal_cons_of_header header]
      refine ⟨by simp, ?_⟩
      intro block member
      rcases List.mem_cons.1 member with rfl | after
      · exact ⟨here, header, later.preamble⟩
      · exact later.blocks block after

theorem deal_append_of_body {front : List Text} (body : ∀ line ∈ front, line.IsBody)
    (rest : List Text) : deal (front ++ rest) = (front ++ (deal rest).1, (deal rest).2) := by
  induction front with
  | nil => rfl
  | cons line others ih =>
    have here := (body line List.mem_cons_self).2
    have later := ih (fun other member => body other (List.mem_cons_of_mem _ member))
    rw [List.cons_append, deal_cons_of_body here, later, List.cons_append]

theorem deal_flatMap_allLines {blocks : List Block} (formed : ∀ block ∈ blocks, block.WellFormed) :
    deal (blocks.flatMap Block.allLines) = ([], blocks) := by
  induction blocks with
  | nil => rfl
  | cons block others ih =>
    have here := formed block List.mem_cons_self
    have later := ih (fun other member => formed other (List.mem_cons_of_mem _ member))
    rw [List.flatMap_cons, Block.allLines, List.cons_append, deal_cons_of_header here.named,
      deal_append_of_body here.body, later, List.append_nil]

theorem ofLines_allLines {document : Document} (formed : document.WellFormed) (ends : Bool) :
    ofLines document.allLines ends = { document with endsInNewline := ends } := by
  unfold ofLines allLines
  rw [deal_append_of_body formed.preamble, deal_flatMap_allLines formed.blocks, List.append_nil]

/-- A well-formed document whose text tells whether its last line is ended: a line feed needs a
line to end, and an empty last line without one would not be seen. -/
structure Canonical (document : Document) : Prop extends WellFormed document where
  ended : document.endsInNewline = true ∧ document.allLines ≠ [] ∨
    document.endsInNewline = false ∧ document.lastLine? ≠ some []

instance (document : Document) : Decidable document.Canonical :=
  decidable_of_iff (document.WellFormed ∧
      (document.endsInNewline = true ∧ document.allLines ≠ [] ∨
        document.endsInNewline = false ∧ document.lastLine? ≠ some []))
    ⟨fun ⟨formed, ended⟩ => ⟨formed, ended⟩, fun canonical => ⟨canonical.1, canonical.2⟩⟩

theorem parse_concat_newline (text : Text) :
    parse (text ++ ['\n']) = ofLines (Text.lines text) true := by
  simp [parse]

theorem parse_concat (text : Text) {c : Char} (apart : c ≠ '\n') :
    parse (text ++ [c]) = ofLines (Text.lines (text ++ [c])) false := by
  simp [parse, apart]

theorem render_of_newline (document : Document) (ends : document.endsInNewline = true)
    (some : document.allLines ≠ []) :
    document.render = Text.ofLines document.allLines ++ ['\n'] := by
  simp [render, ends, some]

theorem render_of_no_newline (document : Document) (opened : document.endsInNewline = false) :
    document.render = Text.ofLines document.allLines := by
  simp [render, opened]

@[simp] theorem render_parse (text : Text) : (parse text).render = text := by
  rcases List.eq_nil_or_concat text with rfl | ⟨front, c, rfl⟩
  · rfl
  · rw [List.concat_eq_append]
    by_cases newline : c = '\n'
    · subst newline
      have some : Text.lines front ≠ [] := Text.lines_ne_nil front
      rw [parse_concat_newline, render_of_newline _ rfl (by simpa using some), allLines_ofLines,
        Text.ofLines_lines]
    · rw [parse_concat front newline, render_of_no_newline _ rfl, allLines_ofLines,
        Text.ofLines_lines]

theorem canonical_parse (text : Text) : (parse text).Canonical := by
  have single : ∀ text : Text, ∀ line ∈ Text.lines text, '\n' ∉ line :=
    fun _ _ => Text.not_newline_of_mem_lines
  rcases List.eq_nil_or_concat text with rfl | ⟨front, c, rfl⟩
  · decide
  · rw [List.concat_eq_append]
    by_cases newline : c = '\n'
    · subst newline
      rw [parse_concat_newline]
      refine ⟨wellFormed_ofLines (single front) true, Or.inl ⟨rfl, ?_⟩⟩
      rw [allLines_ofLines]
      exact Text.lines_ne_nil front
    · rw [parse_concat front newline]
      refine ⟨wellFormed_ofLines (single _) false, Or.inr ⟨rfl, ?_⟩⟩
      rw [lastLine?, allLines_ofLines]
      exact Text.getLast?_lines_concat front newline

/-- Every document without a line is read from the empty text. -/
theorem eq_empty_of_allLines_eq_nil {document : Document} (none : document.allLines = []) :
    document = { endsInNewline := document.endsInNewline } := by
  rcases document with ⟨preamble, blocks, ends⟩
  obtain ⟨noPreamble, noBlock⟩ := List.append_eq_nil_iff.1 none
  have noBlocks : blocks = [] := by
    cases blocks with
    | nil => rfl
    | cons block others => simp [Block.allLines] at noBlock
  subst noBlocks
  simp only at noPreamble
  rw [noPreamble]

theorem parse_render_of_newline {document : Document} (formed : document.WellFormed)
    (ends : document.endsInNewline = true) (some : document.allLines ≠ []) :
    parse document.render = document := by
  rw [render_of_newline _ ends some, parse_concat_newline,
    Text.lines_ofLines some (fun _ => formed.single_of_mem), ofLines_allLines formed, ← ends]

theorem parse_render_of_no_newline {document : Document} (formed : document.WellFormed)
    (opened : document.endsInNewline = false) (shown : document.lastLine? ≠ some []) :
    parse document.render = document := by
  by_cases none : document.allLines = []
  · have empty := eq_empty_of_allLines_eq_nil none
    rw [opened] at empty
    rw [empty]
    rfl
  · obtain ⟨front, last, shape⟩ := (List.eq_nil_or_concat document.allLines).resolve_left none
    rw [List.concat_eq_append] at shape
    have lines : Text.lines (Text.ofLines document.allLines) = document.allLines :=
      Text.lines_ofLines none (fun _ => formed.single_of_mem)
    have someLast : last ≠ [] := by
      intro empty
      exact shown (by simp [lastLine?, shape, empty])
    obtain ⟨start, c, split⟩ := (List.eq_nil_or_concat last).resolve_left someLast
    rw [List.concat_eq_append] at split
    have apart : c ≠ '\n' := by
      intro newline
      have member : last ∈ document.allLines := by simp [shape]
      exact formed.single_of_mem member (by simp [split, newline])
    obtain ⟨before, ending⟩ := Text.exists_ofLines_eq_concat front start c
    rw [← split, ← shape] at ending
    rw [render_of_no_newline _ opened, ending, parse_concat before apart, ← ending, lines,
      ofLines_allLines formed, ← opened]

theorem parse_render {document : Document} (canonical : document.Canonical) :
    parse document.render = document := by
  rcases canonical.ended with ⟨ends, some⟩ | ⟨opened, shown⟩
  · exact parse_render_of_newline canonical.toWellFormed ends some
  · exact parse_render_of_no_newline canonical.toWellFormed opened shown

/-- Reading and writing are inverse to each other between all texts and the canonical documents. -/
theorem parse_render_inverse :
    (∀ text : Text, (parse text).Canonical ∧ (parse text).render = text) ∧
      ∀ document : Document, document.Canonical → parse document.render = document :=
  ⟨fun text => ⟨canonical_parse text, render_parse text⟩, fun _ => parse_render⟩

/-- A header with white space around it, a carriage return, blank lines and no last line feed. -/
theorem parse_render_inverse_hand_edited :
    let document : Document :=
      ⟨["# top\r".toList, []], [⟨"a b".toList, "  [a b]\t".toList, [[], " x = [".toList]⟩], false⟩
    document.Canonical ∧ parse document.render = document :=
  ⟨by decide, parse_render_inverse.2 _ (by decide)⟩

end Document

end SambaShares
