import SambaShares.Document.Basic
import SambaShares.Proofs.Text.Trim
/-!
Exactly which lines are headers and which are settings. Both readings depend on the trimmed line
only: a header is its name in brackets, a setting is cut at its first equals sign.
-/

namespace SambaShares.Text

theorem trim_plainHeader (name : Text) :
    (Block.plainHeader name).trim = Block.plainHeader name := by
  have shape : Block.plainHeader name = '[' :: name ++ [']'] := rfl
  apply strip_eq_self
  · intro c first
    simp only [shape, List.cons_append, List.head?_cons, Option.mem_def, Option.some.injEq] at first
    exact first ▸ (by decide)
  · intro c last
    simp only [shape, List.getLast?_concat, Option.mem_def, Option.some.injEq] at last
    exact last ▸ (by decide)

/-- A line is a header of a name when nothing but the name in brackets is on it. -/
theorem header?_eq_some_iff {line name : Text} :
    line.header? = some name ↔
      line.trim = Block.plainHeader name ∧ name ≠ [] ∧ '[' ∉ name ∧ ']' ∉ name := by
  unfold header?
  constructor
  · intro read
    split at read
    · next rest opened =>
      dsimp only at read
      split at read
      · next closed =>
        cases read
        simp only [Bool.and_eq_true, decide_eq_true_eq, Bool.not_eq_true', List.isEmpty_eq_false_iff,
          List.contains_eq_mem, decide_eq_false_iff_not] at closed
        obtain ⟨⟨⟨last, some⟩, noOpen⟩, noClose⟩ := closed
        refine ⟨?_, some, noOpen, noClose⟩
        rw [opened, Block.plainHeader, List.cons_append,
          List.dropLast_append_getLast? ']' last]
      · cases read
    · cases read
  · intro shape
    obtain ⟨trimmed, some, noOpen, noClose⟩ := shape
    simp [trimmed, Block.plainHeader, some, noOpen, noClose]

theorem header?_plainHeader {name : Text} (some : name ≠ []) (noOpen : '[' ∉ name)
    (noClose : ']' ∉ name) : (Block.plainHeader name).header? = .some name :=
  header?_eq_some_iff.2 ⟨trim_plainHeader name, some, noOpen, noClose⟩

theorem header?_eq_none_of_head {line : Text} (apart : line.trim.head? ≠ some '[') :
    line.header? = none := by
  rw [Option.eq_none_iff_forall_ne_some]
  intro name read
  have trimmed := (header?_eq_some_iff.1 read).1
  exact apart (by rw [trimmed]; rfl)

@[simp] theorem header?_nil : header? [] = none := rfl

/-- A line is a setting when it is no comment and has an equals sign with a key before it. -/
theorem directive?_eq_some_iff {line key value : Text} :
    line.directive? = some (key, value) ↔
      line.trim.head? ≠ some '#' ∧ line.trim.head? ≠ some ';' ∧ key ≠ [] ∧
        ∃ front rest : Text, line.trim = front ++ '=' :: rest ∧ '=' ∉ front ∧
          front.trim = key ∧ rest.trim = value := by
  unfold directive?
  constructor
  · intro read
    dsimp only at read
    split at read
    · cases read
    · cases read
    · next notHash notSemicolon =>
      split at read
      · cases read
      · next c rest cut =>
        split at read
        · cases read
        · next given =>
          cases read
          have equals : c = '=' := by
            have stop := List.head?_dropWhile_not (· != '=') line.trim
            simpa [cut] using stop
          have whole := List.takeWhile_append_dropWhile (p := (· != '=')) (l := line.trim)
          rw [cut, equals] at whole
          refine ⟨?_, ?_, by simpa using given, _, rest, whole.symm, ?_, rfl, rfl⟩
          · intro hash
            exact notHash _ (List.head?_eq_some_iff.1 hash).choose_spec
          · intro semicolon
            exact notSemicolon _ (List.head?_eq_some_iff.1 semicolon).choose_spec
          · intro inside
            simpa using List.mem_takeWhile_imp inside
  · intro shape
    obtain ⟨notHash, notSemicolon, given, front, rest, trimmed, before, rfl, rfl⟩ := shape
    have passes : ∀ c ∈ front, (c != '=') = true := by
      intro c inside
      simpa using fun same : c = '=' => before (same ▸ inside)
    dsimp only
    split
    · next hash => exact absurd (by rw [hash]; rfl) notHash
    · next semicolon => exact absurd (by rw [semicolon]; rfl) notSemicolon
    · rw [trimmed, List.dropWhile_append_of_pos passes, List.takeWhile_append_of_pos passes]
      simpa using given

theorem trim_of_directive? {line key value : Text} (read : line.directive? = some (key, value)) :
    value.trim = value := by
  obtain ⟨-, -, -, front, rest, -, -, -, trimmed⟩ := directive?_eq_some_iff.1 read
  rw [← trimmed, trim_trim]

@[simp] theorem directive?_nil : directive? [] = none := rfl

theorem directive?_of_isBlankText {line : Text} (blank : line.isBlankText = true) :
    line.directive? = none := by
  have nothing : line.trim = [] := strip_eq_nil_of_all (by simpa [isBlankText] using blank)
  rw [directive?, nothing]
  rfl

@[simp] theorem directive?_trimEnd (line : Text) : line.trimEnd.directive? = line.directive? := by
  simp only [directive?, trim_trimEnd]

end SambaShares.Text
