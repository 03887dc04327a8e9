import Mathlib.Data.List.DropRight
import Mathlib.Data.List.TakeWhile
import SambaShares.Text.Blank
/-!
What trimming leaves of a text. A trimmed text is one whose first and last characters are kept, so
trimming twice, or trimming one end first, changes nothing. The words of a text do not depend on
the white space around it, and words that are joined by single spaces are read back as they were.
-/

namespace SambaShares.Text

variable {drop : Char → Bool}

theorem stripEnd_append_of_all {rest : Text} (text : Text) (dropped : ∀ c ∈ rest, drop c = true) :
    stripEnd drop (text ++ rest) = stripEnd drop text := by
  unfold stripEnd
  rw [List.reverse_append, List.dropWhile_append_of_pos]
  intro c inside
  exact dropped c (List.mem_reverse.1 inside)

/-- Nothing in front of a kept character is dropped from the end. -/
theorem stripEnd_append_cons {c : Char} (front rest : Text) (kept : drop c = false) :
    stripEnd drop (front ++ c :: rest) = front ++ c :: stripEnd drop rest := by
  have stop : (c :: front.reverse).dropWhile drop = c :: front.reverse :=
    List.dropWhile_cons_of_neg (by simp [kept])
  have shape : (front ++ c :: rest).reverse = rest.reverse ++ c :: front.reverse := by simp
  unfold stripEnd
  rw [shape, List.dropWhile_append, stop]
  split
  · next none => simp [List.isEmpty_iff.1 none]
  · simp

theorem stripEnd_cons {c : Char} (rest : Text) (kept : drop c = false) :
    stripEnd drop (c :: rest) = c :: stripEnd drop rest :=
  stripEnd_append_cons [] rest kept

theorem stripEnd_sublist (text : Text) : (stripEnd drop text).Sublist text :=
  (List.rdropWhile_prefix drop text).sublist

theorem stripEnd_eq_self {text : Text} (last : ∀ c ∈ text.getLast?, drop c = false) :
    stripEnd drop text = text := by
  rcases List.eq_nil_or_concat text with rfl | ⟨front, c, rfl⟩
  · rfl
  · rw [List.concat_eq_append] at last ⊢
    exact stripEnd_append_cons front [] (last c (by simp))

theorem strip_sublist (text : Text) : (strip drop text).Sublist text :=
  (stripEnd_sublist _).trans (List.dropWhile_sublist drop)

theorem mem_of_mem_strip {text : Text} {c : Char} (inside : c ∈ strip drop text) : c ∈ text :=
  (strip_sublist text).subset inside

theorem strip_append_of_all_left {front : Text} (text : Text) (dropped : ∀ c ∈ front, drop c = true) :
    strip drop (front ++ text) = strip drop text := by
  unfold strip
  rw [List.dropWhile_append_of_pos dropped]

theorem strip_cons {c : Char} (rest : Text) (kept : drop c = false) :
    strip drop (c :: rest) = c :: stripEnd drop rest := by
  have stop : (c :: rest).dropWhile drop = c :: rest :=
    List.dropWhile_cons_of_neg (by simp [kept])
  rw [strip, stop, stripEnd_cons rest kept]

theorem strip_eq_nil_of_all {text : Text} (dropped : ∀ c ∈ text, drop c = true) :
    strip drop text = [] := by
  unfold strip
  rw [List.dropWhile_eq_nil_iff.2 dropped]
  rfl

theorem strip_eq_self {text : Text} (first : ∀ c ∈ text.head?, drop c = false)
    (last : ∀ c ∈ text.getLast?, drop c = false) : strip drop text = text := by
  cases text with
  | nil => rfl
  | cons c rest =>
    rw [strip_cons rest (first c (by simp)), ← stripEnd_cons rest (first c (by simp))]
    exact stripEnd_eq_self last

/-- Whatever the text, either all of it is stripped, or a character is kept at the front. -/
theorem strip_cases (drop : Char → Bool) (text : Text) :
    (∀ c ∈ text, drop c = true) ∨
      ∃ front c rest, text = front ++ c :: rest ∧ (∀ d ∈ front, drop d = true) ∧ drop c = false := by
  induction text with
  | nil => exact Or.inl (by simp)
  | cons c rest ih =>
    by_cases dropped : drop c = true
    · rcases ih with all | ⟨front, d, later, rfl, before, kept⟩
      · exact Or.inl (by simpa [dropped] using all)
      · exact Or.inr ⟨c :: front, d, later, rfl, by simpa [dropped] using before, kept⟩
    · exact Or.inr ⟨[], c, rest, rfl, by simp, by simpa using dropped⟩

theorem strip_stripEnd (text : Text) : strip drop (stripEnd drop text) = strip drop text := by
  rcases strip_cases drop text with all | ⟨front, c, rest, rfl, before, kept⟩
  · rw [strip_eq_nil_of_all all,
      strip_eq_nil_of_all (fun c inside => all c ((stripEnd_sublist text).subset inside))]
  · have twice : stripEnd drop (stripEnd drop rest) = stripEnd drop rest :=
      List.rdropWhile_idempotent drop rest
    rw [stripEnd_append_cons front rest kept, strip_append_of_all_left _ before,
      strip_append_of_all_left _ before, strip_cons _ kept, strip_cons _ kept, twice]

theorem not_drop_of_head?_strip {text : Text} {c : Char} (first : c ∈ (strip drop text).head?) :
    drop c = false := by
  rcases strip_cases drop text with all | ⟨front, d, rest, rfl, before, kept⟩
  · simp [strip_eq_nil_of_all all] at first
  · rw [strip_append_of_all_left _ before, strip_cons rest kept] at first
    simp only [List.head?_cons, Option.mem_def, Option.some.injEq] at first
    exact first ▸ kept

theorem not_drop_of_getLast?_stripEnd {text : Text} {c : Char}
    (last : c ∈ (stripEnd drop text).getLast?) : drop c = false := by
  have some : stripEnd drop text ≠ [] := by
    intro none
    simp [none] at last
  rw [Option.mem_def, List.getLast?_eq_some_getLast some, Option.some.injEq] at last
  subst last
  exact Bool.not_eq_true _ ▸ List.rdropWhile_last_not drop text some

theorem strip_eq_self_iff {text : Text} : strip drop text = text ↔
    (∀ c ∈ text.head?, drop c = false) ∧ ∀ c ∈ text.getLast?, drop c = false := by
  constructor
  · intro same
    rw [← same]
    exact ⟨fun _ => not_drop_of_head?_strip, fun _ => not_drop_of_getLast?_stripEnd⟩
  · intro kept
    exact strip_eq_self kept.1 kept.2

/-- A stripped text stays as it is when less is stripped. -/
theorem strip_strip_of_imp {fewer : Char → Bool} (text : Text)
    (less : ∀ c, fewer c = true → drop c = true) :
    strip fewer (strip drop text) = strip drop text := by
  have keeps : ∀ c, drop c = false → fewer c = false := by
    intro c kept
    by_contra strips
    rw [Bool.not_eq_false] at strips
    rw [less c strips] at kept
    cases kept
  apply strip_eq_self
  · intro c first
    exact keeps c (not_drop_of_head?_strip first)
  · intro c last
    exact keeps c (not_drop_of_getLast?_stripEnd last)

@[simp] theorem trim_trim (text : Text) : text.trim.trim = text.trim :=
  strip_strip_of_imp text (fun _ same => same)

@[simp] theorem trim_trimEnd (text : Text) : text.trimEnd.trim = text.trim := strip_stripEnd text

theorem trim_append_of_blank {front : Text} (text : Text) (blank : ∀ c ∈ front, isBlank c = true) :
    trim (front ++ text) = trim text := strip_append_of_all_left text blank

theorem words_append_cons {c : Char} (front rest : Text) (blank : isBlank c = true) :
    words (front ++ c :: rest) = words front ++ words rest := by
  rw [words, List.splitOnP_append_cons front rest blank, List.filter_append]
  rfl

theorem words_cons_of_blank {c : Char} (text : Text) (blank : isBlank c = true) :
    words (c :: text) = words text :=
  words_append_cons [] text blank

theorem words_concat_of_blank {c : Char} (text : Text) (blank : isBlank c = true) :
    words (text ++ [c]) = words text :=
  (words_append_cons text [] blank).trans (List.append_nil _)

theorem words_dropWhile (text : Text) : words (text.dropWhile isBlank) = words text := by
  induction text with
  | nil => rfl
  | cons c rest ih =>
    by_cases blank : isBlank c = true
    · rw [List.dropWhile_cons_of_pos blank, ih, words_cons_of_blank rest blank]
    · rw [List.dropWhile_cons_of_neg blank]

theorem words_trimEnd (text : Text) : words text.trimEnd = words text := by
  induction text using List.reverseRecOn with
  | nil => rfl
  | append_singleton front c ih =>
    by_cases blank : isBlank c = true
    · have dropped : trimEnd (front ++ [c]) = trimEnd front :=
        stripEnd_append_of_all front (by simpa using blank)
      rw [dropped, ih, words_concat_of_blank front blank]
    · have kept : trimEnd (front ++ [c]) = front ++ [c] :=
        stripEnd_append_cons front [] (by simpa using blank)
      rw [kept]

@[simp] theorem words_trim (text : Text) : words text.trim = words text :=
  (words_trimEnd (text.dropWhile isBlank)).trans (words_dropWhile text)

theorem clean_of_mem_words {text word : Text} (member : word ∈ words text) :
    word ≠ [] ∧ ∀ c ∈ word, isBlank c = false := by
  obtain ⟨piece, some⟩ := List.mem_filter.1 member
  exact ⟨by simpa using some, fun _ inside => (of_mem_splitOnP piece inside).1⟩

theorem words_eq_singleton {word : Text} (some : word ≠ [])
    (clean : ∀ c ∈ word, isBlank c = false) : words word = [word] := by
  rw [words, List.splitOnP_eq_singleton clean]
  simpa using some

/-- Joining words by single spaces loses none of them. -/
theorem words_intercalate {given : List Text}
    (clean : ∀ word ∈ given, word ≠ [] ∧ ∀ c ∈ word, isBlank c = false) :
    words ([' '].intercalate given) = given := by
  induction given with
  | nil => rfl
  | cons first others ih =>
    obtain ⟨⟨some, firstClean⟩, rest⟩ := List.forall_mem_cons.1 clean
    have alone := words_eq_singleton some firstClean
    by_cases none : others = []
    · rw [none, List.intercalate_singleton, alone]
    · rw [List.intercalate_cons_of_ne_nil none, List.append_assoc, List.singleton_append,
        words_append_cons _ _ (by decide), alone, ih rest, List.singleton_append]

theorem mem_intercalate {separator : Text} {given : List Text} {c : Char}
    (inside : c ∈ separator.intercalate given) : c ∈ separator ∨ ∃ piece ∈ given, c ∈ piece := by
  induction given with
  | nil => cases inside
  | cons first others ih =>
    by_cases none : others = []
    · rw [none, List.intercalate_singleton] at inside
      exact Or.inr ⟨first, List.mem_cons_self, inside⟩
    · rw [List.intercalate_cons_of_ne_nil none, List.mem_append, List.mem_append] at inside
      rcases inside with (here | between) | later
      · exact Or.inr ⟨first, List.mem_cons_self, here⟩
      · exact Or.inl between
      · rcases ih later with between | ⟨piece, member, inside⟩
        · exact Or.inl between
        · exact Or.inr ⟨piece, List.mem_cons_of_mem _ member, inside⟩

end SambaShares.Text
