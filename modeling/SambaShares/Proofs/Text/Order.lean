import SambaShares.Text.Basic
/-!
The order of texts by code points is a total order. What stands where in a sorted list is told by
the texts that come later in it.
-/

namespace SambaShares.Text

theorem lessEq_iff_not_lt {first second : Text} :
    lessEq first second = true ↔ ¬second < first := by
  simp [lessEq]

theorem lessEq_total (first second : Text) :
    (lessEq first second || lessEq second first) = true := by
  rw [Bool.or_eq_true, lessEq_iff_not_lt, lessEq_iff_not_lt]
  exact List.le_total first second

theorem lessEq_trans {first second third : Text} (low : lessEq first second = true)
    (high : lessEq second third = true) : lessEq first third = true :=
  lessEq_iff_not_lt.2 (List.le_trans (lessEq_iff_not_lt.1 low) (lessEq_iff_not_lt.1 high))

theorem lessEq_antisymm {first second : Text} (low : lessEq first second = true)
    (high : lessEq second first = true) : first = second :=
  List.le_antisymm (lessEq_iff_not_lt.1 low) (lessEq_iff_not_lt.1 high)

theorem lt_of_lessEq {first second : Text} (low : lessEq first second = true)
    (apart : first ≠ second) : first < second :=
  (List.le_iff_lt_or_eq.1 (lessEq_iff_not_lt.1 low)).resolve_right apart

/-- What two texts begin with together does not matter. -/
theorem lessEq_append_left (front first second : Text) :
    lessEq (front ++ first) (front ++ second) = lessEq first second := by
  induction front with
  | nil => rfl
  | cons c rest ih =>
    rw [← ih]
    simp [lessEq]

/-- Texts in their order, each once. -/
structure Sorted (texts : List Text) : Prop where
  pairs : texts.Pairwise fun first second => lessEq first second = true
  once : texts.Nodup

theorem sorted_cons {text : Text} {texts : List Text} :
    Sorted (text :: texts) ↔
      (∀ other ∈ texts, lessEq text other = true ∧ other ≠ text) ∧ Sorted texts := by
  constructor
  · rintro ⟨pairs, once⟩
    obtain ⟨less, pairs⟩ := List.pairwise_cons.1 pairs
    obtain ⟨new, once⟩ := List.nodup_cons.1 once
    exact ⟨fun other member => ⟨less other member, fun same => new (same ▸ member)⟩, pairs, once⟩
  · rintro ⟨later, pairs, once⟩
    refine ⟨List.pairwise_cons.2 ⟨fun other member => (later other member).1, pairs⟩,
      List.nodup_cons.2 ⟨fun member => (later text member).2 rfl, once⟩⟩

/-- What is in a sorted list tells the list. -/
theorem Sorted.eq_of_mem_iff {first second : List Text} (one : Sorted first) (two : Sorted second)
    (same : ∀ text, text ∈ first ↔ text ∈ second) : first = second :=
  List.Perm.eq_of_pairwise (fun _ _ _ _ => lessEq_antisymm) one.pairs two.pairs
    ((List.perm_ext_iff_of_nodup one.once two.once).2 same)

theorem Sorted.drop {texts : List Text} (sorted : Sorted texts) (count : Nat) :
    Sorted (texts.drop count) :=
  ⟨sorted.pairs.drop, sorted.once.sublist (List.drop_sublist _ _)⟩

/-- The texts that come after one of them. -/
def laterThan (text : Text) (texts : List Text) : List Text :=
  texts.filter fun other => !lessEq other text

theorem mem_laterThan {text other : Text} {texts : List Text} :
    other ∈ laterThan text texts ↔ other ∈ texts ∧ lessEq other text = false := by
  rw [laterThan, List.mem_filter, Bool.not_eq_true']

/-- What a cut of the list separates. -/
theorem Sorted.lessEq_eq_false {texts : List Text} (sorted : Sorted texts) {count : Nat}
    {text other : Text} (front : text ∈ texts.take count) (back : other ∈ texts.drop count) :
    lessEq other text = false := by
  obtain ⟨pairs, once⟩ := sorted
  rw [← List.take_append_drop count texts] at pairs once
  have low := (List.pairwise_append.1 pairs).2.2 text front other back
  have apart := (List.nodup_append.1 once).2.2 text front other back
  rw [← Bool.not_eq_true]
  exact fun high => apart (lessEq_antisymm low high)

/-- A text is beyond the last so many just if at least as many come after it. -/
theorem Sorted.mem_take_iff {texts : List Text} (sorted : Sorted texts) {text : Text}
    (member : text ∈ texts) (most : Nat) :
    text ∈ texts.take (texts.length - most) ↔ most ≤ (laterThan text texts).length := by
  generalize cut : texts.length - most = count
  have parts := List.take_append_drop count texts
  constructor
  · intro front
    have later : laterThan text (texts.drop count) = texts.drop count := by
      rw [laterThan, List.filter_eq_self]
      intro other back
      rw [sorted.lessEq_eq_false front back, Bool.not_false]
    have shorter : (laterThan text (texts.drop count)).length ≤ (laterThan text texts).length :=
      ((List.drop_sublist count texts).filter _).length_le
    have some := List.length_pos_of_mem front
    rw [List.length_take] at some
    rw [later, List.length_drop] at shorter
    omega
  · intro enough
    rw [← parts, List.mem_append] at member
    refine member.resolve_right fun back => ?_
    have low : laterThan text (texts.take count) = [] := by
      rw [laterThan, List.filter_eq_nil_iff]
      intro other front
      have pairs := sorted.pairs
      rw [← parts] at pairs
      simpa using (List.pairwise_append.1 pairs).2.2 other front text back
    have fewer : (laterThan text (texts.drop count)).length < (texts.drop count).length := by
      rw [laterThan, List.length_filter_lt_length_iff_exists]
      exact ⟨text, back, by simpa using lessEq_total text text⟩
    rw [laterThan, ← parts, List.filter_append, ← laterThan, low, List.nil_append,
      ← laterThan] at enough
    rw [List.length_drop] at fewer
    omega

end SambaShares.Text
