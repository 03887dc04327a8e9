import SambaShares.Stamp
/-!
What a point in time is written with: digits, one underscore and one point.
-/

namespace SambaShares

theorem Text.isDigit_of_mem_padded {width n : Nat} {c : Char} (member : c ∈ padded width n) :
    c.isDigit = true := by
  rcases List.mem_append.1 member with zero | digit
  · rw [(List.mem_replicate.1 zero).2]
    rfl
  · exact Nat.isDigit_of_mem_toDigits (by decide) (by decide) digit

theorem Stamp.mem_text {time : Nat} {c : Char} (member : c ∈ text time) :
    c.isDigit = true ∨ c = '_' ∨ c = '.' := by
  simp only [text, List.mem_append, List.mem_singleton] at member
  rcases member with (((((((year | month) | day) | rfl) | hour) | minute) | second) | rfl) | micro
  · exact Or.inl (Text.isDigit_of_mem_padded year)
  · exact Or.inl (Text.isDigit_of_mem_padded month)
  · exact Or.inl (Text.isDigit_of_mem_padded day)
  · exact Or.inr (Or.inl rfl)
  · exact Or.inl (Text.isDigit_of_mem_padded hour)
  · exact Or.inl (Text.isDigit_of_mem_padded minute)
  · exact Or.inl (Text.isDigit_of_mem_padded second)
  · exact Or.inr (Or.inr rfl)
  · exact Or.inl (Text.isDigit_of_mem_padded micro)

/-- The name of a backup is one name, whatever the clock shows. -/
theorem Stamp.whole_text (time : Nat) : '/' ∉ text time := by
  intro slash
  have cases := mem_text slash
  revert cases
  decide

end SambaShares
