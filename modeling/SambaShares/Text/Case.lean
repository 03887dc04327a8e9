import SambaShares.Text.Basic
/-!
Comparison of texts up to the case of the ASCII letters. Other letters are compared exactly,
as the file server compares section names.
-/

namespace SambaShares.Text

/-- The text with its ASCII capitals made small. -/
def fold (text : Text) : Text := text.map Char.toLower

/-- Equality up to the case of ASCII letters. -/
def sameName (a b : Text) : Bool := fold a == fold b

@[simp] theorem sameName_refl (a : Text) : sameName a a = true := by simp [sameName]

theorem ne_of_sameName_eq_false {a b : Text} (apart : sameName a b = false) : a ≠ b := by
  rintro rfl
  rw [sameName_refl] at apart
  cases apart

theorem sameName_comm (a b : Text) : sameName a b = sameName b a := by
  simp only [sameName]
  exact Bool.beq_comm

end SambaShares.Text
