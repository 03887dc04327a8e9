import SambaShares.Proofs.Text.Order
import SambaShares.Proofs.Text.Utf8
/-!
The order of texts by code points is the order of their bytes: the bytes of two characters differ
at some place, and the first such place tells the greater character.
-/

namespace SambaShares

namespace Utf8

theorem cons_toUInt8_lt_iff {m n : Nat} (low : m < 256) (high : n < 256) {front back : Bytes} :
    m.toUInt8 :: front < n.toUInt8 :: back ↔ m < n ∨ m = n ∧ front < back := by
  rw [List.cons_lt_cons_iff, UInt8.lt_iff_toNat_lt, ← UInt8.toNat_inj, toNat_toUInt8 low,
    toNat_toUInt8 high]

/-- Whatever follows, the bytes of the smaller of two characters come first. -/
theorem encodeChar_append_lt {a b : Char} (less : a.toNat < b.toNat) (first second : Bytes) :
    encodeChar a ++ first < encodeChar b ++ second := by
  have bound := toNat_lt_or b
  unfold encodeChar
  dsimp only
  generalize a.toNat = m at less ⊢
  generalize b.toNat = n at less bound ⊢
  have digits : ∀ k, k / 0x1000 = k / 0x40 / 0x40 ∧ k / 0x40000 = k / 0x40 / 0x40 / 0x40 := by
    omega
  -- Where the lengths differ, the first byte tells the order.
  split
  · next one =>
    split
    · simp (disch := omega) only [List.cons_append, cons_toUInt8_lt_iff]
      omega
    split
    · simp (disch := omega) only [List.cons_append, cons_toUInt8_lt_iff]
      omega
    split
    · simp (disch := omega) only [List.cons_append, cons_toUInt8_lt_iff]
      omega
    · simp (disch := omega) only [List.cons_append, cons_toUInt8_lt_iff]
      omega
  split
  · next two =>
    rw [if_neg (by omega)]
    split
    · simp (disch := omega) only [List.cons_append, List.nil_append, cons_toUInt8_lt_iff]
      omega
    split
    · simp (disch := omega) only [List.cons_append, cons_toUInt8_lt_iff]
      omega
    · simp (disch := omega) only [List.cons_append, cons_toUInt8_lt_iff]
      omega
  split
  · next three =>
    rw [if_neg (by omega), if_neg (by omega)]
    split
    · simp (disch := omega) only [List.cons_append, List.nil_append, cons_toUInt8_lt_iff, digits]
      omega
    · simp (disch := omega) only [List.cons_append, cons_toUInt8_lt_iff]
      omega
  · next four =>
    rw [if_neg (by omega), if_neg (by omega), if_neg (by omega)]
    simp (disch := omega) only [List.cons_append, List.nil_append, cons_toUInt8_lt_iff, digits]
    omega

theorem encode_cons (c : Char) (text : Text) : encode (c :: text) = encodeChar c ++ encode text :=
  List.flatMap_cons

theorem encode_lt_encode {first second : Text} (less : first < second) :
    encode first < encode second := by
  induction first generalizing second with
  | nil =>
    obtain ⟨byte, bytes, shape⟩ : ∃ byte bytes, encode second = byte :: bytes := by
      refine List.exists_cons_of_ne_nil fun none => ?_
      rw [encode_eq_nil_iff.1 none] at less
      exact List.not_lt_nil _ less
    rw [shape]
    exact List.nil_lt_cons byte bytes
  | cons a rest ih =>
    cases second with
    | nil => exact absurd less (List.not_lt_nil _)
    | cons b others =>
      rw [encode_cons, encode_cons]
      rcases List.cons_lt_cons_iff.1 less with smaller | ⟨rfl, later⟩
      · exact encodeChar_append_lt smaller _ _
      · exact List.append_left_lt (ih later)

end Utf8

/-- Texts in their order, each once, are in the order of their bytes. -/
theorem Text.Sorted.bytewise {texts : List Text} (sorted : Text.Sorted texts) :
    texts.Pairwise fun first second => Utf8.encode first < Utf8.encode second :=
  (sorted.pairs.and sorted.once).imp fun both =>
    Utf8.encode_lt_encode (Text.lt_of_lessEq both.1 both.2)

end SambaShares
