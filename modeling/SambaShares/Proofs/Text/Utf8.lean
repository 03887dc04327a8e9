import SambaShares.Text.Utf8
/-!
Well-formed bytes are the bytes of the text that is read from them, so nothing is lost between a
file and its text in either direction.
-/

namespace SambaShares.Utf8

theorem toNat_ofNat {n : Nat} (valid : n < 0xD800 ∨ 0xDFFF < n ∧ n < 0x110000) :
    (Char.ofNat n).toNat = n := by
  have isValid : n.isValidChar := valid
  rw [Char.ofNat, dif_pos isValid]
  rfl

theorem toUInt8_eq {n : Nat} {b : UInt8} (same : n = b.toNat) : n.toUInt8 = b := by
  subst same
  exact UInt8.ofNat_toNat

theorem continues_iff {b : UInt8} : continues b = true ↔ 0x80 ≤ b.toNat ∧ b.toNat ≤ 0xBF := by
  simp [continues]

theorem secondOfThree_bounds {first second : Nat} (allowed : secondOfThree first second = true) :
    0x80 ≤ second ∧ second ≤ 0xBF ∧ (first = 0xE0 → 0xA0 ≤ second) ∧
      (first = 0xED → second ≤ 0x9F) := by
  unfold secondOfThree at allowed
  split at allowed
  · simp at allowed; omega
  · split at allowed <;> simp at allowed <;> omega

theorem secondOfFour_bounds {first second : Nat} (allowed : secondOfFour first second = true) :
    0x80 ≤ second ∧ second ≤ 0xBF ∧ (first = 0xF0 → 0x90 ≤ second) ∧
      (first = 0xF4 → second ≤ 0x8F) := by
  unfold secondOfFour at allowed
  split at allowed
  · simp at allowed; omega
  · split at allowed <;> simp at allowed <;> omega

theorem encodeChar_of_twoBytes {first : UInt8} {rest after : Bytes} {c : Char}
    (low : 0xC2 ≤ first.toNat) (high : first.toNat < 0xE0)
    (read : twoBytes first.toNat rest = (.char c, after)) :
    encodeChar c ++ after = first :: rest := by
  unfold twoBytes at read
  split at read
  · cases read
  · next b tail =>
    split at read
    · next fits =>
      rw [continues_iff] at fits
      simp only [Prod.mk.injEq, Piece.char.injEq] at read
      obtain ⟨rfl, rfl⟩ := read
      have value := @toNat_ofNat ((first.toNat - 0xC0) * 0x40 + (b.toNat - 0x80)) (by omega)
      simp only [encodeChar, value]
      rw [if_neg (by omega), if_pos (by omega), toUInt8_eq (b := first) (by omega),
        toUInt8_eq (b := b) (by omega)]
      rfl
    · cases read

theorem encodeChar_of_threeBytes {first : UInt8} {rest after : Bytes} {c : Char}
    (low : 0xE0 ≤ first.toNat) (high : first.toNat < 0xF0)
    (read : threeBytes first.toNat rest = (.char c, after)) :
    encodeChar c ++ after = first :: rest := by
  unfold threeBytes at read
  split at read
  · cases read
  · split at read <;> cases read
  · next b d tail =>
    split at read
    · cases read
    split at read
    · cases read
    · next allowed fits =>
      have second := secondOfThree_bounds (by simpa using allowed)
      have third := continues_iff.1 (by simpa using fits)
      simp only [Prod.mk.injEq, Piece.char.injEq] at read
      obtain ⟨rfl, rfl⟩ := read
      have value := @toNat_ofNat ((first.toNat - 0xE0) * 0x1000 + (b.toNat - 0x80) * 0x40 +
        (d.toNat - 0x80)) (by omega)
      simp only [encodeChar, value]
      rw [if_neg (by omega), if_neg (by omega), if_pos (by omega),
        toUInt8_eq (b := first) (by omega), toUInt8_eq (b := b) (by omega),
        toUInt8_eq (b := d) (by omega)]
      rfl

theorem encodeChar_of_fourBytes {first : UInt8} {rest after : Bytes} {c : Char}
    (low : 0xF0 ≤ first.toNat) (high : first.toNat < 0xF5)
    (read : fourBytes first.toNat rest = (.char c, after)) :
    encodeChar c ++ after = first :: rest := by
  unfold fourBytes at read
  split at read
  · cases read
  · split at read <;> cases read
  · split at read
    · cases read
    · split at read <;> cases read
  · next b d e tail =>
    split at read
    · cases read
    split at read
    · cases read
    split at read
    · cases read
    · next allowed fits ends =>
      have second := secondOfFour_bounds (by simpa using allowed)
      have third := continues_iff.1 (by simpa using fits)
      have fourth := continues_iff.1 (by simpa using ends)
      simp only [Prod.mk.injEq, Piece.char.injEq] at read
      obtain ⟨rfl, rfl⟩ := read
      have value := @toNat_ofNat ((first.toNat - 0xF0) * 0x40000 + (b.toNat - 0x80) * 0x1000 +
        (d.toNat - 0x80) * 0x40 + (e.toNat - 0x80)) (by omega)
      simp only [encodeChar, value]
      rw [if_neg (by omega), if_neg (by omega), if_neg (by omega),
        toUInt8_eq (b := first) (by omega), toUInt8_eq (b := b) (by omega),
        toUInt8_eq (b := d) (by omega), toUInt8_eq (b := e) (by omega)]
      rfl

/-- A character is read from exactly its own bytes. -/
theorem encodeChar_of_next {first : UInt8} {rest after : Bytes} {c : Char}
    (read : next first rest = (.char c, after)) : encodeChar c ++ after = first :: rest := by
  unfold next at read
  dsimp only at read
  split at read
  · next small =>
    simp only [Prod.mk.injEq, Piece.char.injEq] at read
    obtain ⟨rfl, rfl⟩ := read
    have value := @toNat_ofNat first.toNat (by omega)
    simp only [encodeChar, value]
    rw [if_pos small, toUInt8_eq (b := first) rfl]
    rfl
  split at read
  · cases read
  split at read
  · exact encodeChar_of_twoBytes (by omega) (by omega) read
  split at read
  · exact encodeChar_of_threeBytes (by omega) (by omega) read
  split at read
  · exact encodeChar_of_fourBytes (by omega) (by omega) read
  · cases read

/-- Writing the text that was read from bytes gives these bytes. -/
theorem encode_of_decode {bytes : Bytes} {text : Text} (read : decode bytes = .ok text) :
    encode text = bytes := by
  unfold decode at read
  generalize 0 = before at read
  fun_induction pieces bytes generalizing before text with
  | case1 =>
    cases read
    rfl
  | case2 first rest ih =>
    rcases piece : next first rest with ⟨found, after⟩
    rw [piece] at read ih
    cases found with
    | junk length => cases read
    | char c =>
      simp only [charsOf] at read
      split at read
      · next later same =>
        cases read
        have whole := encodeChar_of_next piece
        rw [encode, List.flatMap_cons, ← encode, ih _ same, whole]
      · cases read

theorem encode_eq_nil_iff {text : Text} : encode text = [] ↔ text = [] := by
  constructor
  · intro empty
    have same : encode text = encode [] := empty
    have read := decode_encode text
    rw [same, decode_encode] at read
    exact (Except.ok.inj read).symm
  · rintro rfl
    rfl

end SambaShares.Utf8
