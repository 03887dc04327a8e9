import SambaShares.Text.Basic
/-!
Texts as bytes in UTF-8. `decode` accepts well-formed bytes only and says where the first
ill-formed one stands; `decodeLossy` shows each maximal ill-formed run as U+FFFD. Main
statement: reading the bytes of a text gives the text (`decode_encode`).
-/

namespace SambaShares

/-- The content of a file or of a program's output. -/
abbrev Bytes := List UInt8

namespace Utf8

/-- The bytes of one character. -/
def encodeChar (c : Char) : Bytes :=
  let n := c.toNat
  if n < 0x80 then [n.toUInt8]
  else if n < 0x800 then [(0xC0 + n / 0x40).toUInt8, (0x80 + n % 0x40).toUInt8]
  else if n < 0x10000 then
    [(0xE0 + n / 0x1000).toUInt8, (0x80 + n / 0x40 % 0x40).toUInt8, (0x80 + n % 0x40).toUInt8]
  else
    [(0xF0 + n / 0x40000).toUInt8, (0x80 + n / 0x1000 % 0x40).toUInt8,
      (0x80 + n / 0x40 % 0x40).toUInt8, (0x80 + n % 0x40).toUInt8]

def encode (text : Text) : Bytes := text.flatMap encodeChar

def size (text : Text) : Nat := (encode text).length

/-- What a run of bytes turns out to be. -/
inductive Piece
  /-- A well-formed character. -/
  | char (c : Char)
  /-- A maximal ill-formed run of so many bytes. -/
  | junk (length : Nat)
  deriving DecidableEq, Repr

/-- A byte that continues a character. -/
def continues (b : UInt8) : Bool := 0x80 ≤ b.toNat && b.toNat ≤ 0xBF

/-- The values allowed for the second byte of a character of three bytes. -/
def secondOfThree (first second : Nat) : Bool :=
  if first = 0xE0 then 0xA0 ≤ second && second ≤ 0xBF
  else if first = 0xED then 0x80 ≤ second && second ≤ 0x9F
  else 0x80 ≤ second && second ≤ 0xBF

/-- The values allowed for the second byte of a character of four bytes. -/
def secondOfFour (first second : Nat) : Bool :=
  if first = 0xF0 then 0x90 ≤ second && second ≤ 0xBF
  else if first = 0xF4 then 0x80 ≤ second && second ≤ 0x8F
  else 0x80 ≤ second && second ≤ 0xBF

def twoBytes (first : Nat) : Bytes → Piece × Bytes
  | [] => (.junk 1, [])
  | b :: rest =>
    if continues b then (.char (Char.ofNat ((first - 0xC0) * 0x40 + (b.toNat - 0x80))), rest)
    else (.junk 1, b :: rest)

def threeBytes (first : Nat) : Bytes → Piece × Bytes
  | [] => (.junk 1, [])
  | [b] => if secondOfThree first b.toNat then (.junk 2, []) else (.junk 1, [b])
  | b :: c :: rest =>
    if !secondOfThree first b.toNat then (.junk 1, b :: c :: rest)
    else if !continues c then (.junk 2, c :: rest)
    else
      (.char (Char.ofNat ((first - 0xE0) * 0x1000 + (b.toNat - 0x80) * 0x40 +
        (c.toNat - 0x80))), rest)

def fourBytes (first : Nat) : Bytes → Piece × Bytes
  | [] => (.junk 1, [])
  | [b] => if secondOfFour first b.toNat then (.junk 2, []) else (.junk 1, [b])
  | [b, c] =>
    if !secondOfFour first b.toNat then (.junk 1, [b, c])
    else if !continues c then (.junk 2, [c])
    else (.junk 3, [])
  | b :: c :: d :: rest =>
    if !secondOfFour first b.toNat then (.junk 1, b :: c :: d :: rest)
    else if !continues c then (.junk 2, c :: d :: rest)
    else if !continues d then (.junk 3, d :: rest)
    else
      (.char (Char.ofNat ((first - 0xF0) * 0x40000 + (b.toNat - 0x80) * 0x1000 +
        (c.toNat - 0x80) * 0x40 + (d.toNat - 0x80))), rest)

/-- The piece that begins with the byte `first`, and the bytes after it. An ill-formed run ends
before the first byte that could not continue it. -/
def next (first : UInt8) (rest : Bytes) : Piece × Bytes :=
  let n := first.toNat
  if n < 0x80 then (.char (Char.ofNat n), rest)
  else if n < 0xC2 then (.junk 1, rest)
  else if n < 0xE0 then twoBytes n rest
  else if n < 0xF0 then threeBytes n rest
  else if n < 0xF5 then fourBytes n rest
  else (.junk 1, rest)

theorem next_length (first : UInt8) (rest : Bytes) : (next first rest).2.length ≤ rest.length := by
  have two : ∀ n, (twoBytes n rest).2.length ≤ rest.length := by
    intro n; unfold twoBytes; grind
  have three : ∀ n, (threeBytes n rest).2.length ≤ rest.length := by
    intro n; unfold threeBytes; grind
  have four : ∀ n, (fourBytes n rest).2.length ≤ rest.length := by
    intro n; unfold fourBytes; grind
  unfold next
  grind

def pieces : Bytes → List Piece
  | [] => []
  | first :: rest => (next first rest).1 :: pieces (next first rest).2
termination_by bytes => bytes.length
decreasing_by
  have := next_length first rest
  simp only [List.length_cons]
  omega

/-- The characters of the pieces, or the number of bytes before the first ill-formed run. -/
def charsOf : List Piece → Nat → Except Nat Text
  | [], _ => .ok []
  | .junk _ :: _, before => .error before
  | .char c :: rest, before =>
    match charsOf rest (before + (encodeChar c).length) with
    | .ok text => .ok (c :: text)
    | .error offset => .error offset

/-- The text with these bytes, or the offset of the first ill-formed byte. -/
def decode (bytes : Bytes) : Except Nat Text := charsOf (pieces bytes) 0

/-- The text with these bytes, each ill-formed run shown as U+FFFD. -/
def decodeLossy (bytes : Bytes) : Text :=
  (pieces bytes).map fun
    | .char c => c
    | .junk _ => '\uFFFD'

theorem toNat_toUInt8 {n : Nat} (small : n < 256) : n.toUInt8.toNat = n := by
  simp only [Nat.toUInt8, UInt8.toNat_ofNat']
  omega

theorem toNat_lt_or (c : Char) : c.toNat < 0xD800 ∨ 0xDFFF < c.toNat ∧ c.toNat < 0x110000 := by
  have valid := c.valid
  simp only [UInt32.isValidChar, Nat.isValidChar] at valid
  exact valid

theorem pieces_encodeChar (c : Char) (rest : Bytes) :
    pieces (encodeChar c ++ rest) = .char c :: pieces rest := by
  have valid := toNat_lt_or c
  have same : Char.ofNat c.toNat = c := Char.ofNat_toNat c
  unfold encodeChar
  simp only
  split
  · next small =>
    have first : c.toNat.toUInt8.toNat = c.toNat := toNat_toUInt8 (by omega)
    simp only [List.cons_append, List.nil_append, pieces, next, first]
    rw [if_pos small, same]
  split
  · next large small =>
    have first : (0xC0 + c.toNat / 0x40).toUInt8.toNat = 0xC0 + c.toNat / 0x40 :=
      toNat_toUInt8 (by omega)
    have second : (0x80 + c.toNat % 0x40).toUInt8.toNat = 0x80 + c.toNat % 0x40 :=
      toNat_toUInt8 (by omega)
    simp only [List.cons_append, List.nil_append, pieces, next, first, twoBytes, second, continues]
    rw [if_neg (by omega), if_neg (by omega), if_pos (by omega), if_pos (by simp; omega)]
    rw [show (0xC0 + c.toNat / 0x40 - 0xC0) * 0x40 + (0x80 + c.toNat % 0x40 - 0x80) = c.toNat by
      omega, same]
  split
  · next large medium small =>
    have first : (0xE0 + c.toNat / 0x1000).toUInt8.toNat = 0xE0 + c.toNat / 0x1000 :=
      toNat_toUInt8 (by omega)
    have second : (0x80 + c.toNat / 0x40 % 0x40).toUInt8.toNat = 0x80 + c.toNat / 0x40 % 0x40 :=
      toNat_toUInt8 (by omega)
    have third : (0x80 + c.toNat % 0x40).toUInt8.toNat = 0x80 + c.toNat % 0x40 :=
      toNat_toUInt8 (by omega)
    have fits : secondOfThree (0xE0 + c.toNat / 0x1000) (0x80 + c.toNat / 0x40 % 0x40) = true := by
      unfold secondOfThree
      split
      · simp; omega
      · split <;> simp <;> omega
    have ends : (0x80 ≤ 0x80 + c.toNat % 0x40 && 0x80 + c.toNat % 0x40 ≤ 0xBF : Bool) = true := by
      simp; omega
    simp only [List.cons_append, List.nil_append, pieces, next, first, threeBytes, second, third,
      continues, fits, ends]
    rw [if_neg (by omega), if_neg (by omega), if_neg (by omega), if_pos (by omega)]
    rw [show (0xE0 + c.toNat / 0x1000 - 0xE0) * 0x1000 +
      (0x80 + c.toNat / 0x40 % 0x40 - 0x80) * 0x40 + (0x80 + c.toNat % 0x40 - 0x80) = c.toNat by
      omega, same]
    simp
  · next large medium wide =>
    have first : (0xF0 + c.toNat / 0x40000).toUInt8.toNat = 0xF0 + c.toNat / 0x40000 :=
      toNat_toUInt8 (by omega)
    have second : (0x80 + c.toNat / 0x1000 % 0x40).toUInt8.toNat =
        0x80 + c.toNat / 0x1000 % 0x40 := toNat_toUInt8 (by omega)
    have third : (0x80 + c.toNat / 0x40 % 0x40).toUInt8.toNat = 0x80 + c.toNat / 0x40 % 0x40 :=
      toNat_toUInt8 (by omega)
    have fourth : (0x80 + c.toNat % 0x40).toUInt8.toNat = 0x80 + c.toNat % 0x40 :=
      toNat_toUInt8 (by omega)
    have fits :
        secondOfFour (0xF0 + c.toNat / 0x40000) (0x80 + c.toNat / 0x1000 % 0x40) = true := by
      unfold secondOfFour
      split
      · simp; omega
      · split <;> simp <;> omega
    have goes : (0x80 ≤ 0x80 + c.toNat / 0x40 % 0x40 &&
        0x80 + c.toNat / 0x40 % 0x40 ≤ 0xBF : Bool) = true := by simp; omega
    have ends : (0x80 ≤ 0x80 + c.toNat % 0x40 && 0x80 + c.toNat % 0x40 ≤ 0xBF : Bool) = true := by
      simp; omega
    simp only [List.cons_append, List.nil_append, pieces, next, first, fourBytes, second, third,
      fourth, continues, fits, goes, ends]
    rw [if_neg (by omega), if_neg (by omega), if_neg (by omega), if_neg (by omega),
      if_pos (by omega)]
    rw [show (0xF0 + c.toNat / 0x40000 - 0xF0) * 0x40000 +
      (0x80 + c.toNat / 0x1000 % 0x40 - 0x80) * 0x1000 +
      (0x80 + c.toNat / 0x40 % 0x40 - 0x80) * 0x40 + (0x80 + c.toNat % 0x40 - 0x80) =
      c.toNat by omega, same]
    simp

theorem pieces_encode (text : Text) : pieces (encode text) = text.map .char := by
  induction text with
  | nil => simp [encode, pieces]
  | cons c rest ih => simp only [encode, List.flatMap_cons] at ih ⊢; simp [pieces_encodeChar, ih]

@[simp] theorem decode_encode (text : Text) : decode (encode text) = .ok text := by
  have all : ∀ before, charsOf (text.map .char) before = .ok text := by
    induction text with
    | nil => intro before; rfl
    | cons c rest ih => intro before; simp [charsOf, ih]
  simp [decode, pieces_encode, all]

end Utf8

end SambaShares
