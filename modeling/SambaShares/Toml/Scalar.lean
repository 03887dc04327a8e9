import SambaShares.Toml.Strings
/-!
The TOML values that are one word: numbers, truth values and points in time.
-/

namespace SambaShares.Toml

/-- A character of such a word. -/
def isWordChar (c : Char) : Bool :=
  c.isAlphanum || c == '_' || c == '+' || c == '-' || c == '.' || c == ':'

/-- Digits with single underscores between them. -/
def isGrouped (isDigit : Char → Bool) : Text → Bool
  | [] => false
  | [c] => isDigit c
  | c :: '_' :: rest => isDigit c && isGrouped isDigit rest
  | c :: rest => isDigit c && isGrouped isDigit rest

/-- The number with these digits in a base, underscores left out. -/
def groupedValue (base : Nat) (digits : Text) : Nat :=
  digits.foldl (fun high c => match hexDigit? c with
    | some digit => high * base + digit
    | none => high) 0

/-- A decimal number without sign; no zero stands before its other digits. -/
def isDecimal (digits : Text) : Bool :=
  isGrouped Char.isDigit digits && (digits.head? != some '0' || digits.length == 1)

/-- The sign of a number and what follows it. -/
def signOf : Text → Bool × Text
  | '+' :: rest => (false, rest)
  | '-' :: rest => (true, rest)
  | text => (false, text)

/-- An integer, if it fits into 64 bits with its sign. -/
def integer? (word : Text) : Option Int :=
  let within (n : Int) : Option Int :=
    if -(integerLimit : Int) ≤ n ∧ n < integerLimit then some n else none
  match word with
  | '0' :: 'x' :: digits =>
    if isGrouped (fun c => (hexDigit? c).isSome) digits then within (groupedValue 16 digits)
    else none
  | '0' :: 'o' :: digits =>
    if isGrouped (fun c => '0' ≤ c ∧ c ≤ '7') digits then within (groupedValue 8 digits) else none
  | '0' :: 'b' :: digits =>
    if isGrouped (fun c => c == '0' || c == '1') digits then within (groupedValue 2 digits)
    else none
  | word =>
    let (negative, digits) := signOf word
    if isDecimal digits then
      within (if negative then -(groupedValue 10 digits : Int) else groupedValue 10 digits)
    else none

/-- The exponent after a number, 0 if there is none. -/
def exponent? : Text → Option Int
  | [] => some 0
  | e :: rest =>
    let (negative, digits) := signOf rest
    if (e == 'e' || e == 'E') && isGrouped Char.isDigit digits then
      some (if negative then -(groupedValue 10 digits : Int) else groupedValue 10 digits)
    else none

/-- Whether `m · 10 ^ e` is too large for a number of double precision. -/
def tooLarge (m : Nat) (e : Int) : Bool :=
  let size := ((Text.ofNat m).length : Int) + e
  if m == 0 || size < 300 then false
  else if 320 < size then true
  else Nat.pow 2 1024 - Nat.pow 2 970 ≤ m * Nat.pow 10 e.toNat / Nat.pow 10 (-e).toNat

/-- Whether a word is a number with a fraction or an exponent. A positive one must not be too
large. -/
def isFraction (word : Text) : Bool :=
  let (negative, body) := signOf word
  let isPart (c : Char) : Bool := c.isDigit || c == '_'
  let whole := body.takeWhile isPart
  let fits (digits : Text) (places : Nat) (exponent : Int) : Bool :=
    negative || !tooLarge (groupedValue 10 digits) (exponent - places)
  if body == "inf".toList || body == "nan".toList then true
  else isDecimal whole && match body.dropWhile isPart with
    | [] => false
    | '.' :: rest =>
      let fraction := rest.takeWhile isPart
      isGrouped Char.isDigit fraction && match exponent? (rest.dropWhile isPart) with
        | some e => fits (whole ++ fraction) (fraction.filter Char.isDigit).length e
        | none => false
    | rest =>
      match exponent? rest with
      | some e => fits whole 0 e
      | none => false

def twoDigits? : Char → Char → Option Nat
  | a, b => if a.isDigit && b.isDigit then
      some ((a.toNat - '0'.toNat) * 10 + (b.toNat - '0'.toNat)) else none

def daysIn (year month : Nat) : Nat :=
  if month == 2 then
    if year % 4 == 0 && (year % 100 != 0 || year % 400 == 0) then 29 else 28
  else if month == 4 || month == 6 || month == 9 || month == 11 then 30
  else 31

/-- Whether a word is a date that exists. -/
def isDate : Text → Bool
  | [a, b, c, d, '-', e, f, '-', g, h] =>
    match twoDigits? a b, twoDigits? c d, twoDigits? e f, twoDigits? g h with
    | some century, some year, some month, some day =>
      1 ≤ month && month ≤ 12 && 1 ≤ day && day ≤ daysIn (century * 100 + year) month
    | _, _, _, _ => false
  | _ => false

/-- What follows a time of day at the start of a text. -/
def afterTime? : Text → Option Text
  | a :: b :: ':' :: c :: d :: ':' :: e :: f :: rest =>
    match twoDigits? a b, twoDigits? c d, twoDigits? e f with
    | some hour, some minute, some second =>
      if hour ≤ 23 && minute ≤ 59 && second ≤ 60 then
        match rest with
        | '.' :: fraction =>
          if (fraction.takeWhile Char.isDigit).isEmpty then none
          else some (fraction.dropWhile Char.isDigit)
        | rest => some rest
      else none
    | _, _, _ => none
  | _ => none

/-- Whether a text is empty or the distance from universal time. -/
def isOffset : Text → Bool
  | [] => true
  | [z] => z == 'Z' || z == 'z'
  | [sign, a, b, ':', c, d] =>
    (sign == '+' || sign == '-') && match twoDigits? a b, twoDigits? c d with
      | some hour, some minute => hour ≤ 23 && minute ≤ 59
      | _, _ => false
  | _ => false

/-- Whether a word is a time of day with or without a distance from universal time. -/
def isTime (word : Text) : Bool :=
  match afterTime? word with
  | some rest => isOffset rest
  | none => false

/-- Whether a word is a date with a time, or a time alone. -/
def isMoment (word : Text) : Bool :=
  afterTime? word == some [] ||
    (isDate (word.take 10) && match word.drop 10 with
      | t :: time => (t == 'T' || t == 't') && isTime time
      | [] => true)

def ofWord? (word : Text) : Option Item :=
  if word == "true".toList then some (.boolean true)
  else if word == "false".toList then some (.boolean false)
  else if isMoment word then some .moment
  else match integer? word with
    | some n => some (.integer n)
    | none => if isFraction word then some .fraction else none

/-- The value of the word at the start of a text, and what follows. A blank may stand between a
date and its time. -/
def scalar? (text : Text) : Option (Item × Text) :=
  let word := text.takeWhile isWordChar
  let rest := text.dropWhile isWordChar
  match rest with
  | ' ' :: more =>
    if isDate word && isTime (more.takeWhile isWordChar) then
      some (.moment, more.dropWhile isWordChar)
    else (ofWord? word).map (·, rest)
  | _ => (ofWord? word).map (·, rest)

end SambaShares.Toml
