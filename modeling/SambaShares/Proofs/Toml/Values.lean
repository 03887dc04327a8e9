import SambaShares.Proofs.Toml.Strings
import SambaShares.Toml.Reader
/-!
Values are read as they were written: numbers, truth values, strings and lists of strings. Each reader
stops where the value ends, so what is said of a value holds whatever follows it in the file.
-/

namespace SambaShares.Toml

variable {c : Char} {text rest word digits : Text}

theorem hexDigit?_of_isDigit (digit : c.isDigit = true) :
    hexDigit? c = some (c.toNat - '0'.toNat) := by
  simp only [Char.isDigit, Bool.and_eq_true, decide_eq_true_eq] at digit
  exact if_pos digit

theorem groupedValue_of_digits (all : ∀ c ∈ digits, c.isDigit = true) :
    groupedValue 10 digits = Nat.ofDigitChars 10 digits 0 := by
  rw [Nat.ofDigitChars_eq_foldl, groupedValue]
  generalize 0 = high
  induction digits generalizing high with
  | nil => rfl
  | cons c tail ih =>
    rw [List.foldl_cons, List.foldl_cons, hexDigit?_of_isDigit (all c List.mem_cons_self), Nat.mul_comm]
    exact ih (fun d member => all d (List.mem_cons_of_mem c member)) _

theorem isGrouped_of_digits (all : ∀ c ∈ digits, c.isDigit = true) (some : digits ≠ []) :
    isGrouped Char.isDigit digits = true := by
  induction digits with
  | nil => exact absurd rfl some
  | cons c tail ih =>
    have first := all c List.mem_cons_self
    have later := fun d member => all d (List.mem_cons_of_mem c member)
    cases tail with
    | nil => exact first
    | cons d more =>
      have digit := later d List.mem_cons_self
      rw [isGrouped.eq_def]
      split
      · next shape => cases shape
      · next shape => cases shape
      · next shape => cases shape; cases digit
      · next shape => cases shape; rw [first, ih later (by simp)]; rfl

theorem isDigit_of_mem_ofNat {n : Nat} (member : c ∈ Text.ofNat n) : c.isDigit = true :=
  Nat.isDigit_of_mem_toDigits (by decide) (by decide) member

/-- A number does not start with a zero, unless it is zero. -/
theorem head?_ofNat {n : Nat} (some : 0 < n) : (Text.ofNat n).head? ≠ .some '0' := by
  induction n using Nat.strongRecOn with
  | ind n ih =>
    unfold Text.ofNat at ih ⊢
    by_cases small : n < 10
    · have all : ∀ n < 10, 0 < n → (Nat.toDigits 10 n).head? ≠ .some '0' := by decide
      exact all n small some
    · have digits := Nat.toDigits_of_base_le (show 1 < 10 by decide) (Nat.not_lt.1 small)
      obtain ⟨c, tail, shape⟩ := List.exists_cons_of_ne_nil (@Nat.toDigits_ne_nil (n / 10) 10)
      have later := ih (n / 10) (by omega) (by omega)
      rw [shape] at digits later
      rw [digits]
      exact later

theorem isDecimal_ofNat (n : Nat) : isDecimal (Text.ofNat n) = true := by
  unfold isDecimal
  rw [isGrouped_of_digits (fun _ => isDigit_of_mem_ofNat) Nat.toDigits_ne_nil, Bool.true_and]
  rcases Nat.eq_zero_or_pos n with rfl | some
  · rfl
  · rw [bne_iff_ne.2 (head?_ofNat some), Bool.true_or]

theorem integer?_ofNat {n : Nat} (fits : n < integerLimit) : integer? (Text.ofNat n) = some ↑n := by
  have all : ∀ c ∈ Text.ofNat n, c.isDigit = true := fun _ => isDigit_of_mem_ofNat
  have value : groupedValue 10 (Text.ofNat n) = n :=
    (groupedValue_of_digits all).trans Nat.ofDigitChars_ten_toDigits
  have decimal := isDecimal_ofNat n
  have within : -(integerLimit : Int) ≤ (n : Int) ∧ (n : Int) < integerLimit := by omega
  generalize Text.ofNat n = word at all value decimal
  unfold integer?
  split
  · cases all 'x' (by simp)
  · cases all 'o' (by simp)
  · cases all 'b' (by simp)
  · have sign : signOf word = (false, word) := by
      unfold signOf
      split
      · cases all '+' (by simp)
      · cases all '-' (by simp)
      · rfl
    simp only [sign, decimal, value, if_true, Bool.false_eq_true, if_false]
    exact if_pos within

theorem isMoment_of_digits (all : ∀ c ∈ digits, c.isDigit = true) : isMoment digits = false := by
  have time : afterTime? digits = none := by
    unfold afterTime?
    split
    · cases all ':' (by simp)
    · rfl
  have date : isDate (digits.take 10) = false := by
    have still : ∀ c ∈ digits.take 10, c.isDigit = true := fun c member =>
      all c (List.mem_of_mem_take member)
    generalize digits.take 10 = word at still
    unfold isDate
    split
    · cases still '-' (by simp)
    · rfl
  rw [isMoment, time, date]
  rfl

theorem ofWord?_ofNat {n : Nat} (fits : n < integerLimit) :
    ofWord? (Text.ofNat n) = some (.integer n) := by
  have all : ∀ c ∈ Text.ofNat n, c.isDigit = true := fun _ => isDigit_of_mem_ofNat
  have number := integer?_ofNat fits
  generalize Text.ofNat n = word at all number
  unfold ofWord?
  split
  · next same =>
    rw [beq_iff_eq] at same
    cases all 't' (by rw [same]; decide)
  split
  · next same =>
    rw [beq_iff_eq] at same
    cases all 'f' (by rw [same]; decide)
  rw [isMoment_of_digits all, number]
  rfl

theorem isWordChar_of_isDigit (digit : c.isDigit = true) : isWordChar c = true := by
  simp [isWordChar, Char.isAlphanum, digit]

theorem scalar?_word (all : ∀ c ∈ word, isWordChar c = true) (rest : Text) :
    scalar? (word ++ '\n' :: rest) = (ofWord? word).map fun item => (item, '\n' :: rest) := by
  have whole : (word ++ '\n' :: rest).takeWhile isWordChar = word := by
    rw [List.takeWhile_append_of_pos all, List.takeWhile_cons_of_neg (by decide), List.append_nil]
  have after : (word ++ '\n' :: rest).dropWhile isWordChar = '\n' :: rest := by
    rw [List.dropWhile_append_of_pos all, List.dropWhile_cons_of_neg (by decide)]
  unfold scalar?
  simp only [whole, after]
  rfl

/-- A word is read as one whatever may stand inside other values. -/
theorem valueWith?_word (inner? : Option (Text → Option (Item × Text))) (given : word ≠ [])
    (all : ∀ c ∈ word, isWordChar c = true) (rest : Text) :
    valueWith? inner? (word ++ '\n' :: rest) =
      (ofWord? word).map fun item => (item, '\n' :: rest) := by
  rw [← scalar?_word all]
  obtain ⟨c, tail, rfl⟩ := List.exists_cons_of_ne_nil given
  have first := all c List.mem_cons_self
  rw [List.cons_append, valueWith?.eq_def]
  split
  · next shape => cases shape; cases first
  · next shape => cases shape; cases first
  · split
    · next shape => cases shape; cases first
    · next shape => cases shape; cases first
    · rfl

theorem writeString_eq_cons (text : Text) : ∃ quote body, writeString text = quote :: body ∧
    (quote = '"' ∨ quote = '\'') := by
  unfold writeString
  cases Form.of text with
  | basic | longBasic => exact ⟨_, _, rfl, Or.inl rfl⟩
  | literal | longLiteral => exact ⟨_, _, rfl, Or.inr rfl⟩

theorem valueWith?_writeString (inner? : Option (Text → Option (Item × Text))) (text : Text)
    (after : NoQuote rest) :
    valueWith? inner? (writeString text ++ rest) = some (.text text, rest) := by
  have read := string?_writeString text after
  obtain ⟨quote, body, shape, rfl | rfl⟩ := writeString_eq_cons text
  all_goals
    rw [shape, List.cons_append] at read ⊢
    change (string? _).map _ = _
    rw [read]
    rfl

@[simp] theorem skipGaps_newline (text : Text) : skipGaps ('\n' :: text) = skipGaps text := by
  rw [skipGaps]
  exact if_pos (by simp)

/-- A character that no gap starts with. -/
def startsPart (c : Char) : Bool := !isSpace c && c != '\n' && c != '\r' && c != '#'

theorem skipSpace_append {spaces : Text} (blank : ∀ d ∈ spaces, isSpace d = true)
    (starts : startsPart c = true) (text : Text) : skipSpace (spaces ++ c :: text) = c :: text := by
  simp only [startsPart, Bool.and_eq_true, Bool.not_eq_true'] at starts
  rw [skipSpace, List.dropWhile_append_of_pos blank]
  exact List.dropWhile_cons_of_neg (by simp [starts.1.1.1])

theorem skipGaps_append {spaces : Text} (blank : ∀ d ∈ spaces, isSpace d = true)
    (starts : startsPart c = true) (text : Text) : skipGaps (spaces ++ c :: text) = c :: text := by
  rw [skipGaps, skipSpace_append blank starts]
  split
  · next shape => cases shape; cases starts
  · next shape => cases shape; cases starts
  · next shape => cases shape; cases starts
  · rfl

theorem skipGaps_cons (starts : startsPart c = true) (text : Text) :
    skipGaps (c :: text) = c :: text :=
  @skipGaps_append c [] (by simp) starts text

theorem skipSpace_cons (starts : startsPart c = true) (text : Text) :
    skipSpace (c :: text) = c :: text :=
  @skipSpace_append c [] (by simp) starts text

/-- The lines of a list of strings, from the second one on. -/
def stringLines (texts : List Text) : Text :=
  texts.flatMap fun text => "    ".toList ++ writeString text ++ [',', '\n']

section

variable {read : Text → Option (Item × Text)}

theorem elements?_nil (gap : skipGaps text = ']' :: rest) : elements? read text = some ([], rest) := by
  rw [elements?, gap]
  rfl

/-- The first value of an array, after which a comma stands. -/
theorem elements?_cons {start more : Text} {item : Item} (gap : skipGaps text = start)
    (goesOn : start.head? ≠ some ']') (first : read start = some (item, ',' :: more))
    (shorter : more.length < text.length) : elements? read text =
      (elements? read more).map fun (items, rest) => (item :: items, rest) := by
  rw [elements?, gap]
  split
  · next rest => exact absurd rfl goesOn
  · next start other =>
    rw [first]
    dsimp only
    rw [skipGaps_cons rfl]
    exact if_pos shorter

/-- The only value of an array. -/
theorem elements?_singleton {start : Text} {item : Item} (gap : skipGaps text = start)
    (goesOn : start.head? ≠ some ']') (first : read start = some (item, ']' :: rest)) :
    elements? read text = some ([item], rest) := by
  rw [elements?, gap]
  split
  · next rest => exact absurd rfl goesOn
  · next start other =>
    rw [first]
    dsimp only
    rw [skipGaps_cons rfl]
    rfl

variable (reads : ∀ text rest, NoQuote rest → read (writeString text ++ rest) = some (.text text, rest))

include reads

theorem elements?_stringLines (texts : List Text) (rest : Text) :
    elements? read ('\n' :: (stringLines texts ++ ']' :: rest)) = some (texts.map .text, rest) := by
  induction texts with
  | nil => exact elements?_nil (by rw [skipGaps_newline]; exact skipGaps_cons rfl rest)
  | cons text others ih =>
    obtain ⟨quote, body, shape, quotes⟩ := writeString_eq_cons text
    have lines : stringLines (text :: others) ++ ']' :: rest = "    ".toList ++
        (writeString text ++ ',' :: '\n' :: (stringLines others ++ ']' :: rest)) := by
      simp [stringLines]
    have first := reads text (',' :: '\n' :: (stringLines others ++ ']' :: rest)) (by simp [NoQuote])
    have starts : startsPart quote = true ∧ quote ≠ ']' := by
      rcases quotes with rfl | rfl <;> decide
    rw [lines]
    rw [shape, List.cons_append] at first ⊢
    rw [elements?_cons ?_ (by simp [starts.2]) first (by simp; omega), ih]
    · rfl
    · rw [skipGaps_newline, skipGaps_append (by simp [isSpace]) starts.1]

/-- A list of strings is read as it was written. -/
theorem elements?_writeStrings (texts : List Text) (rest : Text) : ∃ body,
    writeStrings texts ++ rest = '[' :: body ∧
      elements? read body = some (texts.map .text, rest) := by
  match texts with
  | [] => exact ⟨']' :: rest, rfl, elements?_nil (skipGaps_cons rfl rest)⟩
  | [only] =>
    refine ⟨writeString only ++ ']' :: rest, by simp [writeStrings], ?_⟩
    have first := reads only (']' :: rest) (by simp [NoQuote])
    obtain ⟨quote, body, shape, quotes⟩ := writeString_eq_cons only
    have starts : startsPart quote = true ∧ quote ≠ ']' := by
      rcases quotes with rfl | rfl <;> decide
    rw [shape, List.cons_append] at first ⊢
    exact elements?_singleton (skipGaps_cons starts.1 _) (by simp [starts.2]) first
  | first :: second :: others =>
    refine ⟨_, ?_, elements?_stringLines reads (first :: second :: others) rest⟩
    simp [writeStrings, stringLines]

end

theorem valueWith?_writeStrings (levels : Nat) (texts : List Text) (rest : Text) :
    valueWith? (some (value? levels)) (writeStrings texts ++ rest) =
      some (.array (texts.map .text), rest) := by
  have reads : ∀ text rest, NoQuote rest →
      value? levels (writeString text ++ rest) = some (.text text, rest) := by
    intro text rest after
    cases levels <;> exact valueWith?_writeString _ text after
  obtain ⟨body, shape, read⟩ := elements?_writeStrings reads texts rest
  rw [shape]
  change ((elements? _ _).map _) = _
  rw [read]
  rfl

/-- A text that is read as a value wherever a line ends after it. -/
structure Writes (value : Text) (item : Item) : Prop where
  starts : ∃ c tail, value = c :: tail ∧ startsPart c = true
  read : ∀ rest, value? (depthLimit - 1) (value ++ '\n' :: rest) = some (item, '\n' :: rest)

theorem writes_writeString (text : Text) : Writes (writeString text) (.text text) where
  starts := by
    obtain ⟨quote, body, shape, quotes⟩ := writeString_eq_cons text
    refine ⟨quote, body, shape, ?_⟩
    rcases quotes with rfl | rfl <;> rfl
  read rest := valueWith?_writeString _ text (by simp [NoQuote])

theorem writes_writeStrings (texts : List Text) :
    Writes (writeStrings texts) (.array (texts.map .text)) where
  starts := by
    match texts with
    | [] | [_] | _ :: _ :: _ => exact ⟨'[', _, rfl, rfl⟩
  read rest := valueWith?_writeStrings (depthLimit - 2) texts _

theorem startsPart_of_isWordChar (word : isWordChar c = true) : startsPart c = true := by
  have apart : ∀ d, isWordChar d = false → c ≠ d := by
    rintro d other rfl
    exact Bool.false_ne_true (other.symm.trans word)
  simp [startsPart, isSpace, apart ' ' rfl, apart '\t' rfl, apart '\n' rfl, apart '\r' rfl,
    apart '#' rfl]

theorem writes_word {item : Item} (given : word ≠ []) (all : ∀ c ∈ word, isWordChar c = true)
    (means : ofWord? word = some item) : Writes word item where
  starts := by
    obtain ⟨c, tail, rfl⟩ := List.exists_cons_of_ne_nil given
    exact ⟨c, tail, rfl, startsPart_of_isWordChar (all c List.mem_cons_self)⟩
  read rest := (valueWith?_word _ given all rest).trans (by rw [means]; rfl)

theorem writes_ofNat {n : Nat} (fits : n < integerLimit) : Writes (Text.ofNat n) (.integer n) :=
  writes_word Nat.toDigits_ne_nil (fun _ member => isWordChar_of_isDigit (isDigit_of_mem_ofNat member))
    (ofWord?_ofNat fits)

theorem writes_writeBool (b : Bool) : Writes (writeBool b) (.boolean b) := by
  cases b <;> exact writes_word (by decide) (List.all_eq_true.1 rfl) rfl

end SambaShares.Toml
