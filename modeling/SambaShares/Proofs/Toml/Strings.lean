import SambaShares.Toml.Strings
import SambaShares.Toml.Writer
/-!
Every string is read as it was written, in each of the four forms. In the long forms it is not known of
a quote whether it belongs to the text before all quotes of its run are known; so the induction for them
carries the run along, up to the place where the reader decides.
-/

namespace SambaShares.Toml

variable {c : Char} {text rest : Text} {run : Nat}

theorem isPlain_of_isControl (harmless : isControl c = false) (sameLine : c ≠ '\n') :
    isPlain c = true := by
  by_cases tab : c = '\t'
  · rw [tab]
    rfl
  · have bounds : 0x1F < c.toNat ∧ c.toNat ≠ 0x7F := by
      simpa [isControl, tab, sameLine] using harmless
    simp only [isPlain, Bool.or_eq_true, Bool.and_eq_true, decide_eq_true_eq, bne_iff_ne]
    exact Or.inr bounds

/-- What follows a string in a file is no quote, so the closing quotes end where they are meant to. -/
def NoQuote (rest : Text) : Prop := rest.head? ≠ some '"' ∧ rest.head? ≠ some '\''

@[simp] theorem hexDigit?_hexDigit {n : Nat} (small : n < 16) : hexDigit? (hexDigit n) = some n := by
  have all : ∀ n < 16, hexDigit? (hexDigit n) = some n := by decide
  exact all n small

theorem charOf?_toNat {c : Char} (low : c.toNat < 0xD800) : charOf? c.toNat = some c := by
  rw [charOf?, if_pos (Or.inl low), Char.ofNat_toNat]

theorem keepHex_escape (low : c.toNat < 0x80) (read : Option (Text × Text)) :
    keepHex ['0', '0', hexDigit (c.toNat / 16), hexDigit (c.toNat % 16)] read = keep c read := by
  have zero : hexDigit? '0' = some 0 := rfl
  have value : c.toNat / 16 * 16 + c.toNat % 16 = c.toNat := by omega
  simp only [keepHex, hexValue?, List.foldl_cons, List.foldl_nil, zero,
    hexDigit?_hexDigit (show c.toNat / 16 < 16 by omega),
    hexDigit?_hexDigit (show c.toNat % 16 < 16 by omega), Nat.zero_mul, Nat.zero_add, value,
    Option.bind_some, charOf?_toNat (show c.toNat < 0xD800 by omega)]

/-- What a character of a string in double quotes is written as: an escape of one letter or of a
number, or itself. -/
theorem escapeChar_cases (long : Bool) (c : Char) :
    (∃ letter, (letter, c) ∈ [('b', '\x08'), ('t', '\t'), ('n', '\n'), ('f', '\x0c'), ('r', '\r'),
        ('\\', '\\')] ∧ escapeChar long c = ['\\', letter]) ∨
      (c.toNat < 0x80 ∧ escapeChar long c =
        ['\\', 'u', '0', '0', hexDigit (c.toNat / 16), hexDigit (c.toNat % 16)]) ∨
      (escapeChar long c = [c] ∧ c ≠ '\\' ∧ (isPlain c = true ∨ c = '\n' ∧ long = true)) := by
  unfold escapeChar
  simp only [beq_iff_eq]
  split
  · next same => exact Or.inl ⟨'b', by simp [same], rfl⟩
  split
  · next same => exact Or.inl ⟨'t', by simp [same], rfl⟩
  split
  · next same =>
    cases long with
    | false => exact Or.inl ⟨'n', by simp [same], rfl⟩
    | true =>
      rw [same]
      exact Or.inr (Or.inr ⟨rfl, by decide, Or.inr ⟨rfl, rfl⟩⟩)
  split
  · next same => exact Or.inl ⟨'f', by simp [same], rfl⟩
  split
  · next same => exact Or.inl ⟨'r', by simp [same], rfl⟩
  split
  · next same => exact Or.inl ⟨'\\', by simp [same], rfl⟩
  split
  · next control =>
    have low : c.toNat ≤ 0x1F ∨ c.toNat = 0x7F := by
      simp only [isControl, Bool.or_eq_true, Bool.and_eq_true, decide_eq_true_eq,
        beq_iff_eq] at control
      exact control.imp (fun low => low.1.1) id
    exact Or.inr (Or.inl ⟨by omega, rfl⟩)
  · next notTab notBreak notFeed notReturn slash control =>
    have plain : isPlain c = true := isPlain_of_isControl (by simpa using control) notBreak
    exact Or.inr (Or.inr ⟨rfl, slash, Or.inl plain⟩)

theorem basic_cons_plain (plain : isPlain c = true) (quote : c ≠ '"') (slash : c ≠ '\\')
    (rest : Text) : basic (c :: rest) = keep c (basic rest) := by
  rw [basic.eq_def]
  split
  all_goals simp_all

theorem basic_escapeChar (quote : c ≠ '"') (rest : Text) :
    basic (escapeChar false c ++ rest) = keep c (basic rest) := by
  rcases escapeChar_cases false c with ⟨letter, member, same⟩ | ⟨low, same⟩ | ⟨same, slash, plain⟩
  · simp only [List.mem_cons, Prod.mk.injEq, List.not_mem_nil, or_false] at member
    rw [same]
    rcases member with ⟨rfl, rfl⟩ | ⟨rfl, rfl⟩ | ⟨rfl, rfl⟩ | ⟨rfl, rfl⟩ | ⟨rfl, rfl⟩ | ⟨rfl, rfl⟩ <;>
      rfl
  · rw [same]
    exact keepHex_escape low _
  · rw [same]
    exact basic_cons_plain (plain.resolve_right fun both => Bool.false_ne_true both.2) quote slash rest

/-- A text in double quotes is read as it was, up to the quote that closes it. -/
theorem basic_escape (text : Text) (run : Nat) (rest : Text) :
    basic (escape false 0 run text ++ '"' :: rest) = some (text, rest) := by
  induction text generalizing run with
  | nil => rfl
  | cons c tail ih =>
    unfold escape
    by_cases quote : c = '"'
    · rw [if_pos (beq_iff_eq.2 quote), if_neg (Nat.not_lt_zero run), quote]
      exact congrArg (keep '"') (ih 0)
    · rw [if_neg (by simpa using quote), List.append_assoc, basic_escapeChar quote, ih 0]
      rfl

/-- A text without quotes of its own, in single quotes. -/
theorem literal_append (plain : ∀ c ∈ text, isPlain c = true) (free : '\'' ∉ text) (rest : Text) :
    literal (text ++ '\'' :: rest) = some (text, rest) := by
  induction text with
  | nil => rfl
  | cons c tail ih =>
    rw [List.mem_cons, not_or] at free
    have later := ih (fun d member => plain d (List.mem_cons_of_mem c member)) free.2
    have first : literal (c :: (tail ++ '\'' :: rest)) = keep c (literal (tail ++ '\'' :: rest)) := by
      rw [literal.eq_def]
      split
      · next closing => simp_all
      · next closing => simp_all
      · next shape =>
        cases shape
        rw [if_pos (plain c List.mem_cons_self)]
    rw [List.cons_append, first, later]
    rfl

/-- A reader of long strings: a run of up to two quotes belongs to the text, and so do those of a longer
run that stand before its last three. -/
structure ReadsLong (quote : Char) (read : Text → Option (Text × Text)) : Prop where
  kept : ∀ rest, (∀ more, rest ≠ quote :: quote :: more) →
    read (quote :: rest) = keep quote (read rest)
  closed : ∀ run rest, run ≤ 2 → rest.head? ≠ some quote →
    read (List.replicate run quote ++ quote :: quote :: quote :: rest) =
      some (List.replicate run quote, rest)

/-- The text between long quotes, after a run of so many of them: up to two quotes stand for
themselves, and any other character for what is read as it. -/
inductive Spells (quote : Char) (read : Text → Option (Text × Text)) : Nat → Text → Text → Prop
  | done {run : Nat} (few : run ≤ 2) : Spells quote read run [] []
  | quote {run : Nat} {text written : Text} (few : run < 2)
    (later : Spells quote read (run + 1) text written) :
    Spells quote read run (quote :: text) (quote :: written)
  | other {run : Nat} {c first : Char} {piece text written : Text} (few : run ≤ 2)
    (apart : first ≠ quote)
    (means : ∀ rest, read (first :: (piece ++ rest)) = keep c (read rest))
    (later : Spells quote read 0 text written) :
    Spells quote read run (c :: text) (first :: (piece ++ written))

namespace ReadsLong

variable {quote : Char} {read : Text → Option (Text × Text)}

theorem quotes (reads : ReadsLong quote read) (few : run ≤ 2) {first : Char} (apart : first ≠ quote)
    (rest : Text) : read (List.replicate run quote ++ first :: rest) =
      (read (first :: rest)).map fun (text, rest) => (List.replicate run quote ++ text, rest) := by
  have one := reads.kept (first :: rest) (by simp [apart])
  have two := reads.kept (quote :: first :: rest) (by simp [apart])
  match run, few with
  | 0, _ => simp
  | 1, _ => exact one
  | 2, _ =>
    rw [one] at two
    refine two.trans ?_
    cases read (first :: rest) <;> rfl

/-- A long text is read as it was spelled, up to its last three quotes. -/
theorem spells {written : Text} (reads : ReadsLong quote read)
    (spells : Spells quote read run text written) (after : rest.head? ≠ some quote) :
    read (List.replicate run quote ++ (written ++ quote :: quote :: quote :: rest)) =
      some (List.replicate run quote ++ text, rest) := by
  induction spells with
  | @done run few => simpa using reads.closed run rest few after
  | quote few later ih =>
    rw [List.replicate_succ', List.append_assoc, List.append_assoc] at ih
    exact ih
  | @other run c first piece text written few apart means later ih =>
    rw [List.replicate_zero, List.nil_append, List.nil_append] at ih
    rw [List.cons_append, List.append_assoc, reads.quotes few apart, means, ih]
    rfl

end ReadsLong

theorem longBasic_cons_plain (plain : isPlain c = true) (slash : c ≠ '\\')
    (few : ∀ more, c = '"' → rest ≠ '"' :: '"' :: more) :
    longBasic .none (c :: rest) = keep c (longBasic .none rest) := by
  have notReturn : c ≠ '\r' := by
    rintro rfl
    cases plain
  rw [longBasic.eq_def]
  split
  all_goals simp_all

theorem readsLong_longBasic : ReadsLong '"' (longBasic .none) where
  kept rest few := longBasic_cons_plain rfl (by decide) fun more _ => few more
  closed run rest few after := by
    have ends : ∀ more, rest ≠ '"' :: more := by
      rintro more rfl
      exact after rfl
    match run, few with
    | 0, _ => simp [longBasic, ends]
    | 1, _ => simp [longBasic]
    | 2, _ => rfl

theorem longBasic_escapeChar (quote : c ≠ '"') (rest : Text) :
    longBasic .none (escapeChar true c ++ rest) = keep c (longBasic .none rest) := by
  rcases escapeChar_cases true c with ⟨letter, member, same⟩ | ⟨low, same⟩ | ⟨same, slash, plain⟩
  · simp only [List.mem_cons, Prod.mk.injEq, List.not_mem_nil, or_false] at member
    rw [same]
    rcases member with ⟨rfl, rfl⟩ | ⟨rfl, rfl⟩ | ⟨rfl, rfl⟩ | ⟨rfl, rfl⟩ | ⟨rfl, rfl⟩ | ⟨rfl, rfl⟩ <;>
      rfl
  · rw [same]
    exact keepHex_escape low _
  · rw [same]
    rcases plain with plain | ⟨rfl, -⟩
    · exact longBasic_cons_plain plain slash fun _ same => absurd same quote
    · rfl

/-- An escaped character starts with a backslash or with itself, which is no return then. -/
theorem escapeChar_eq_cons (long : Bool) (c : Char) : ∃ first piece,
    escapeChar long c = first :: piece ∧ (first = '\\' ∨ first = c ∧ c ≠ '\r') := by
  rcases escapeChar_cases long c with ⟨letter, -, same⟩ | ⟨-, same⟩ | ⟨same, -, plain⟩
  · exact ⟨_, _, same, Or.inl rfl⟩
  · exact ⟨_, _, same, Or.inl rfl⟩
  · refine ⟨_, _, same, Or.inr ⟨rfl, ?_⟩⟩
    rintro rfl
    rcases plain with plain | ⟨same, -⟩
    · cases plain
    · cases same

theorem spells_escape (few : run ≤ 2) (text : Text) :
    Spells '"' (longBasic .none) run text (escape true 2 run text) := by
  induction text generalizing run with
  | nil => exact .done few
  | cons c tail ih =>
    unfold escape
    by_cases quote : c = '"'
    · rw [if_pos (beq_iff_eq.2 quote), quote]
      by_cases more : run < 2
      · rw [if_pos more]
        exact .quote more (ih more)
      · rw [if_neg more]
        exact @Spells.other _ _ run '"' '\\' ['"'] _ _ few (by decide) (fun _ => rfl)
          (ih (Nat.zero_le 2))
    · rw [if_neg (by simpa using quote)]
      obtain ⟨first, piece, same, starts⟩ := escapeChar_eq_cons true c
      have means := longBasic_escapeChar quote
      rw [same] at means ⊢
      refine .other few ?_ means (ih (Nat.zero_le 2))
      rcases starts with rfl | ⟨rfl, -⟩
      · decide
      · exact quote

theorem longLiteral_cons_plain (plain : (c == '\n' || isPlain c) = true)
    (few : ∀ more, c = '\'' → rest ≠ '\'' :: '\'' :: more) :
    longLiteral (c :: rest) = keep c (longLiteral rest) := by
  have notReturn : c ≠ '\r' := by
    rintro rfl
    cases plain
  rw [longLiteral.eq_def]
  split
  · next shape => cases shape
  · next shape => cases shape; exact absurd rfl (few _ rfl)
  · next shape => cases shape; exact absurd rfl (few _ rfl)
  · next shape => cases shape; exact absurd rfl (few _ rfl)
  · next shape => cases shape; exact absurd rfl notReturn
  · next shape => cases shape; exact if_pos plain

theorem readsLong_longLiteral : ReadsLong '\'' longLiteral where
  kept rest few := longLiteral_cons_plain rfl fun more _ => few more
  closed run rest few after := by
    have ends : ∀ more, rest ≠ '\'' :: more := by
      rintro more rfl
      exact after rfl
    match run, few with
    | 0, _ => simp [longLiteral, ends]
    | 1, _ => simp [longLiteral]
    | 2, _ => rfl

theorem le_longestRun (quote : Char) (run : Nat) (text : Text) : run ≤ longestRun quote run text := by
  induction text generalizing run with
  | nil => exact Nat.le_refl run
  | cons c tail ih =>
    unfold longestRun
    split
    · exact Nat.le_of_succ_le (ih (run + 1))
    · exact Nat.le_max_left _ _

theorem spells_self (short : longestRun '\'' run text ≤ 2)
    (plain : ∀ c ∈ text, (c == '\n' || isPlain c) = true) :
    Spells '\'' longLiteral run text text := by
  have few := Nat.le_trans (le_longestRun '\'' run text) short
  induction text generalizing run with
  | nil => exact .done few
  | cons c tail ih =>
    have later := fun d member => plain d (List.mem_cons_of_mem c member)
    unfold longestRun at short
    by_cases quote : c = '\''
    · rw [if_pos (beq_iff_eq.2 quote)] at short
      have more := Nat.le_trans (le_longestRun '\'' (run + 1) tail) short
      rw [quote]
      exact .quote more (ih short later more)
    · rw [if_neg (by simpa using quote), Nat.max_le] at short
      exact @Spells.other _ _ run c c [] _ _ few quote
        (fun _ => longLiteral_cons_plain (plain c List.mem_cons_self) fun _ same => absurd same quote)
        (ih short.2 later (Nat.zero_le 2))

theorem not_mem_of_longestRun {quote : Char} (none : longestRun quote 0 text = 0) : quote ∉ text := by
  induction text with
  | nil => exact List.not_mem_nil
  | cons c tail ih =>
    unfold longestRun at none
    split at none
    · have some := le_longestRun quote (0 + 1) tail
      omega
    · next other =>
      rw [Nat.zero_max] at none
      rw [List.mem_cons, not_or]
      exact ⟨fun same => other (beq_iff_eq.2 same.symm), ih none⟩

/-- What a text has in it that is written in single quotes. -/
theorem plain_of_literal (form : Form.of text = .literal) :
    (∀ c ∈ text, isPlain c = true) ∧ '\'' ∉ text ∧ text ≠ [] := by
  have given : text ≠ [] := by
    rintro rfl
    cases form
  unfold Form.of at form
  simp only [Bool.and_eq_true, Bool.not_eq_true', beq_iff_eq] at form
  split at form
  · cases form
  split at form
  · next fits =>
    obtain ⟨⟨harmless, sameLine⟩, none⟩ := fits
    rw [List.any_eq_false] at harmless
    refine ⟨fun c member => ?_, not_mem_of_longestRun none, given⟩
    refine isPlain_of_isControl (by simpa using harmless c member) ?_
    rintro rfl
    rw [List.contains_iff_mem.2 member] at sameLine
    cases sameLine
  · split at form
    · cases form
    · split at form
      · cases form
      · split at form <;> cases form

theorem plain_of_longLiteral (form : Form.of text = .longLiteral) :
    (∀ c ∈ text, (c == '\n' || isPlain c) = true) ∧ longestRun '\'' 0 text ≤ 2 := by
  unfold Form.of at form
  simp only [Bool.and_eq_true, Bool.not_eq_true', beq_iff_eq, decide_eq_true_eq] at form
  split at form
  · cases form
  split at form
  · cases form
  split at form
  · cases form
  split at form
  · next fits =>
    obtain ⟨harmless, short⟩ := fits
    rw [List.any_eq_false] at harmless
    refine ⟨fun c member => ?_, short⟩
    by_cases sameLine : c = '\n'
    · rw [sameLine]
      rfl
    · rw [isPlain_of_isControl (by simpa using harmless c member) sameLine, Bool.or_true]
  · split at form <;> cases form

theorem dropLineEnd_opening {body : Text}
    (apart : '\n' ∉ text → ∀ c ∈ body.head?, c ≠ '\n' ∧ c ≠ '\r') :
    dropLineEnd (opening text ++ body) = body := by
  unfold opening
  split
  · rfl
  · next sameLine =>
    have clear := apart (by simpa using sameLine)
    rw [List.nil_append]
    cases body with
    | nil => rfl
    | cons c tail =>
      have starts := clear c rfl
      rw [dropLineEnd.eq_def]
      split
      · next shape => cases shape; exact absurd rfl starts.1
      · next shape => cases shape; exact absurd rfl starts.2
      · rfl

theorem string?_of_basic {body : Text} (few : ∀ more, body ≠ '"' :: '"' :: more) :
    string? ('"' :: body) = basic body := by
  rw [string?.eq_def]
  split
  all_goals simp_all

theorem string?_of_literal {body : Text} (few : ∀ more, body ≠ '\'' :: '\'' :: more) :
    string? ('\'' :: body) = literal body := by
  rw [string?.eq_def]
  split
  all_goals simp_all

/-- The first character of a text between double quotes. -/
theorem escape_eq_cons (long : Bool) (allowed : Nat) (c : Char) (tail : Text) :
    ∃ first more, escape long allowed 0 (c :: tail) = first :: more ∧
      (first = '\\' ∨ first = c ∧ c ≠ '\r' ∧ (c = '"' → 0 < allowed)) := by
  unfold escape
  split
  · next quote =>
    rw [beq_iff_eq] at quote
    subst quote
    split
    · next allows => exact ⟨_, _, rfl, Or.inr ⟨rfl, by decide, fun _ => allows⟩⟩
    · exact ⟨_, _, rfl, Or.inl rfl⟩
  · next other =>
    obtain ⟨first, piece, same, starts⟩ := escapeChar_eq_cons long c
    rw [same, List.cons_append]
    refine ⟨_, _, rfl, starts.imp id fun itself => ⟨itself.1, itself.2, fun quote => ?_⟩⟩
    exact absurd (beq_iff_eq.2 quote) other

/-- Every string is read as it was written. -/
theorem string?_writeString (text : Text) (after : NoQuote rest) :
    string? (writeString text ++ rest) = some (text, rest) := by
  unfold writeString
  cases form : Form.of text with
  | basic =>
    simp only [List.cons_append, List.nil_append, List.append_assoc]
    rw [string?_of_basic ?_, basic_escape]
    intro more same
    cases text with
    | nil =>
      rw [escape, List.nil_append, List.cons.injEq] at same
      exact after.1 (by rw [same.2]; rfl)
    | cons c tail =>
      obtain ⟨first, piece, shape, starts⟩ := escape_eq_cons false 0 c tail
      rw [shape, List.cons_append, List.cons.injEq] at same
      rcases starts with rfl | ⟨rfl, -, quote⟩
      · exact absurd same.1 (by decide)
      · exact absurd (quote same.1) (Nat.lt_irrefl 0)
  | literal =>
    obtain ⟨plain, free, given⟩ := plain_of_literal form
    simp only [List.cons_append, List.nil_append, List.append_assoc]
    rw [string?_of_literal ?_, literal_append plain free]
    obtain ⟨c, tail, rfl⟩ := List.exists_cons_of_ne_nil given
    rintro more same
    rw [List.cons_append, List.cons.injEq] at same
    exact free (same.1 ▸ List.mem_cons_self)
  | longBasic =>
    simp only [List.cons_append, List.nil_append, List.append_assoc]
    change longBasic .none (dropLineEnd (opening text ++ (escape true 2 0 text ++ _))) = _
    rw [dropLineEnd_opening ?_]
    · exact readsLong_longBasic.spells (spells_escape (Nat.zero_le 2) text) after.1
    · intro sameLine d starts
      cases text with
      | nil =>
        cases starts
        decide
      | cons c tail =>
        obtain ⟨first, piece, shape, itself⟩ := escape_eq_cons true 2 c tail
        rw [shape, List.cons_append, List.head?_cons, Option.mem_some_iff] at starts
        rw [← starts]
        rcases itself with rfl | ⟨rfl, notReturn, -⟩
        · decide
        · exact ⟨fun same => sameLine (same ▸ List.mem_cons_self), notReturn⟩
  | longLiteral =>
    obtain ⟨plain, short⟩ := plain_of_longLiteral form
    simp only [List.cons_append, List.nil_append, List.append_assoc]
    change longLiteral (dropLineEnd (opening text ++ (text ++ _))) = _
    rw [dropLineEnd_opening ?_]
    · exact readsLong_longLiteral.spells (spells_self short plain) after.2
    · intro sameLine d starts
      cases text with
      | nil =>
        cases starts
        decide
      | cons c tail =>
        rw [List.cons_append, List.head?_cons, Option.mem_some_iff] at starts
        rw [← starts]
        refine ⟨fun same => sameLine (same ▸ List.mem_cons_self), ?_⟩
        rintro rfl
        cases plain '\r' List.mem_cons_self

end SambaShares.Toml
