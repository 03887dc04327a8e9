import Mathlib.Data.Nat.Digits.Defs
import SambaShares.Proofs.Text.Trim
import SambaShares.Settings.Mode
/-!
Which texts are permission bits: octal digits, perhaps after marks and one plus sign. The digits are
read in words of 32 bits, but what comes out is their exact value, however many there are.
-/

namespace SambaShares

namespace FileMode

def IsOctal (c : Char) : Prop := '0' ≤ c ∧ c ≤ '7'

/-- The value of octal digits as a number without a bound. -/
def exactValue (digits : Text) : Nat :=
  Nat.ofDigits 8 (digits.reverse.map fun c => c.toNat - '0'.toNat)

/-- A text that is, without the white space around it, any number of marks, at most one plus sign
and then octal digits with this value. -/
def Denotes (mode : Text) (number : Nat) : Prop :=
  ∃ (marks : Nat) (sign digits : Text),
    mode.trim = (List.replicate marks "0o".toList).flatten ++ sign ++ digits ∧
      (sign = [] ∨ sign = ['+']) ∧ digits ≠ [] ∧ (∀ c ∈ digits, IsOctal c) ∧
      number = exactValue digits

theorem digit?_eq_some_iff {c : Char} {d : Nat} :
    digit? c = some d ↔ IsOctal c ∧ c.toNat - '0'.toNat = d := by
  unfold digit?
  by_cases octal : '0' ≤ c ∧ c ≤ '7'
  · simp [octal, IsOctal]
  · simp [octal, IsOctal]

theorem exactValue_cons (c : Char) (rest : Text) :
    exactValue (c :: rest) = (c.toNat - '0'.toNat) * 8 ^ rest.length + exactValue rest := by
  unfold exactValue
  rw [List.reverse_cons, List.map_append, Nat.ofDigits_append, List.length_map, List.length_reverse,
    List.map_singleton, Nat.ofDigits_singleton]
  ring

/-- Zeros in front do not count. -/
theorem exactValue_zeros (zeros : Nat) (digits : Text) :
    exactValue (List.replicate zeros '0' ++ digits) = exactValue digits := by
  induction zeros with
  | zero => rfl
  | succ zeros ih => rw [List.replicate_succ, List.cons_append, exactValue_cons, ih]; simp

/-- A step that fits into a word is exact. -/
theorem toNat_step {high : UInt32} {d : Nat} (fits : high.toNat * 8 + d < UInt32.size) :
    (high * 8 + UInt32.ofNat d).toNat = high.toNat * 8 + d := by
  have size : UInt32.size = 4294967296 := rfl
  rw [size] at fits
  simp only [UInt32.toNat_add, UInt32.toNat_mul, UInt32.toNat_ofNat', UInt32.reduceToNat]
  omega

theorem valueFrom_eq_some_iff {digits : Text} {high value : UInt32} :
    valueFrom high digits = some value ↔ (∀ c ∈ digits, IsOctal c) ∧
      high.toNat * 8 ^ digits.length + exactValue digits = value.toNat := by
  induction digits generalizing high with
  | nil => simp [valueFrom, exactValue, UInt32.toNat_inj]
  | cons c rest ih =>
    rw [valueFrom, List.forall_mem_cons, exactValue_cons, List.length_cons, Nat.pow_succ]
    cases read : digit? c with
    | none =>
      have other : ¬IsOctal c := fun octal => by
        rw [digit?_eq_some_iff.2 ⟨octal, rfl⟩] at read
        cases read
      simp [other]
    | some d =>
      obtain ⟨octal, rfl⟩ := digit?_eq_some_iff.1 read
      generalize c.toNat - '0'.toNat = d
      have powers : high.toNat * (8 ^ rest.length * 8) + (d * 8 ^ rest.length + exactValue rest) =
          (high.toNat * 8 + d) * 8 ^ rest.length + exactValue rest := by ring
      rw [powers]
      by_cases fits : high.toNat * 8 + d < UInt32.size
      · simp only [fits, if_true]
        rw [ih, toNat_step fits]
        simp [octal]
      · -- What has outgrown a word only grows by the digits to come.
        have grows : high.toNat * 8 + d ≤ (high.toNat * 8 + d) * 8 ^ rest.length :=
          Nat.le_mul_of_pos_right _ (Nat.pow_pos (by decide))
        have small := value.toNat_lt_size
        simp only [fits, if_false, reduceCtorEq, false_iff]
        omega

theorem value?_eq_some_iff {digits : Text} {value : UInt32} :
    value? digits = some value ↔
      digits ≠ [] ∧ (∀ c ∈ digits, IsOctal c) ∧ exactValue digits = value.toNat := by
  unfold value?
  by_cases none : digits = []
  · simp [none]
  · simp [none, valueFrom_eq_some_iff]

theorem dropMarks_marks (marks : Nat) (rest : Text) :
    dropMarks ((List.replicate marks "0o".toList).flatten ++ rest) = dropMarks rest := by
  induction marks with
  | zero => rfl
  | succ marks ih =>
    rw [List.replicate_succ, List.flatten_cons, List.append_assoc]
    exact ih

theorem dropMarks_eq_self {text : Text} (unmarked : 'o' ∉ text) : dropMarks text = text := by
  fun_cases dropMarks text with
  | case1 rest => simp at unmarked
  | case2 => rfl

theorem exists_marks (text : Text) :
    ∃ marks, text = (List.replicate marks "0o".toList).flatten ++ dropMarks text := by
  fun_induction dropMarks text with
  | case1 rest ih =>
    obtain ⟨marks, shape⟩ := ih
    refine ⟨marks + 1, ?_⟩
    rw [List.replicate_succ, List.flatten_cons, List.append_assoc, ← shape]
    rfl
  | case2 text other => exact ⟨0, rfl⟩

theorem exists_sign (text : Text) :
    ∃ sign, text = sign ++ dropPlus text ∧ (sign = [] ∨ sign = ['+']) := by
  fun_cases dropPlus text with
  | case1 rest => exact ⟨['+'], rfl, Or.inr rfl⟩
  | case2 => exact ⟨[], rfl, Or.inl rfl⟩

theorem dropPlus_sign {sign digits : Text} (signed : sign = [] ∨ sign = ['+'])
    (octal : ∀ c ∈ digits, IsOctal c) : dropPlus (sign ++ digits) = digits := by
  rcases signed with rfl | rfl
  · rw [List.nil_append]
    unfold dropPlus
    split
    · next rest =>
      have plus := octal '+' List.mem_cons_self
      exact absurd plus (by unfold IsOctal; decide)
    · rfl
  · rfl

theorem number?_eq_some_iff {mode : Text} {value : UInt32} :
    number? mode = some value ↔ Denotes mode value.toNat := by
  unfold number?
  rw [value?_eq_some_iff]
  constructor
  · rintro ⟨some, octal, exact⟩
    obtain ⟨marks, marked⟩ := exists_marks mode.trim
    obtain ⟨sign, signed, plus⟩ := exists_sign (dropMarks mode.trim)
    refine ⟨marks, sign, dropPlus (dropMarks mode.trim), ?_, plus, some, octal, exact.symm⟩
    rw [List.append_assoc, ← signed, ← marked]
  · rintro ⟨marks, sign, digits, shape, plus, some, octal, exact⟩
    have unmarked : 'o' ∉ sign ++ digits := by
      rw [List.mem_append]
      rintro (inSign | inDigits)
      · rcases plus with rfl | rfl
        · cases inSign
        · simp at inSign
      · exact absurd (octal 'o' inDigits) (by unfold IsOctal; decide)
    rw [shape, List.append_assoc, dropMarks_marks, dropMarks_eq_self unmarked,
      dropPlus_sign plus octal]
    exact ⟨some, octal, exact.symm⟩

theorem isBlank_of_isOctal {c : Char} (octal : IsOctal c) : isBlank c = false := by
  obtain ⟨low, high⟩ := octal
  have least : 48 ≤ c.toNat := low
  have most : c.toNat ≤ 55 := high
  simp only [isBlank, Bool.or_eq_false_iff, Bool.and_eq_false_iff, decide_eq_false_iff_not,
    beq_eq_false_iff_ne]
  omega

/-- Digits alone have no other reading. -/
theorem denotes_iff_of_octal {digits : Text} (some : digits ≠ []) (octal : ∀ c ∈ digits, IsOctal c)
    {number : Nat} : Denotes digits number ↔ number = exactValue digits := by
  have trimmed : digits.trim = digits := Text.strip_eq_self
    (fun c first => isBlank_of_isOctal (octal c (List.mem_of_mem_head? first)))
    (fun c last => isBlank_of_isOctal (octal c (List.mem_of_mem_getLast? last)))
  unfold Denotes
  rw [trimmed]
  constructor
  · rintro ⟨marks, sign, rest, shape, plus, -, -, exact⟩
    have unmarked : marks = 0 := by
      cases marks with
      | zero => rfl
      | succ marks =>
        have mark : 'o' ∈ digits := by simp [shape, List.replicate_succ]
        exact absurd (octal 'o' mark) (by unfold IsOctal; decide)
    have unsigned : sign = [] := plus.resolve_right fun signed => by
      have inside : '+' ∈ digits := by simp [shape, signed]
      exact absurd (octal '+' inside) (by unfold IsOctal; decide)
    rw [exact, shape, unmarked, unsigned]
    rfl
  · intro exact
    exact ⟨0, [], digits, rfl, Or.inl rfl, some, octal, exact⟩

end FileMode

namespace StorageSettings

open FileMode

theorem modeBits_eq_ok_iff {settings : StorageSettings} {number : Nat} :
    settings.modeBits = .ok number ↔ Denotes settings.fileMode number ∧ number ≤ 0o7777 := by
  unfold modeBits
  constructor
  · intro read
    split at read
    · next bits found =>
      split at read
      · next small =>
        cases read
        exact ⟨number?_eq_some_iff.1 found, small⟩
      · cases read
    · cases read
  · rintro ⟨denotes, small⟩
    have size : number < UInt32.size := Nat.lt_of_le_of_lt small (by decide)
    have word : (UInt32.ofNat number).toNat = number := UInt32.toNat_ofNat_of_lt' size
    have found : number? settings.fileMode = some (UInt32.ofNat number) :=
      number?_eq_some_iff.2 (word.symm ▸ denotes)
    have bounded : UInt32.ofNat number ≤ 0o7777 := by
      rw [UInt32.le_iff_toNat_le, word]
      exact small
    simp only [found, bounded, if_true, word]

theorem modeBits_cases (settings : StorageSettings) :
    (∃ number, settings.modeBits = .ok number) ∨
      settings.modeBits = .error (.invalidMode settings.fileMode) := by
  unfold modeBits
  split
  · split
    · exact Or.inl ⟨_, rfl⟩
    · exact Or.inr rfl
  · exact Or.inr rfl

theorem modeBits_eq_error_iff {settings : StorageSettings} :
    settings.modeBits = .error (.invalidMode settings.fileMode) ↔
      ¬∃ number, Denotes settings.fileMode number ∧ number ≤ 0o7777 := by
  simp only [← modeBits_eq_ok_iff]
  constructor
  · rintro refused ⟨number, read⟩
    rw [refused] at read
    cases read
  · exact settings.modeBits_cases.resolve_left

/-- The permission bits are the exact value of the digits that the text holds, and every other text
is refused. Digits alone are read for what they are worth, however many they are and however many
zeros stand in front. -/
theorem modeBits_exact (settings : StorageSettings) :
    (∀ number, settings.modeBits = .ok number ↔
        Denotes settings.fileMode number ∧ number ≤ 0o7777) ∧
      (settings.modeBits = .error (.invalidMode settings.fileMode) ↔
        ¬∃ number, Denotes settings.fileMode number ∧ number ≤ 0o7777) ∧
      ∀ (zeros : Nat) (digits : Text), digits ≠ [] → (∀ c ∈ digits, IsOctal c) →
        settings.fileMode = List.replicate zeros '0' ++ digits →
        settings.modeBits = if exactValue digits ≤ 0o7777 then .ok (exactValue digits)
          else .error (.invalidMode settings.fileMode) := by
  refine ⟨fun _ => modeBits_eq_ok_iff, modeBits_eq_error_iff, ?_⟩
  intro zeros digits some octal shape
  have all : ∀ c ∈ settings.fileMode, IsOctal c := by
    intro c inside
    rw [shape, List.mem_append] at inside
    rcases inside with zero | later
    · rw [(List.mem_replicate.1 zero).2]
      unfold IsOctal
      decide
    · exact octal c later
  have given : settings.fileMode ≠ [] := by
    rw [shape]
    exact List.append_ne_nil_of_right_ne_nil _ some
  have denotes : ∀ number, Denotes settings.fileMode number ↔ number = exactValue digits := by
    intro number
    rw [denotes_iff_of_octal given all, shape, exactValue_zeros]
  by_cases small : exactValue digits ≤ 0o7777
  · rw [if_pos small]
    exact modeBits_eq_ok_iff.2 ⟨(denotes _).2 rfl, small⟩
  · rw [if_neg small]
    refine modeBits_eq_error_iff.2 ?_
    rintro ⟨number, denoted, bounded⟩
    exact small ((denotes number).1 denoted ▸ bounded)

-- In 32 bits this number would be that of the mode 0644.
example : modeBits { fileMode := "40000000644".toList } =
    .error (.invalidMode "40000000644".toList) := by
  decide

example : modeBits { fileMode := " 0o0o+000000000000644\n".toList } = .ok 0o644 := by decide

end StorageSettings

end SambaShares
