import SambaShares.Proofs.Toml.Values
/-!
A file of sections, each a header and lines with a pair each, is read as a table of tables with the same
keys in the same order. The reader has read some sections and a part of the next one at each line; what
it has read is all that the induction needs to know.
-/

namespace SambaShares.Toml

variable {c : Char} {key more text rest : Text} {item : Item}

/-- Whether a key can be written without quotes. -/
def isKey (key : Text) : Bool := !key.isEmpty && key.all isKeyChar

theorem isWordChar_of_isKeyChar (inside : isKeyChar c = true) : isWordChar c = true := by
  simp only [isKeyChar, Bool.or_eq_true, beq_iff_eq] at inside
  rcases inside with (letter | rfl) | rfl
  · simp [isWordChar, letter]
  · rfl
  · rfl

theorem exists_of_isKey (keyed : isKey key = true) :
    ∃ c tail, key = c :: tail ∧ isKeyChar c = true ∧ ∀ d ∈ key, isKeyChar d = true := by
  cases key with
  | nil => cases keyed
  | cons c tail =>
    have all : ∀ d ∈ c :: tail, isKeyChar d = true := List.all_eq_true.1 keyed
    exact ⟨c, tail, rfl, all c List.mem_cons_self, all⟩

/-- A key is read up to what cannot belong to it. -/
theorem key?_append (keyed : isKey key = true) (stops : isKeyChar c = false)
    (after : skipSpace (c :: more) = rest) (last : rest.head? ≠ some '.') :
    key? (key ++ c :: more) = some ([], key, rest) := by
  obtain ⟨first, tail, shape, inside, all⟩ := exists_of_isKey keyed
  have part : (key ++ c :: more).takeWhile isKeyChar = key := by
    rw [List.takeWhile_append_of_pos all, List.takeWhile_cons_of_neg (by simp [stops]), List.append_nil]
  have left : (key ++ c :: more).dropWhile isKeyChar = c :: more := by
    rw [List.dropWhile_append_of_pos all, List.dropWhile_cons_of_neg (by simp [stops])]
  have start : skipSpace (key ++ c :: more) = key ++ c :: more := by
    rw [shape]
    exact skipSpace_cons (startsPart_of_isWordChar (isWordChar_of_isKeyChar inside)) _
  have parsed : keyPart? (key ++ c :: more) = some (key, c :: more) := by
    unfold keyPart?
    split
    · next same =>
      rw [shape, List.cons_append, List.cons.injEq] at same
      rw [same.1] at inside
      cases inside
    · next same =>
      rw [shape, List.cons_append, List.cons.injEq] at same
      rw [same.1] at inside
      cases inside
    · simp only [part, left]
      rw [if_neg (by simp [shape])]
  have parts : keyParts? (key ++ c :: more) = some ([key], rest) := by
    rw [keyParts?, start, parsed]
    dsimp only
    rw [after]
    split
    · next same => exact absurd rfl last
    · rfl
  rw [key?, parts]
  rfl

theorem statement?_header (reading : Reading) (keyed : isKey key = true) (rest : Text) :
    statement? reading ('[' :: (key ++ ']' :: '\n' :: rest)) =
      (reading.root.openTable [] key).map fun root => (⟨root, [key]⟩, rest) := by
  have read : key? (key ++ ']' :: '\n' :: rest) = some ([], key, ']' :: '\n' :: rest) :=
    key?_append keyed rfl (skipSpace_cons rfl _) (by simp)
  obtain ⟨first, tail, shape, inside, -⟩ := exists_of_isKey keyed
  rw [statement?.eq_def]
  split
  · next same =>
    rw [shape, List.cons_append, List.cons.injEq, List.cons.injEq] at same
    rw [same.2.1] at inside
    cases inside
  · next same =>
    rw [List.cons.injEq] at same
    rw [← same.2, read]
    rfl
  · next other => exact absurd rfl (other _)

theorem statement?_pairLine (reading : Reading) {value : Text} (keyed : isKey key = true)
    (writes : Writes value item) (rest : Text) :
    statement? reading (pairLine key value ++ rest) =
      (reading.add [] key item).map fun reading => (reading, rest) := by
  obtain ⟨start, body, begins, starts⟩ := writes.starts
  have line : pairLine key value ++ rest = key ++ ' ' :: '=' :: ' ' :: (value ++ '\n' :: rest) := by
    simp [pairLine]
  have read : key? (pairLine key value ++ rest) =
      some ([], key, '=' :: ' ' :: (value ++ '\n' :: rest)) := by
    rw [line]
    exact key?_append keyed rfl rfl (by simp)
  have gap : skipSpace (' ' :: (value ++ '\n' :: rest)) = value ++ '\n' :: rest := by
    rw [begins]
    exact skipSpace_cons starts _
  obtain ⟨first, tail, shape, inside, -⟩ := exists_of_isKey keyed
  have noBracket : ∀ more, pairLine key value ++ rest ≠ '[' :: more := by
    intro more same
    rw [line, shape, List.cons_append, List.cons.injEq] at same
    rw [same.1] at inside
    cases inside
  rw [statement?.eq_def]
  split
  · next same => exact absurd same (noBracket _)
  · next same => exact absurd same (noBracket _)
  · rw [read]
    change (value? _ (skipSpace _)).bind _ = _
    rw [gap, writes.read]
    rfl

theorem statements?_step {reading next : Reading} {start : Text} (gap : skipGaps text = start)
    (given : start ≠ []) (first : statement? reading start = some (next, rest))
    (shorter : rest.length < text.length) : statements? reading text = statements? next rest := by
  rw [statements?, gap]
  split
  · next same => exact absurd rfl given
  · rw [first]
    exact if_pos shorter

namespace Entries

variable {entries front : Entries}

/-- The keys of a table, in order. -/
def keys (entries : Entries) : List Text := entries.map (·.1)

theorem get?_eq_none (free : key ∉ entries.keys) : entries.get? key = none := by
  unfold get?
  rw [Option.map_eq_none_iff, List.find?_eq_none]
  rintro entry member same
  exact free (List.mem_map.2 ⟨entry, member, beq_iff_eq.1 same⟩)

theorem get?_append (free : key ∉ front.keys) (item : Item) :
    Entries.get? (front ++ [(key, item)]) key = some item := by
  unfold get?
  have before := get?_eq_none free
  unfold get? at before
  rw [Option.map_eq_none_iff] at before
  rw [List.find?_append, before]
  simp

theorem put_of_not_mem (free : key ∉ entries.keys) (item : Item) :
    Entries.put key item entries = entries ++ [(key, item)] := by
  induction entries with
  | nil => rfl
  | cons entry others ih =>
    rw [keys, List.map_cons, List.mem_cons, not_or] at free
    rw [put, if_neg (by simpa using Ne.symm free.1), ih free.2]
    rfl

theorem put_append (free : key ∉ front.keys) (old item : Item) :
    Entries.put key item (front ++ [(key, old)]) = front ++ [(key, item)] := by
  induction front with
  | nil => simp [put]
  | cons entry others ih =>
    rw [keys, List.map_cons, List.mem_cons, not_or] at free
    rw [List.cons_append, put, if_neg (by simpa using Ne.symm free.1), ih free.2]
    rfl

end Entries

/-- What has been read in the middle of a section: the sections before it, and some of its pairs. -/
def Reading.within (front : Entries) (name : Text) (entries : Entries) : Reading where
  root := front ++ [(name, .table .header entries)]
  path := [name]

namespace Reading

variable {front entries : Entries} {name : Text}

theorem add_within (fresh : name ∉ front.keys) (free : key ∉ entries.keys) (item : Item) :
    (within front name entries).add [] key item =
      some (within front name (entries ++ [(key, item)])) := by
  simp only [add, within, Entries.change, Entries.addValue, Entries.get?_append fresh,
    Entries.get?_eq_none free, Entries.put_of_not_mem free, Entries.put_append fresh]
  rfl

end Reading

/-- A pair with the text that its value is written as. -/
structure Pair where
  key : Text
  value : Text
  item : Item

namespace Pair

def line (pair : Pair) : Text := pairLine pair.key pair.value

def entry (pair : Pair) : Text × Item := (pair.key, pair.item)

structure Valid (pair : Pair) : Prop where
  keyed : isKey pair.key = true
  writes : Writes pair.value pair.item

end Pair

structure Section where
  name : Text
  pairs : List Pair

namespace Section

def lines (part : Section) : Text :=
  ['['] ++ part.name ++ [']', '\n'] ++ part.pairs.flatMap Pair.line

def entry (part : Section) : Text × Item := (part.name, .table .header (part.pairs.map Pair.entry))

structure Valid (part : Section) : Prop where
  named : isKey part.name = true
  nodup : (part.pairs.map Pair.key).Nodup
  pairs : ∀ pair ∈ part.pairs, pair.Valid

end Section

variable {front : Entries} {name : Text}

theorem keys_map_entry (pairs : List Pair) :
    Entries.keys (pairs.map Pair.entry) = pairs.map Pair.key := by
  simp [Entries.keys, Pair.entry, Function.comp_def]

theorem statements?_pair (reading : Reading) {next : Reading} {pair : Pair} (valid : pair.Valid)
    (added : reading.add [] pair.key pair.item = some next) (rest : Text) :
    statements? reading (pair.line ++ rest) = statements? next rest := by
  obtain ⟨c, tail, shape, inside, -⟩ := exists_of_isKey valid.keyed
  have starts := startsPart_of_isWordChar (isWordChar_of_isKeyChar inside)
  have read := statement?_pairLine reading valid.keyed valid.writes rest
  rw [added] at read
  refine statements?_step ?_ ?_ read ?_
  · simp only [Pair.line, pairLine, shape, List.cons_append, List.append_assoc]
    exact skipGaps_cons starts _
  · simp [pairLine, shape]
  · simp [Pair.line, pairLine, shape]
    omega

/-- The lines of a section, after some that have been read. -/
theorem statements?_pairs (fresh : name ∉ front.keys) (done pairs : List Pair)
    (nodup : ((done ++ pairs).map Pair.key).Nodup) (valid : ∀ pair ∈ pairs, pair.Valid)
    (rest : Text) :
    statements? (.within front name (done.map Pair.entry)) (pairs.flatMap Pair.line ++ rest) =
      statements? (.within front name ((done ++ pairs).map Pair.entry)) rest := by
  induction pairs generalizing done with
  | nil => rw [List.append_nil]; rfl
  | cons pair others ih =>
    have free : pair.key ∉ Entries.keys (done.map Pair.entry) := by
      rw [keys_map_entry]
      intro member
      rw [List.map_append, List.map_cons, List.nodup_append] at nodup
      exact nodup.2.2 _ member _ List.mem_cons_self rfl
    have first := statements?_pair (.within front name (done.map Pair.entry))
      (valid pair List.mem_cons_self) (Reading.add_within fresh free pair.item)
      (others.flatMap Pair.line ++ rest)
    have later := ih (done ++ [pair]) (by simpa using nodup)
      fun other member => valid other (List.mem_cons_of_mem pair member)
    rw [List.flatMap_cons, List.append_assoc, first]
    simpa [Pair.entry] using later

theorem statements?_section (path : List Text) {part : Section} (fresh : part.name ∉ front.keys)
    (valid : part.Valid) {gap : Text} (empty : gap = [] ∨ gap = ['\n']) (rest : Text) :
    statements? ⟨front, path⟩ (gap ++ (part.lines ++ rest)) =
      statements? ⟨front ++ [part.entry], [part.name]⟩ rest := by
  have read := statement?_header ⟨front, path⟩ valid.named (part.pairs.flatMap Pair.line ++ rest)
  have opened : Entries.openTable [] part.name front =
      some (front ++ [(part.name, .table .header [])]) := by
    simp only [Entries.openTable, Entries.change, Entries.get?_eq_none fresh,
      Entries.put_of_not_mem fresh]
  have shape : part.lines ++ rest = '[' :: (part.name ++ ']' :: '\n' ::
      (part.pairs.flatMap Pair.line ++ rest)) := by simp [Section.lines]
  rw [opened] at read
  rw [shape, statements?_step ?_ (by simp) read (by simp; omega)]
  · exact statements?_pairs fresh [] part.pairs valid.nodup valid.pairs rest
  · rcases empty with rfl | rfl
    · exact skipGaps_cons rfl _
    · exact (skipGaps_newline _).trans (skipGaps_cons rfl _)

theorem statements?_nil (reading : Reading) {gap : Text} (empty : gap = [] ∨ gap = ['\n']) :
    statements? reading gap = some reading.root := by
  have nothing : skipGaps gap = [] := by
    rcases empty with rfl | rfl
    · rw [skipGaps]
      rfl
    · rw [skipGaps_newline, skipGaps]
      rfl
  rw [statements?, nothing]

/-- Sections with an empty line between them are read as the table of them, in order. -/
theorem statements?_sections (path : List Text) (parts : List Section)
    (nodup : (front.keys ++ parts.map Section.name).Nodup) (valid : ∀ part ∈ parts, part.Valid)
    {gap : Text} (empty : gap = [] ∨ gap = ['\n']) :
    statements? ⟨front, path⟩ (gap ++ ['\n'].intercalate (parts.map Section.lines)) =
      some (front ++ parts.map Section.entry) := by
  induction parts generalizing front path gap with
  | nil =>
    rw [List.map_nil, List.intercalate_nil, List.append_nil, statements?_nil _ empty]
    simp
  | cons part others ih =>
    have fresh : part.name ∉ front.keys := by
      intro member
      rw [List.map_cons, List.nodup_append] at nodup
      exact nodup.2.2 _ member _ List.mem_cons_self rfl
    have first := statements?_section path fresh (valid part List.mem_cons_self) empty
    cases others with
    | nil => simpa [statements?_nil _ (Or.inl rfl)] using first []
    | cons second more =>
      rw [List.map_cons, List.intercalate_cons_of_ne_nil (by simp), List.append_assoc, first, ih]
      · simp
      · simpa [Entries.keys, Section.entry] using nodup
      · exact fun other member => valid other (List.mem_cons_of_mem part member)
      · exact Or.inr rfl

/-- A file of sections is read as the table of them. -/
theorem parse?_sections {parts : List Section} (nodup : (parts.map Section.name).Nodup)
    (valid : ∀ part ∈ parts, part.Valid) :
    parse? (['\n'].intercalate (parts.map Section.lines)) = some (parts.map Section.entry) := by
  have read := @statements?_sections [] [] parts nodup valid [] (Or.inl rfl)
  have noMark : ∀ more, ['\n'].intercalate (parts.map Section.lines) ≠ '\uFEFF' :: more := by
    intro more same
    match parts with
    | [] => cases same
    | [_] | _ :: _ :: _ => cases same
  rw [List.nil_append, List.nil_append] at read
  rw [parse?.eq_def]
  split
  · next same => exact absurd same (noMark _)
  · exact read

end SambaShares.Toml
