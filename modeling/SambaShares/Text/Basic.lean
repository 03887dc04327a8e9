/-!
Texts are lists of characters, so that every reader and writer of this library is a plain
recursion on a list. Cutting a text into lines and joining them are inverse to each other.
-/

namespace SambaShares

/-- A text, such as a line, a name or the content of a whole file. -/
abbrev Text := List Char

namespace Text

/-- The lines of a text, cut at each line feed and at nothing else. -/
def lines (text : Text) : List Text := text.splitOn '\n'

/-- The text with these lines, without a line feed after the last. -/
def ofLines (lines : List Text) : Text := ['\n'].intercalate lines

/-- Whatever cuts, the pieces hold characters of the text, and none that cuts. -/
theorem of_mem_splitOnP {cut : Char → Bool} {text piece : Text}
    (member : piece ∈ text.splitOnP cut) {c : Char} (inside : c ∈ piece) :
    cut c = false ∧ c ∈ text := by
  induction text generalizing piece with
  | nil =>
    rw [List.splitOnP_nil, List.mem_singleton] at member
    subst member
    cases inside
  | cons d rest ih =>
    have later : ∀ {other : Text}, other ∈ rest.splitOnP cut → c ∈ other →
        cut c = false ∧ c ∈ d :: rest :=
      fun found here => (ih found here).imp id (List.mem_cons_of_mem _)
    rw [List.splitOnP_cons_eq_if_modifyHead] at member
    split at member
    · rcases List.mem_cons.1 member with rfl | tail
      · cases inside
      · exact later tail inside
    · next kept =>
      obtain ⟨first, others, found⟩ := List.exists_cons_of_ne_nil (List.splitOnP_ne_nil cut rest)
      rw [found, List.modifyHead_cons] at member
      rcases List.mem_cons.1 member with rfl | tail
      · rcases List.mem_cons.1 inside with rfl | deeper
        · exact ⟨by simpa using kept, List.mem_cons_self⟩
        · exact later (found ▸ List.mem_cons_self) deeper
      · exact later (found ▸ List.mem_cons_of_mem _ tail) inside

theorem lines_ne_nil (text : Text) : lines text ≠ [] := List.splitOn_ne_nil '\n' text

@[simp] theorem ofLines_lines (text : Text) : ofLines (lines text) = text :=
  List.intercalate_splitOn '\n'

/-- Reading back joined lines gives the lines, if there is one and none holds a line feed. -/
theorem lines_ofLines {given : List Text} (some : given ≠ [])
    (single : ∀ line ∈ given, '\n' ∉ line) : lines (ofLines given) = given :=
  List.splitOn_intercalate '\n' single some

def ofNat (n : Nat) : Text := Nat.toDigits 10 n

/-- The decimal digits of a number, filled up with zeros on the left to `width` characters. -/
def padded (width n : Nat) : Text :=
  List.replicate (width - (ofNat n).length) '0' ++ ofNat n

/-- Whether `text` starts with `start`; if so, what follows. -/
def dropStart? (start : Text) : Text → Option Text :=
  fun text => if start.isPrefixOf text then some (text.drop start.length) else none

/-- Whether a text does not come after another. The order is that of the code points, which is the
order of the bytes too. -/
def lessEq (first second : Text) : Bool := !decide (second < first)

end Text

end SambaShares
