import SambaShares.Text.Basic
/-!
White space, and what depends on it: trimming, words, blank lines. The class is the Unicode
property White_Space, not only its ASCII part.
-/

namespace SambaShares

/-- The characters with the Unicode property White_Space. -/
def isBlank (c : Char) : Bool :=
  let n := c.toNat
  (9 ≤ n && n ≤ 13) || n == 0x20 || n == 0x85 || n == 0xA0 || n == 0x1680 ||
    (0x2000 ≤ n && n ≤ 0x200A) || n == 0x2028 || n == 0x2029 || n == 0x202F || n == 0x205F ||
    n == 0x3000

namespace Text

/-- The text without the longest run of characters in `drop` at its end. -/
def stripEnd (drop : Char → Bool) (text : Text) : Text :=
  (text.reverse.dropWhile drop).reverse

/-- The text without the characters in `drop` at both ends. -/
def strip (drop : Char → Bool) (text : Text) : Text :=
  stripEnd drop (text.dropWhile drop)

def trim (text : Text) : Text := strip isBlank text

def trimEnd (text : Text) : Text := stripEnd isBlank text

def isBlankText (text : Text) : Bool := text.all isBlank

/-- The longest pieces of a text that hold no white space. -/
def words (text : Text) : List Text := (text.splitOnP isBlank).filter (!·.isEmpty)

end Text

end SambaShares
