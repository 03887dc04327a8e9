import SambaShares.Text.Basic
/-!
Spans of time, and the short form in which messages give them: the largest unit that keeps a
whole part, with the fraction written out and no zeros at its end.
-/

namespace SambaShares

/-- A span of time in nanoseconds. -/
structure Duration where
  nanos : Nat
  deriving DecidableEq, Repr

namespace Duration

def ofSeconds (n : Nat) : Duration := ⟨n * 1000000000⟩

def ofMillis (n : Nat) : Duration := ⟨n * 1000000⟩

/-- A number of units whose fraction has `places` decimal places. -/
def decimal (places nanos : Nat) : Text :=
  let unit := Nat.pow 10 places
  let fraction := Text.padded places (nanos % unit)
  let shown := (fraction.reverse.dropWhile (· == '0')).reverse
  Text.ofNat (nanos / unit) ++ if shown.isEmpty || places == 0 then [] else '.' :: shown

def text (duration : Duration) : Text :=
  let n := duration.nanos
  if 1000000000 ≤ n then decimal 9 n ++ ['s']
  else if 1000000 ≤ n then decimal 6 n ++ ['m', 's']
  else if 1000 ≤ n then decimal 3 n ++ ['µ', 's']
  else decimal 0 n ++ ['n', 's']

example : (ofMillis 90500).text = "90.5s".toList := by decide
example : (ofMillis 20).text = "20ms".toList := by decide
example : (ofMillis 61001).text = "61.001s".toList := by decide
example : (ofSeconds 0).text = "0ns".toList := by decide

end Duration

end SambaShares
