import SambaShares.Text.Basic
/-!
Points in time as they stand in the names of backups: date and time of day with leading zeros and
microseconds, so that the order of the texts is the order in time.
-/

namespace SambaShares.Stamp

/-- The year, month and day that so many days after the first of January 1970 is. -/
def date (days : Nat) : Nat × Nat × Nat :=
  let shifted := days + 719468
  let era := shifted / 146097
  let dayOfEra := shifted % 146097
  let yearOfEra :=
    (dayOfEra - dayOfEra / 1460 + dayOfEra / 36524 - dayOfEra / 146096) / 365
  let dayOfYear := dayOfEra - (365 * yearOfEra + yearOfEra / 4 - yearOfEra / 100)
  let monthFromMarch := (5 * dayOfYear + 2) / 153
  let day := dayOfYear - (153 * monthFromMarch + 2) / 5 + 1
  let month := if monthFromMarch < 10 then monthFromMarch + 3 else monthFromMarch - 9
  (yearOfEra + era * 400 + (if month ≤ 2 then 1 else 0), month, day)

/-- The text of so many microseconds after the beginning of the year 1970. -/
def text (micros : Nat) : Text :=
  let seconds := micros / 1000000
  let (year, month, day) := date (seconds / 86400)
  Text.padded 4 year ++ Text.padded 2 month ++ Text.padded 2 day ++ ['_'] ++
    Text.padded 2 (seconds / 3600 % 24) ++ Text.padded 2 (seconds / 60 % 60) ++
    Text.padded 2 (seconds % 60) ++ ['.'] ++ Text.padded 6 (micros % 1000000)

example : text 0 = "19700101_000000.000000".toList := by decide
example : text 951782399999999 = "20000228_235959.999999".toList := by decide
example : text 951782400000000 = "20000229_000000.000000".toList := by decide

end SambaShares.Stamp
