/-!
# Points in time

A point in time is written as its day, its time of the day and its distance from
universal time, which is none.  Days are counted from the first of March of the
year zero, so that a leap day is the last day of its year.
-/

namespace PlsqlAudit.Instant

/-- The year, month and day that is the given number of days after the first of
January 1970. -/
def dateOf (days : Nat) : Nat × Nat × Nat :=
  let n := days + 719468
  let era := n / 146097
  let inEra := n % 146097
  let year := (inEra - inEra / 1460 + inEra / 36524 - inEra / 146096) / 365
  let inYear := inEra - (365 * year + year / 4 - year / 100)
  let march := (5 * inYear + 2) / 153
  let day := inYear - (153 * march + 2) / 5 + 1
  let month := if march < 10 then march + 3 else march - 9
  (era * 400 + year + (if month ≤ 2 then 1 else 0), month, day)

/-- A number with zeros in front of it, up to the given width. -/
def padded (width n : Nat) : String :=
  let digits := (toString n).toList
  String.ofList (List.replicate (width - digits.length) '0' ++ digits)

/-- The text of the point in time that is the given number of nanoseconds after
the start of 1970. -/
def spell (nanoseconds : Nat) : String :=
  let seconds := nanoseconds / 1000000000
  let (year, month, day) := dateOf (seconds / 86400)
  let time := seconds % 86400
  padded 4 year ++ "-" ++ padded 2 month ++ "-" ++ padded 2 day ++ "T" ++
    padded 2 (time / 3600) ++ ":" ++ padded 2 (time / 60 % 60) ++ ":" ++ padded 2 (time % 60) ++
    "." ++ padded 9 (nanoseconds % 1000000000) ++ "+00:00"

end PlsqlAudit.Instant
