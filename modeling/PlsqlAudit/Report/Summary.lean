import PlsqlAudit.Finding.Basic

/-!
# Counting findings

A summary has one count for every severity and their total.  The counts are
data of their own: a report that is read from a file may carry counts that do not
match its findings.
-/

namespace PlsqlAudit

/-- How many findings there are of each severity. -/
structure Summary where
  critical : Nat := 0
  high : Nat := 0
  medium : Nat := 0
  low : Nat := 0
  info : Nat := 0
  total : Nat := 0
  deriving DecidableEq, Repr, Inhabited

namespace Summary

/-- Counts one more finding. -/
def add (s : Summary) : Severity → Summary
  | .critical => { s with critical := s.critical + 1, total := s.total + 1 }
  | .high => { s with high := s.high + 1, total := s.total + 1 }
  | .medium => { s with medium := s.medium + 1, total := s.total + 1 }
  | .low => { s with low := s.low + 1, total := s.total + 1 }
  | .info => { s with info := s.info + 1, total := s.total + 1 }

/-- The summary of a list of findings. -/
def ofFindings (findings : List Finding) : Summary :=
  findings.foldl (fun s f => s.add f.severity) {}

/-- The count of one severity. -/
def count (s : Summary) : Severity → Nat
  | .critical => s.critical
  | .high => s.high
  | .medium => s.medium
  | .low => s.low
  | .info => s.info

/-- The number of findings that weigh at least as much as the threshold. -/
def atOrAbove (s : Summary) (threshold : Severity) : Nat :=
  (Severity.all.filter (threshold ≤ ·)).foldr (fun severity sum => s.count severity + sum) 0

end Summary

end PlsqlAudit
