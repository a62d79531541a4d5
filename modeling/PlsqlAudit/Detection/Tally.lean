import PlsqlAudit.Detection.Detector

/-!
# Tallies

A tally sums up detector runs as they come in.  Failed runs are counted, and
otherwise contribute nothing but their duration, whatever findings they have.
-/

namespace PlsqlAudit

/-- Counts over detector runs. -/
structure Tally where
  runs : Nat := 0
  succeeded : Nat := 0
  failed : Nat := 0
  findings : Nat := 0
  /-- How many findings there were of each severity that was met, the lightest
  first. -/
  bySeverity : List (Severity × Nat) := []
  /-- How long all runs took, in milliseconds. -/
  duration : Nat := 0
  deriving DecidableEq, Repr, Inhabited

namespace Tally

/-- Counts one more finding of the given severity. -/
def countOne (severity : Severity) : List (Severity × Nat) → List (Severity × Nat)
  | [] => [(severity, 1)]
  | (other, count) :: rest =>
    if severity = other then (other, count + 1) :: rest
    else if severity ≤ other then (severity, 1) :: (other, count) :: rest
    else (other, count) :: countOne severity rest

/-- How many durations there are: they are numbers of 64 bits, and zero comes again
after the largest. -/
def durationCount : Nat := 18446744073709551616

/-- The tally after one more run. -/
def add (t : Tally) (run : DetectorRun) : Tally :=
  let duration := (t.duration + run.duration) % durationCount
  let t := { t with runs := t.runs + 1, duration }
  if run.succeeded then
    { t with
      succeeded := t.succeeded + 1
      findings := t.findings + run.findings.length
      bySeverity := run.findings.foldl (fun counts f => countOne f.severity counts) t.bySeverity }
  else { t with failed := t.failed + 1 }

end Tally

end PlsqlAudit
