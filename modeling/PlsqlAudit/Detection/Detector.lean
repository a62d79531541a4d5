import PlsqlAudit.Detection.Unit
import PlsqlAudit.Finding.Basic

/-!
# Detectors

A detector looks at one unit and reports its findings.  It may also fail, with a
message of its own, or crash; either way the other runs go on.
-/

namespace PlsqlAudit

/-- Why a detector has no findings to report. -/
inductive Fault where
  /-- The detector gave up on the unit. -/
  | failure (message : String)
  /-- The detector broke down. -/
  | crash (message : String)
  deriving DecidableEq, Repr, Inhabited

/-- What is recorded for a fault on the file at `path`. -/
def Fault.message (path : String) : Fault → String
  | .failure message => path ++ ": " ++ message
  | .crash message => "Panic: " ++ message

/-- A check for one kind of violation. -/
structure Detector where
  name : String
  description : String
  category : String := "security"
  /-- How many findings on one unit are kept, if there is a limit. -/
  limit : Option Nat := none
  detect : SourceUnit → Except Fault (List Finding)

/-- What came of running a detector on a unit.  Whether the run succeeded is recorded apart
from its findings and from its message, so a run that failed may have findings too. -/
structure DetectorRun where
  detector : String
  findings : List Finding
  /-- How long the run took, in milliseconds. -/
  duration : Nat
  succeeded : Bool
  /-- What went wrong, if anything. -/
  error : Option String
  deriving Repr, Inhabited

namespace DetectorRun

/-- A run that went well. -/
def success (detector : String) (findings : List Finding) (duration : Nat) : DetectorRun where
  detector := detector
  findings := findings
  duration := duration
  succeeded := true
  error := none

/-- A run that went wrong, and has found nothing. -/
def failure (detector message : String) (duration : Nat) : DetectorRun where
  detector := detector
  findings := []
  duration := duration
  succeeded := false
  error := some message

end DetectorRun

/-- Runs a detector on a unit and keeps as many findings as it may report.  No clock is
read: the run takes no time. -/
def Detector.run (detector : Detector) (unit : SourceUnit) : DetectorRun :=
  match detector.detect unit with
  | .ok findings =>
    match detector.limit with
    | some limit => .success detector.name (findings.take limit) 0
    | none => .success detector.name findings 0
  | .error fault => .failure detector.name (fault.message unit.path) 0

/-- What the runs that succeeded have found, one run after the other. -/
def foundBy (runs : List DetectorRun) : List Finding :=
  (runs.filter (·.succeeded)).flatMap (·.findings)

end PlsqlAudit
