import PlsqlAudit.Detection.Detector
import PlsqlAudit.Path.Basic

/-!
# The detection engine

The engine runs every detector on every unit, and puts what they find in the order
of file, place and detector.  Findings that tie stay in the order in which they
were found: unit by unit, and within a unit detector by detector.  Only the first
findings in that order are kept, up to a limit.
-/

namespace PlsqlAudit

/-- The order in which findings are reported. -/
def Finding.compare : Finding → Finding → Ordering :=
  compareLex (fun a b => Path.compare a.file b.file)
    (compareLex (compareOn Finding.offset) (compareOn Finding.detector))

/-- A set of detectors and how to run them. -/
structure Engine where
  detectors : List Detector := []
  /-- How many workers run at a time, or zero for as many as there are processors. -/
  workers : Nat := 0
  /-- How many findings are kept. -/
  limit : Nat := 10000

namespace Engine

/-- Every detector on every unit. -/
def runs (engine : Engine) (units : List SourceUnit) : List DetectorRun :=
  units.flatMap fun unit => engine.detectors.map (·.run unit)

/-- Findings in the order in which they are reported. -/
def arrange (findings : List Finding) : List Finding :=
  findings.mergeSort fun a b => (a.compare b).isLE

/-- What the detectors find in the units. -/
def run (engine : Engine) (units : List SourceUnit) : List Finding :=
  (arrange (foundBy (engine.runs units))).take engine.limit

end Engine

end PlsqlAudit
