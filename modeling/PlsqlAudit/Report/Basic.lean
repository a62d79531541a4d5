import PlsqlAudit.Report.Summary

/-!
# Reports

What an analysis of some files has found, and which of them it could not read.
-/

namespace PlsqlAudit

/-- The result of an analysis. -/
structure Report where
  findings : List Finding := []
  summary : Summary := {}
  filesAnalyzed : Nat := 0
  /-- The files that could not be read or parsed. -/
  filesSkipped : List String := []
  deriving DecidableEq, Repr, Inhabited

namespace Report

/-- The report on the given findings, with the counts that belong to them. -/
def ofFindings (findings : List Finding) (filesAnalyzed : Nat) (filesSkipped : List String) :
    Report :=
  ⟨findings, Summary.ofFindings findings, filesAnalyzed, filesSkipped⟩

/-- True when there are findings that weigh at least as much as the threshold. -/
def meets (report : Report) (threshold : Severity) : Bool :=
  0 < report.summary.atOrAbove threshold

end Report

end PlsqlAudit
