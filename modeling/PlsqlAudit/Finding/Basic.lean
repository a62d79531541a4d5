import PlsqlAudit.Digest.Sha256
import PlsqlAudit.Finding.Severity
import PlsqlAudit.Text.Hex

/-!
# Findings

A finding is one violation of a guideline at one place of one file.  Its
identifier is the start of a digest of what makes it the finding it is, so that
it stays the same from one run to the next.
-/

namespace PlsqlAudit

/-- One reported violation of a guideline. -/
structure Finding where
  id : String := ""
  detector : String := ""
  /-- The number of the guideline, or zero where there is none. -/
  guideline : Nat := 0
  severity : Severity := .info
  title : String := ""
  message : String := ""
  file : String := ""
  line : Nat := 0
  column : Nat := 0
  /-- Where the offending text starts, in bytes. -/
  offset : Nat := 0
  /-- How long the offending text is, in bytes. -/
  length : Nat := 0
  /-- The offending text as it is written. -/
  data : String := ""
  category : Option String := none
  cwe : Option String := none
  suggestedFix : Option String := none
  deriving DecidableEq, Repr, Inhabited

/-- The identifier of a finding: sixteen digits in base sixteen, taken from the
digest of the detector, the file, the offset and the message, a line each. -/
def Finding.identifier (detector file : String) (offset : Nat) (message : String) : String :=
  let text := detector ++ "\n" ++ file ++ "\n" ++ toString offset ++ "\n" ++ message
  String.ofList (((Sha256.digest text.toUTF8.data.toList).take 8).flatMap Text.hexByte)

end PlsqlAudit
