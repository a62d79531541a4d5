import PlsqlAudit.Detection.Detector
import PlsqlAudit.Detection.Options
import PlsqlAudit.Flow.DynamicSql

/-!
# Guideline 9501: no parameters in dynamic SQL

The detector reports every parameter that reaches dynamic SQL without having
been asserted.  Each is one finding, at the place where the parameter is read.
-/

namespace PlsqlAudit.Injection

/-- The name of the detector. -/
def detectorName : String := "SqlInjectionDetector"

/-- The number of the guideline. -/
def guideline : Nat := 9501

/-- What a finding says of the parameter. -/
def message (parameter : String) : String :=
  "G-9501: Never use parameter in string expression of dynamic SQL. " ++
    "Use asserted local variable instead. Parameter '" ++ parameter ++
    "' reaches dynamic SQL unasserted."

/-- How the violation can be mended. -/
def suggestedFix (parameter : String) : String :=
  "**Recommended fixes**:\n\n" ++
    "1. **Assert the parameter into a local variable** (preferred):\n" ++
    "```sql\n" ++
    "l_name := sys.dbms_assert.enquote_name(" ++ parameter ++ ");\n" ++
    "EXECUTE IMMEDIATE 'DROP TABLE ' || l_name || ' PURGE';\n" ++
    "```\n\n" ++
    "2. **Pass values as bind variables**:\n" ++
    "```sql\n" ++
    "EXECUTE IMMEDIATE 'DELETE FROM emp WHERE ename = :1' USING " ++ parameter ++ ";\n" ++
    "```"

/-- The finding for a parameter that is read at a place of a unit. -/
def finding (unit : SourceUnit) (p : Place) : Finding :=
  let parameter := unit.tree.text p
  { id := Finding.identifier detectorName unit.path p.span.offset (message parameter)
    detector := detectorName
    guideline := guideline
    severity := .critical
    title := "Unsanitized parameter in dynamic SQL"
    message := message parameter
    file := unit.path
    line := p.span.line.toNat
    column := p.span.column.toNat
    offset := p.span.offset
    length := p.span.length
    data := parameter
    category := some "security"
    cwe := some "CWE-89"
    suggestedFix := some (suggestedFix parameter) }

/-- The findings of a unit. -/
def findings (list : AllowList) (unit : SourceUnit) : List Finding :=
  (unit.tree.exposures list).map (finding unit)

/-- The allow list that the options ask for. -/
def allowListOf (options : DetectorOptions) : AllowList :=
  match options.get? "sanitizer_packages" (Json.list? Json.text?) with
  | some entries => AllowList.ofList entries
  | none => AllowList.standard

/-- The detector with the given allow list. -/
def detector (list : AllowList) (limit : Option Nat) : Detector where
  name := detectorName
  description := "Detects parameters used unasserted in EXECUTE IMMEDIATE and OPEN FOR (G-9501)"
  limit := limit
  detect := fun unit => .ok (findings list unit)

end PlsqlAudit.Injection
