import PlsqlAudit.Json.Printer
import PlsqlAudit.Report.Basic
import PlsqlAudit.Text.Occurrence

/-!
# Reports in SARIF

SARIF is the JSON format in which static analysers tell other tools what they
found.  A log has one result for each finding, in their order, and one rule for
each rule identifier among them, in the order of the identifiers.  A rule speaks
for all findings that carry its identifier: its level and score are those of the
heaviest one, its name and title come from the first one, and its tag is the
first weakness that any of them names.
-/

namespace PlsqlAudit

/-- The name under which the program presents itself. -/
def toolName : String := "plsql-guard"

/-- The version that the program reports. -/
def toolVersion : String := "0.1.0"

namespace Sarif

/-- What a reader should make of a result. -/
inductive Level where
  | error
  | warning
  | note
  deriving DecidableEq, Repr, Inhabited

/-- The word for a level. -/
def Level.name : Level → String
  | .error => "error"
  | .warning => "warning"
  | .note => "note"

/-- The level of a severity. -/
def Level.ofSeverity : Severity → Level
  | .critical | .high => .error
  | .medium => .warning
  | .low | .info => .note

/-- How grave a severity is on a scale from zero to ten. -/
def score : Severity → String
  | .critical => "9.5"
  | .high => "7.5"
  | .medium => "5.0"
  | .low => "2.5"
  | .info => "1.0"

/-- The rule that a finding violates: its guideline, or else its detector. -/
def ruleId (f : Finding) : String :=
  if 0 < f.guideline then "G-" ++ toString f.guideline else f.detector

/-- One rule that some finding violates. -/
structure Rule where
  id : String
  name : String
  title : String
  level : Level
  tags : List String
  score : String
  deriving DecidableEq, Repr, Inhabited

/-- A stretch of a file. -/
structure Region where
  startLine : Nat
  startColumn : Nat
  /-- The column after the last one of the stretch. -/
  endColumn : Nat
  charOffset : Nat
  charLength : Nat
  deriving DecidableEq, Repr, Inhabited

/-- One finding. -/
structure Result where
  ruleId : String
  level : Level
  message : String
  uri : String
  region : Region
  fingerprint : String
  severity : Severity
  category : Option String
  cwe : Option String
  fix : Option String
  deriving DecidableEq, Repr, Inhabited

/-- Everything that is reported on one run. -/
structure Log where
  rules : List Rule
  results : List Result
  /-- One warning for each file that was skipped. -/
  warnings : List String
  endTime : String
  deriving DecidableEq, Repr, Inhabited

/-- Puts an identifier in its place among ascending ones, unless it is there. -/
def insertId (id : String) : List String → List String
  | [] => [id]
  | other :: rest =>
    if id < other then id :: other :: rest
    else if id = other then other :: rest
    else other :: insertId id rest

/-- The identifiers of the rules that are violated, each once, in ascending order. -/
def ruleIds (findings : List Finding) : List String :=
  findings.foldl (fun ids f => insertId (ruleId f) ids) []

/-- The heaviest severity among the findings. -/
def heaviest (findings : List Finding) : Severity :=
  findings.foldl (fun severity f => max severity f.severity) .info

/-- The rule with the given identifier, for the findings that carry it. -/
def Rule.ofFindings (id : String) (findings : List Finding) : Rule where
  id := id
  name := (findings.head?.map fun f => Text.without f.detector "Detector").getD ""
  title := (findings.head?.map (·.title)).getD ""
  level := .ofSeverity (heaviest findings)
  tags := "security" :: (findings.findSome? (·.cwe)).toList
  score := Sarif.score (heaviest findings)

/-- How many columns there are: they are numbers of 32 bits, and zero comes again
after the largest. -/
def columnCount : Nat := 4294967296

/-- The region of a finding. -/
def Region.ofFinding (f : Finding) : Region :=
  ⟨f.line, f.column, (f.column + f.data.length) % columnCount, f.offset, f.length⟩

/-- The result for a finding. -/
def Result.ofFinding (f : Finding) : Result where
  ruleId := Sarif.ruleId f
  level := .ofSeverity f.severity
  message := f.message
  uri := Text.replaceChar '\\' '/' f.file
  region := .ofFinding f
  fingerprint := f.id
  severity := f.severity
  category := f.category
  cwe := f.cwe
  fix := f.suggestedFix

/-- The log of a report that was finished at the given time. -/
def Log.ofReport (endTime : String) (r : Report) : Log where
  rules := (ruleIds r.findings).map fun id =>
    .ofFindings id (r.findings.filter fun f => ruleId f = id)
  results := r.findings.map .ofFinding
  warnings := r.filesSkipped.map fun file =>
    "Skipped " ++ file ++ ": could not be read or parsed"
  endTime := endTime

/-- A message as JSON. -/
def messageJson (text : String) : Json := .object [("text", .string text)]

/-- A field that is only written where there is a value. -/
def fieldIfAny (name : String) : Option String → List (String × Json)
  | some value => [(name, .string value)]
  | none => []

/-- A rule as JSON. -/
def Rule.toJson (rule : Rule) : Json :=
  .object [
    ("id", .string rule.id),
    ("name", .string rule.name),
    ("shortDescription", messageJson rule.title),
    ("defaultConfiguration", .object [("level", .string rule.level.name)]),
    ("properties", .object [
      ("tags", .array (rule.tags.map .string)),
      ("security-severity", .string rule.score)])]

/-- A region as JSON. -/
def Region.toJson (region : Region) : Json :=
  .object [
    ("startLine", .ofNat region.startLine),
    ("startColumn", .ofNat region.startColumn),
    ("endColumn", .ofNat region.endColumn),
    ("charOffset", .ofNat region.charOffset),
    ("charLength", .ofNat region.charLength)]

/-- A result as JSON. -/
def Result.toJson (result : Result) : Json :=
  .object <|
    [("ruleId", .string result.ruleId),
      ("level", .string result.level.name),
      ("message", messageJson result.message),
      ("locations", .array [.object [("physicalLocation", .object [
        ("artifactLocation", .object [
          ("uri", .string result.uri),
          ("uriBaseId", .string "%SRCROOT%")]),
        ("region", result.region.toJson)])]]),
      ("partialFingerprints", .object [("plsqlGuard/v1", .string result.fingerprint)]),
      ("properties", .object <|
        [("severity", .string result.severity.name)] ++ fieldIfAny "category" result.category ++
          fieldIfAny "cweId" result.cwe)] ++
    (match result.fix with
      | some fix => [("fixes", .array [.object [("description", messageJson fix)]])]
      | none => [])

/-- The schema that a log follows. -/
def schema : String :=
  "https://raw.githubusercontent.com/oasis-tcs/sarif-spec/master/Schemata/sarif-schema-2.1.0.json"

/-- A log as JSON. -/
def Log.toJson (log : Log) : Json :=
  let warning (text : String) : Json :=
    .object [("level", .string "warning"), ("message", messageJson text)]
  .object [
    ("$schema", .string schema),
    ("version", .string "2.1.0"),
    ("runs", .array [.object [
      ("tool", .object [("driver", .object [
        ("name", .string toolName),
        ("version", .string toolVersion),
        ("rules", .array (log.rules.map Rule.toJson))])]),
      ("results", .array (log.results.map Result.toJson)),
      ("invocations", .array [.object <|
        [("executionSuccessful", .bool true), ("endTimeUtc", .string log.endTime)] ++
        (if log.warnings.isEmpty then []
          else [("toolExecutionNotifications", .array (log.warnings.map warning))])])]])]

end Sarif

/-- The text of a report in the SARIF format. -/
def Report.sarifText (endTime : String) (r : Report) : String :=
  (Sarif.Log.ofReport endTime r).toJson.pretty

end PlsqlAudit
