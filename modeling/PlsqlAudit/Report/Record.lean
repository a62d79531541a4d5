import PlsqlAudit.Json.Printer
import PlsqlAudit.Json.Reader
import PlsqlAudit.Json.Record
import PlsqlAudit.Report.Basic

/-!
# Reports as JSON

The JSON form of a report has one field for each part, in a fixed order.  Reading
is more lenient than writing: every field of a finding may be left out, but a
number that is out of range or a severity that is not spelled in small letters is
refused.
-/

namespace PlsqlAudit

/-- A severity as its name, or as an object that maps its name to null. -/
def Severity.ofJson? : Json → Option Severity
  | .string word => ofName? word
  | .object [(word, .null)] => ofName? word
  | _ => none

namespace Finding

/-- The fields of a finding in the order in which they are written. -/
def fieldNames : List String :=
  ["id", "detector", "guideline", "severity", "title", "message", "file", "line", "column",
    "offset", "length", "data", "category", "cwe_id", "suggested_fix"]

/-- A finding as JSON. -/
def toJson (f : Finding) : Json :=
  .object [
    ("id", .string f.id),
    ("detector", .string f.detector),
    ("guideline", .ofNat f.guideline),
    ("severity", .string f.severity.name),
    ("title", .string f.title),
    ("message", .string f.message),
    ("file", .string f.file),
    ("line", .ofNat f.line),
    ("column", .ofNat f.column),
    ("offset", .ofNat f.offset),
    ("length", .ofNat f.length),
    ("data", .string f.data),
    ("category", .ofString? f.category),
    ("cwe_id", .ofString? f.cwe),
    ("suggested_fix", .ofString? f.suggestedFix)]

/-- Reads a finding. -/
def ofJson? (json : Json) : Option Finding := do
  let fields ← json.record? fieldNames
  let id ← Json.optional fields "id" "" Json.text?
  let detector ← Json.optional fields "detector" "" Json.text?
  let guideline ← Json.optional fields "guideline" 0 Json.nat32?
  let severity ← Json.optional fields "severity" .info Severity.ofJson?
  let title ← Json.optional fields "title" "" Json.text?
  let message ← Json.optional fields "message" "" Json.text?
  let file ← Json.optional fields "file" "" Json.text?
  let line ← Json.optional fields "line" 0 Json.nat32?
  let column ← Json.optional fields "column" 0 Json.nat32?
  let offset ← Json.optional fields "offset" 0 Json.nat64?
  let length ← Json.optional fields "length" 0 Json.nat64?
  let data ← Json.optional fields "data" "" Json.text?
  let category ← Json.optional fields "category" none Json.textOrNull?
  let cwe ← Json.optional fields "cwe_id" none Json.textOrNull?
  let suggestedFix ← Json.optional fields "suggested_fix" none Json.textOrNull?
  return { id, detector, guideline, severity, title, message, file, line, column, offset, length,
           data, category, cwe, suggestedFix }

end Finding

namespace Summary

/-- The fields of a summary in the order in which they are written. -/
def fieldNames : List String := ["critical", "high", "medium", "low", "info", "total"]

/-- A summary as JSON. -/
def toJson (s : Summary) : Json :=
  .object [
    ("critical", .ofNat s.critical),
    ("high", .ofNat s.high),
    ("medium", .ofNat s.medium),
    ("low", .ofNat s.low),
    ("info", .ofNat s.info),
    ("total", .ofNat s.total)]

/-- Reads a summary, which has all six counts. -/
def ofJson? (json : Json) : Option Summary := do
  let fields ← json.record? fieldNames
  let critical ← Json.required fields "critical" Json.nat64?
  let high ← Json.required fields "high" Json.nat64?
  let medium ← Json.required fields "medium" Json.nat64?
  let low ← Json.required fields "low" Json.nat64?
  let info ← Json.required fields "info" Json.nat64?
  let total ← Json.required fields "total" Json.nat64?
  return { critical, high, medium, low, info, total }

end Summary

namespace Report

/-- The fields of a report in the order in which they are written. -/
def fieldNames : List String :=
  ["findings", "findings_summary", "files_analyzed", "files_skipped"]

/-- A report as JSON. -/
def toJson (r : Report) : Json :=
  .object [
    ("findings", .array (r.findings.map Finding.toJson)),
    ("findings_summary", r.summary.toJson),
    ("files_analyzed", .ofNat r.filesAnalyzed),
    ("files_skipped", .array (r.filesSkipped.map Json.string))]

/-- Reads a report; only the skipped files may be left out. -/
def ofJson? (json : Json) : Option Report := do
  let fields ← json.record? fieldNames
  let findings ← Json.required fields "findings" (Json.list? Finding.ofJson?)
  let summary ← Json.required fields "findings_summary" Summary.ofJson?
  let filesAnalyzed ← Json.required fields "files_analyzed" Json.nat64?
  let filesSkipped ← Json.optional fields "files_skipped" [] (Json.list? Json.text?)
  return { findings, summary, filesAnalyzed, filesSkipped }

/-- The text of a report in the JSON format. -/
def jsonText (r : Report) : String := r.toJson.pretty

/-- The report that a text in the JSON format holds. -/
def ofJsonText? (text : String) : Option Report := (Json.parse? text).bind ofJson?

end Report

end PlsqlAudit
