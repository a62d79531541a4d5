import PlsqlAudit.Report.Basic

/-!
# Reports for the terminal

A report as plain lines: a title, the number of files, the counts by severity,
two lines for each finding, and the files that were skipped.  Where colours are
wanted, each styled piece is written as the escapes of its styles, the piece, and
one escape that ends them all.
-/

namespace PlsqlAudit

/-- A style of a piece of text. -/
inductive Style where
  | red
  | green
  | yellow
  | blue
  | cyan
  | bold
  | dim
  deriving DecidableEq, Repr, Inhabited

namespace Style

/-- The number that selects a style on a terminal. -/
def code : Style → String
  | .red => "31"
  | .green => "32"
  | .yellow => "33"
  | .blue => "34"
  | .cyan => "36"
  | .bold => "1"
  | .dim => "2"

/-- The escape for a number. -/
def escape (code : String) : String := "\x1b[" ++ code ++ "m"

/-- A piece of text in the given styles, or as it is where there are no colours. -/
def apply (colour : Bool) (styles : List Style) (piece : String) : String :=
  if colour then String.join (styles.map (escape ·.code)) ++ piece ++ escape "0" else piece

end Style

/-- The mark of a severity and its styles. -/
def Severity.tag : Severity → List Style × String
  | .critical => ([.red, .bold], "[C]")
  | .high => ([.red], "[H]")
  | .medium => ([.yellow], "[M]")
  | .low => ([.blue], "[L]")
  | .info => ([.dim], "[I]")

namespace Report

/-- The counts that are not zero, from the heaviest severity down to `low`. -/
def countParts (colour : Bool) (s : Summary) : List String :=
  let part (style : Style) (count : Nat) (word : String) : List String :=
    if count = 0 then [] else [Style.apply colour [style] (toString count ++ " " ++ word)]
  part .red s.critical "critical" ++ part .red s.high "high" ++ part .yellow s.medium "medium" ++
    part .blue s.low "low"

/-- The two lines of a finding. -/
def findingLines (colour : Bool) (f : Finding) : String :=
  let (styles, mark) := f.severity.tag
  let location := f.file ++ ":" ++ toString f.line ++ ":" ++ toString f.column
  "  " ++ Style.apply colour styles mark ++ "  " ++ Style.apply colour [.cyan] location ++ "  " ++
    f.title ++ "\n" ++ "       " ++ f.message ++ "\n"

/-- The text of a report for the terminal. -/
def terminalText (colour : Bool) (r : Report) : String :=
  let rule := String.ofList (List.replicate 38 '─')
  let counts := countParts colour r.summary
  "\n" ++ Style.apply colour [.bold] "plsql-guard analysis" ++ "\n" ++
    Style.apply colour [.dim] rule ++ "\n" ++
    "Files: " ++ toString r.filesAnalyzed ++ "  Skipped: " ++ toString r.filesSkipped.length ++
    "\n\n" ++
    Style.apply colour [.bold] "FINDINGS" ++ " (" ++ toString r.summary.total ++ " total)\n" ++
    (if counts.isEmpty then "" else "  " ++ " | ".intercalate counts ++ "\n") ++ "\n" ++
    String.join (r.findings.map (findingLines colour)) ++
    (if r.filesSkipped.isEmpty then ""
      else "\n" ++ Style.apply colour [.bold] "SKIPPED" ++ "\n" ++
        String.join (r.filesSkipped.map fun file =>
          "  " ++ Style.apply colour [.dim] file ++ "\n")) ++
    (if r.findings.isEmpty then
        Style.apply colour [.green] "No unsanitized parameters reach dynamic SQL." ++ "\n"
      else "")

end Report

end PlsqlAudit
