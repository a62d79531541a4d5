import PlsqlAudit.Report.Format
import PlsqlAudit.Report.Record
import PlsqlAudit.Report.Sarif
import PlsqlAudit.Report.Terminal

/-!
# Writing a report
-/

namespace PlsqlAudit

/-- What a report is written with, apart from its format. -/
structure RenderSettings where
  /-- Whether text for the terminal is coloured. -/
  colour : Bool := false
  /-- When the analysis ended, as SARIF tells it. -/
  endTime : String
  deriving DecidableEq, Repr, Inhabited

/-- The text of a report in a format. -/
def Report.render (settings : RenderSettings) (format : Format) (r : Report) : String :=
  match format with
  | .text => r.terminalText settings.colour
  | .json => r.jsonText
  | .sarif => r.sarifText settings.endTime

end PlsqlAudit
