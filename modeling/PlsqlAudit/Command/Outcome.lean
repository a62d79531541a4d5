import PlsqlAudit.Project.Analysis
import PlsqlAudit.Report.Render

/-!
# Outcomes of a command

A command is a function of what it can see.  What it does is a value: what it
prints, the files that it writes, and the code that it exits with.
-/

namespace PlsqlAudit.Command

/-- Whether output is coloured.  It is where it goes to a terminal that knows
colours, unless the user is against it, or wherever the user insists. -/
def wantsColour (isTerminal : Bool) (environment : Environment) : Bool :=
  let knows := isTerminal && (environment "NO_COLOR").isNone &&
    (environment "TERM").any (· ≠ "dumb")
  (knows && environment "CLICOLOR" ≠ some "0") ||
    (environment "CLICOLOR_FORCE").any (· ≠ "0")

/-- What a command can see. -/
structure Session where
  files : Files
  environment : Environment := fun _ => none
  render : RenderSettings

/-- A file that is to be written. -/
structure FileWrite where
  /-- The names that lead from the root to the file. -/
  place : List String
  text : String
  /-- What the user is told where the file cannot be written. -/
  complaint : String
  deriving DecidableEq, Repr, Inhabited

/-- What a command does. -/
structure Outcome where
  exitCode : Nat := 0
  /-- What is printed as the result. -/
  output : String := ""
  /-- What is said on the way, on the channel for errors. -/
  log : List String := []
  /-- What is said at the end, on the channel for errors. -/
  notices : List String := []
  /-- The files that are written, before anything is printed. -/
  written : List FileWrite := []
  deriving Repr, Inhabited

/-- The outcome of a command that fails. -/
def Outcome.failure (message : String) : Outcome :=
  { exitCode := 1, notices := ["Error: " ++ message] }

end PlsqlAudit.Command
