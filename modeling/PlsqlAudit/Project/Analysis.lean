import PlsqlAudit.Detection.Engine
import PlsqlAudit.Project.Sources
import PlsqlAudit.Report.Basic

/-!
# Analysing a project
-/

namespace PlsqlAudit

/-- Why a configuration file is of no use. -/
inductive ConfigError where
  | unreadable (path : String)
  | invalid (path : String)
  deriving DecidableEq, Repr, Inhabited

/-- What the user is told. -/
def ConfigError.message : ConfigError → String
  | .unreadable path => "Failed to read " ++ path
  | .invalid path => "Invalid config " ++ path

namespace Config

/-- The configuration in the file that a path leads to. -/
def load (files : Files) (path : String) : Except ConfigError Config :=
  match files.text? path with
  | none => .error (.unreadable path)
  | some text =>
    match ofText? text with
    | some config => .ok config
    | none => .error (.invalid path)

/-- The configuration of the project at a root, which is the default one where
there is no file or where it is of no use. -/
def ofProject (files : Files) (root : String) : Config :=
  (load files (Path.join root fileName)).toOption.getD {}

end Config

/-- The report on the project at a root. -/
def Project.analyse (files : Files) (user : List Ignore.Rule) (config : Config) (workers : Nat)
    (root : String) : Report :=
  let (units, skipped) := units files (sources files user config root)
  let engine : Engine := { detectors := config.detectors, workers }
  Report.ofFindings (engine.run units) units.length skipped

end PlsqlAudit
