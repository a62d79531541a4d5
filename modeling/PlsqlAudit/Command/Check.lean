import PlsqlAudit.Command.Arguments
import PlsqlAudit.Command.Outcome
import PlsqlAudit.Ignore.User

/-!
# Checking a project

A check fails before it looks at any source if its path, its configuration, its
format or its threshold is of no use, in that order.  It then reports, and exits
with code 1 if the threshold is met.  A configuration of the project that is of no
use and sources that cannot be read are only logged.
-/

namespace PlsqlAudit.Command

/-- Why a check ends without a report. -/
inductive CheckError where
  | missingPath (path : String)
  | config (error : ConfigError)
  | format (error : UnknownFormat)
  | threshold (error : UnknownSeverity)
  | unwritable (path : String)
  deriving DecidableEq, Repr, Inhabited

/-- What the user is told. -/
def CheckError.message : CheckError → String
  | .missingPath path => "Path does not exist: " ++ path
  | .config error => error.message
  | .format error => error.message
  | .threshold error => error.message
  | .unwritable path => "Failed to write " ++ path

/-- The directory whose configuration is used for a root: the root itself, or the
directory of a file. -/
def configRoot (files : Files) (root : String) : String :=
  match files.find? root with
  | some (.file _) =>
    let pieces := (Text.split '/' root).dropLast
    if pieces.isEmpty then "." else "/".intercalate pieces ++ "/"
  | _ => root

/-- A check whose settings are all known. -/
structure Settings where
  config : Config
  format : Format
  threshold : Option Severity
  workers : Nat
  deriving Repr, Inhabited

/-- The settings of a check, where options count before the configuration. -/
def Settings.ofOptions (files : Files) (root : String) (options : CheckOptions) :
    Except CheckError Settings := do
  if (files.find? root).isNone then throw (.missingPath root)
  let config ← match options.config with
    | some path => (Config.load files path).mapError .config
    | none => pure (Config.ofProject files (configRoot files root))
  let word := (options.format <|> config.defaults.format).getD "text"
  let format ← (Format.ofText word).mapError .format
  let threshold ← match options.failOn <|> config.defaults.failOn with
    | some word => ((Severity.ofText word).mapError .threshold).map some
    | none => pure none
  return { config, format, threshold,
           workers := (options.workers <|> config.defaults.workers).getD 0 }

/-- The text of a report as it is printed, on lines of its own. -/
def printed (format : Format) (text : String) : String :=
  if format = .text then text else text ++ "\n"

/-- Where a report goes: what is printed, what is said, and what is written. -/
def deliver (session : Session) (format : Format) (output : Option String) (text : String) :
    Except CheckError Outcome :=
  match output with
  | none => .ok { output := printed format text }
  | some path =>
    match session.files.target? path with
    | none => .error (.unwritable path)
    | some place =>
      .ok { notices := ["Report written to: " ++
              Style.apply session.render.colour [.cyan] path]
            written := [⟨place, text, (CheckError.unwritable path).message⟩] }

/-- What is logged about the configuration of the project at a root. -/
def configLog (files : Files) (root : String) (options : CheckOptions) : List LogEntry :=
  let path := Path.join (configRoot files root) Config.fileName
  if options.config.isSome || (files.find? path).isNone then []
  else
    match Config.load files path with
    | .ok _ => []
    | .error error => [⟨.warn, "Failed to load " ++ path ++ ": " ++ error.message⟩]

/-- What is logged about the sources under a root. -/
def sourceLog (files : Files) (root : String) (sources : List SourceFile) : List LogEntry :=
  ⟨.info, "Found " ++ toString sources.length ++ " PL/SQL files under " ++ root⟩ ::
    (Project.complaints files sources).map fun complaint => ⟨.warn, complaint⟩

/-- What is logged about the parameters that were found in a unit. -/
def unitLog (list : AllowList) (unit : SourceUnit) : List LogEntry :=
  let parameters := unit.tree.exposures list
  let found (p : Place) : LogEntry :=
    ⟨.trace, "Unsanitized parameter '" ++ unit.tree.text p ++ "' at " ++
      toString p.span.line ++ ":" ++ toString p.span.column⟩
  [⟨.debug, "Running detector " ++ Injection.detectorName ++ " on " ++ unit.path⟩] ++
    parameters.map found ++
    [⟨.debug, toString parameters.length ++ " unsanitized parameter(s) in " ++ unit.path⟩]

/-- Checks the project at a root whose settings are known. -/
def checkWith (session : Session) (root : String) (options : CheckOptions) (settings : Settings) :
    Except CheckError Outcome := do
  let user := Ignore.userRules session.files session.environment
  let report := Project.analyse session.files user settings.config settings.workers root
  let text := report.render session.render settings.format
  let outcome ← deliver session settings.format options.output text
  match settings.threshold with
  | none => return outcome
  | some threshold =>
    if report.meets threshold then
      return { outcome with
        exitCode := 1
        notices := outcome.notices ++
          ["Failing due to --fail-on=" ++ threshold.name ++ " threshold"] }
    else return outcome

/-- What is logged during a check of the project at a root. -/
def checkLog (session : Session) (root : String) (options : CheckOptions) : List LogEntry :=
  configLog session.files root options ++
    match Settings.ofOptions session.files root options with
    | .error _ => []
    | .ok settings =>
      let user := Ignore.userRules session.files session.environment
      let sources := Project.sources session.files user settings.config root
      let injection := settings.config.injection
      sourceLog session.files root sources ++
        if injection.enabled && options.logLevel.shows .debug then
          (Project.units session.files sources).1.flatMap (unitLog injection.allowList)
        else []

/-- Checks the project at a root. -/
def check (session : Session) (root : String) (options : CheckOptions) : Outcome :=
  let outcome := match Settings.ofOptions session.files root options >>=
      checkWith session root options with
    | .ok outcome => outcome
    | .error error => .failure error.message
  { outcome with log := shownLog options.logLevel (checkLog session root options) }

end PlsqlAudit.Command
