import PlsqlAudit.Detection.Injection
import PlsqlAudit.Project.Exclusion
import PlsqlAudit.Toml.Record

/-!
# Project configuration

A project is configured by a file in its root.  Each section and each setting may
be left out, and names that mean nothing here do not matter.
-/

namespace PlsqlAudit

/-- Settings of the check for parameters in dynamic SQL. -/
structure InjectionSettings where
  enabled : Bool := true
  /-- The packages whose functions assert their argument, as they are written. -/
  packages : List String := AllowList.defaultEntries
  deriving DecidableEq, Repr, Inhabited

/-- Which files are left out. -/
structure ExclusionSettings where
  /-- Patterns for the files that are left out. -/
  paths : List String := []
  /-- Whether the patterns that are always used are switched off. -/
  skipDefaults : Bool := false
  deriving DecidableEq, Repr, Inhabited

/-- Values for options that are not given on the command line. -/
structure OptionDefaults where
  format : Option String := none
  failOn : Option String := none
  workers : Option Nat := none
  deriving DecidableEq, Repr, Inhabited

/-- The configuration of a project. -/
structure Config where
  injection : InjectionSettings := {}
  exclusion : ExclusionSettings := {}
  defaults : OptionDefaults := {}
  deriving DecidableEq, Repr, Inhabited

/-- The packages whose functions assert their argument. -/
def InjectionSettings.allowList (settings : InjectionSettings) : AllowList :=
  AllowList.ofList settings.packages

/-- The patterns in force, each once: those that are always used, and then the
project's own. -/
def ExclusionSettings.patterns (settings : ExclusionSettings) : List String :=
  let always := if settings.skipDefaults then [] else Exclusion.defaultPatterns
  settings.paths.foldl
    (fun patterns path => if patterns.contains path then patterns else patterns ++ [path]) always

namespace Config

/-- The name of the file that configures a project. -/
def fileName : String := "plsql-guard.toml"

/-- True for a path, relative to the root of the project, that is left out. -/
def excludes (config : Config) (path : String) : Bool :=
  config.exclusion.patterns.any fun pattern =>
    Exclusion.globMatches pattern (Text.replaceChar '\\' '/' path)

/-- The detectors that are switched on. -/
def detectors (config : Config) : List Detector :=
  if config.injection.enabled then [Injection.detector config.injection.allowList none] else []

/-- Reads the settings of the check for parameters in dynamic SQL. -/
def injection? (value : Toml.Value) : Option InjectionSettings := do
  let fields ← value.record? ["enabled", "sanitizer_packages"]
  let enabled ← Toml.optional fields "enabled" true Toml.Value.bool?
  let packages ← Toml.optional fields "sanitizer_packages" AllowList.defaultEntries
    (Toml.Value.list? Toml.Value.text?)
  return { enabled, packages }

/-- Reads which files are left out. -/
def exclusion? (value : Toml.Value) : Option ExclusionSettings := do
  let fields ← value.record? ["paths", "skip_defaults"]
  let paths ← Toml.optional fields "paths" [] (Toml.Value.list? Toml.Value.text?)
  let skipDefaults ← Toml.optional fields "skip_defaults" false Toml.Value.bool?
  return { paths, skipDefaults }

/-- Reads the values for options that are not given. -/
def defaults? (value : Toml.Value) : Option OptionDefaults := do
  let fields ← value.record? ["format", "fail_on", "workers"]
  let format ← Toml.optional fields "format" none fun v => v.text?.map some
  let failOn ← Toml.optional fields "fail_on" none fun v => v.text?.map some
  let workers ← Toml.optional fields "workers" none fun v => v.nat?.map some
  return { format, failOn, workers }

/-- The configuration that the text of a file holds. -/
def ofText? (text : String) : Option Config := do
  let entries ← Toml.parse? text
  let fields := fun name => entries.lookup name
  let injection ← Toml.optional fields "sql_injection" {} injection?
  let exclusion ← Toml.optional fields "exclude" {} exclusion?
  let defaults ← Toml.optional fields "defaults" {} defaults?
  return { injection, exclusion, defaults }

end Config

end PlsqlAudit
