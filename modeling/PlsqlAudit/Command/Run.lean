import PlsqlAudit.Command.Check
import PlsqlAudit.Command.Init

/-!
# Running the program
-/

namespace PlsqlAudit.Command

/-- How the program is used. -/
def helpText : Scope → String
  | .program =>
    "Static analysis for PL/SQL: finds parameters that reach EXECUTE IMMEDIATE or " ++
    "OPEN ... FOR unasserted (G-9501)\n\n" ++
    "Usage: plsql-guard [OPTIONS] [PATH] [COMMAND]\n\n" ++
    "Commands:\n" ++
    "  init   Write a plsql-guard.toml with the default settings\n" ++
    "  check  Check PL/SQL sources for unsanitized parameters in dynamic SQL\n" ++
    "  help   Print this message or the help of the given subcommand(s)\n\n" ++
    "Options:\n" ++
    "      --log-level <LOG_LEVEL>  error, warn, info, debug or trace\n" ++
    "  -h, --help                   Print help\n" ++
    "  -V, --version                Print version\n"
  | .init =>
    "Write a plsql-guard.toml with the default settings\n\n" ++
    "Usage: plsql-guard init [OPTIONS] [PATH]\n"
  | .check =>
    "Check PL/SQL sources for unsanitized parameters in dynamic SQL\n\n" ++
    "Usage: plsql-guard check [OPTIONS] [PATH]\n\n" ++
    "Options:\n" ++
    "  -f, --format <FORMAT>    Output format: text, json, sarif\n" ++
    "  -o, --output <OUTPUT>    Output file path (default: stdout)\n" ++
    "      --config <CONFIG>    Config file (default: <PATH>/plsql-guard.toml)\n" ++
    "      --fail-on <FAIL_ON>  Exit with code 1 if findings at or above this severity exist\n" ++
    "      --workers <WORKERS>  Number of parallel workers (1-64, default: auto)\n"

/-- The outcome when reading the arguments ends early. -/
def Stop.outcome : Stop → Outcome
  | .help scope => { output := helpText scope }
  | .version => { output := toolName ++ " " ++ toolVersion ++ "\n" }
  | .usage error => { exitCode := 2, notices := [error.message] }

/-- Carries out a task. -/
def Task.run (session : Session) : Task → Outcome
  | .init path => Command.init session path
  | .check path options => Command.check session path options

/-- Runs the program with the given arguments. -/
def run (session : Session) (arguments : List String) : Outcome :=
  match Task.ofArguments session.environment arguments with
  | .ok task => task.run session
  | .error stop => stop.outcome

end PlsqlAudit.Command
