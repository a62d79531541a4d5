import PlsqlAudit.Command.Log
import PlsqlAudit.File.Tree
import PlsqlAudit.Finding.Severity
import PlsqlAudit.Text.Split

/-!
# Arguments of the command line

Arguments are read from left to right, and the first one that asks for help or the
version, or that cannot be understood, decides.  An option takes its value from the
same argument, after an equals sign or, for a short option, right behind the
letter, or else from the next argument, which must not look like an option.  After
two hyphens alone, nothing looks like an option any more.

The path and the log level may be given before or after the name of a
subcommand; what comes after it counts.
-/

namespace PlsqlAudit.Command

/-- What the arguments can be about: the program as such or one subcommand. -/
inductive Scope where
  | program
  | init
  | check
  deriving DecidableEq, Repr, Inhabited

/-- The options that take a value. -/
inductive OptionName where
  | logLevel
  | format
  | output
  | config
  | failOn
  | workers
  deriving DecidableEq, Repr, Inhabited

namespace OptionName

/-- How an option is written. -/
def spelling : OptionName → String
  | .logLevel => "--log-level"
  | .format => "--format"
  | .output => "--output"
  | .config => "--config"
  | .failOn => "--fail-on"
  | .workers => "--workers"

/-- The options that may be used in a scope. -/
def inScope : Scope → List OptionName
  | .program | .init => [.logLevel]
  | .check => [.logLevel, .format, .output, .config, .failOn, .workers]

/-- The short option of a letter. -/
def ofLetter? (scope : Scope) (letter : Char) : Option OptionName :=
  if scope = .check && letter = 'f' then some .format
  else if scope = .check && letter = 'o' then some .output
  else none

/-- The values that an option takes, if they are listed. -/
def choices? : OptionName → Option (List String)
  | .logLevel => some (LogLevel.all.map LogLevel.name)
  | .format => some ["text", "json", "sarif"]
  | .failOn => some ["critical", "high", "medium", "low"]
  | .output | .config | .workers => none

end OptionName

/-- Why arguments cannot be understood. -/
inductive UsageError where
  | unexpected (argument : String)
  | missingValue (option : OptionName)
  | repeated (option : OptionName)
  | invalidValue (option : OptionName) (value : String)
  | emptyPath
  deriving DecidableEq, Repr, Inhabited

/-- What the user is told. -/
def UsageError.message : UsageError → String
  | .unexpected argument => "error: unexpected argument '" ++ argument ++ "' found"
  | .missingValue option => "error: a value is required for '" ++ option.spelling ++ "'"
  | .repeated option =>
    "error: the argument '" ++ option.spelling ++ "' cannot be used multiple times"
  | .invalidValue option value =>
    "error: invalid value '" ++ value ++ "' for '" ++ option.spelling ++ "'"
  | .emptyPath => "error: a value is required for the path"

/-- Why reading the arguments ends early. -/
inductive Stop where
  | help (scope : Scope)
  | version
  | usage (error : UsageError)
  deriving DecidableEq, Repr, Inhabited

/-- What was given in one scope. -/
structure Given where
  path : Option String := none
  options : List (OptionName × String) := []
  deriving DecidableEq, Repr, Inhabited

/-- The number that a user means by digits, which may have a plus in front. -/
def natOf? (text : String) : Option Nat :=
  let digits := match text.toList with
    | '+' :: digits => digits
    | digits => digits
  if digits.isEmpty || !digits.all Char.isDigit then none
  else some (digits.foldl (fun n c => 10 * n + (c.toNat - 48)) 0)

/-- A number of workers: from 1 to 64. -/
def workersOf? (text : String) : Option Nat := do
  let n ← natOf? text
  if 1 ≤ n && n ≤ 64 then some n else none

/-- True for values that an option takes. -/
def OptionName.accepts (option : OptionName) (value : String) : Bool :=
  match option.choices? with
  | some words => words.contains value
  | none => if option = .workers then (workersOf? value).isSome else !value.isEmpty

namespace Given

/-- The value of an option. -/
def value? (given : Given) (option : OptionName) : Option String := given.options.lookup option

/-- Gives a value to an option, once. -/
def set (given : Given) (option : OptionName) (value : String) : Except Stop Given :=
  if (given.value? option).isSome then .error (.usage (.repeated option))
  else if option.accepts value then .ok { given with options := (option, value) :: given.options }
  else .error (.usage (.invalidValue option value))

/-- Takes an argument as the path, of which there is one. -/
def setPath (given : Given) (path : String) : Except Stop Given :=
  if given.path.isSome then .error (.usage (.unexpected path))
  else if path.isEmpty then .error (.usage .emptyPath)
  else .ok { given with path := some path }

end Given

/-- True for arguments that look like an option. -/
def looksLikeOption (argument : String) : Bool :=
  argument.toList.head? == some '-' && argument ≠ "-"

/-- What an argument that looks like an option asks for. -/
inductive Request where
  | stop (reason : Stop)
  /-- An option together with its value. -/
  | full (option : OptionName) (value : String)
  /-- An option whose value is the next argument. -/
  | open (option : OptionName)
  deriving DecidableEq, Repr, Inhabited

/-- What an argument with two hyphens in front asks for. -/
def longRequest (scope : Scope) (argument : String) : Request :=
  let chars := argument.toList
  let name := String.ofList (chars.takeWhile (· ≠ '='))
  let value? := match chars.dropWhile (· ≠ '=') with
    | '=' :: value => some (String.ofList value)
    | _ => none
  match (OptionName.inScope scope).find? (·.spelling == name) with
  | some option =>
    match value? with
    | some value => .full option value
    | none => .open option
  | none =>
    if argument = "--help" then .stop (.help scope)
    else if argument = "--version" && scope = .program then .stop .version
    else .stop (.usage (.unexpected argument))

/-- What an argument with one hyphen in front asks for. -/
def shortRequest (scope : Scope) (argument : String) : Request :=
  match argument.toList.drop 1 with
  | [] => .stop (.usage (.unexpected argument))
  | letter :: rest =>
    if letter = 'h' then .stop (.help scope)
    else if letter = 'V' && scope = .program then .stop .version
    else
      match OptionName.ofLetter? scope letter with
      | none => .stop (.usage (.unexpected argument))
      | some option =>
        match rest with
        | [] => .open option
        | '=' :: value => .full option (String.ofList value)
        | value => .full option (String.ofList value)

/-- What an argument that looks like an option asks for. -/
def requestOf (scope : Scope) (argument : String) : Request :=
  if ['-', '-'].isPrefixOf argument.toList then longRequest scope argument
  else shortRequest scope argument

/-- The arguments that were read, scope by scope. -/
structure Reading where
  scope : Scope := .program
  program : Given := {}
  sub : Given := {}
  deriving DecidableEq, Repr, Inhabited

namespace Reading

/-- What was given in the current scope. -/
def given (reading : Reading) : Given :=
  match reading.scope with
  | .program => reading.program
  | _ => reading.sub

/-- Replaces what was given in the current scope. -/
def withGiven (reading : Reading) (given : Given) : Reading :=
  match reading.scope with
  | .program => { reading with program := given }
  | _ => { reading with sub := given }

/-- Gives a value to an option in the current scope. -/
def set (reading : Reading) (option : OptionName) (value : String) : Except Stop Reading := do
  return reading.withGiven (← reading.given.set option value)

/-- Takes an argument as the path in the current scope. -/
def setPath (reading : Reading) (path : String) : Except Stop Reading := do
  return reading.withGiven (← reading.given.setPath path)

/-- The subcommand that an argument names. -/
def subcommand? (reading : Reading) (argument : String) : Option Scope :=
  if reading.scope ≠ .program then none
  else if argument = "init" then some .init
  else if argument = "check" then some .check
  else none

/-- What the word for help asks for, with the arguments after it. -/
def helpOn : List String → Stop
  | [] => .help .program
  | "init" :: [] => .help .init
  | "check" :: [] => .help .check
  | "help" :: [] => .help .program
  | argument :: _ => .usage (.unexpected argument)

/-- Reads arguments from left to right.  `onlyPaths` says that two hyphens alone
were read, and `pending` is an option that waits for its value. -/
def read (onlyPaths : Bool) (pending : Option OptionName) (reading : Reading) :
    List String → Except Stop Reading
  | [] =>
    match pending with
    | some option => .error (.usage (.missingValue option))
    | none => .ok reading
  | argument :: rest =>
    match pending with
    | some option =>
      if looksLikeOption argument then .error (.usage (.missingValue option))
      else do
        let reading ← reading.set option argument
        read onlyPaths none reading rest
    | none =>
      if onlyPaths then do
        let reading ← reading.setPath argument
        read true none reading rest
      else if let some scope := reading.subcommand? argument then
        read false none { reading with scope } rest
      else if argument = "help" && reading.scope = .program then .error (helpOn rest)
      else if argument = "--" then read true none reading rest
      else if looksLikeOption argument then
        match requestOf reading.scope argument with
        | .stop reason => .error reason
        | .full option value => do
          let reading ← reading.set option value
          read false none reading rest
        | .open option => read false (some option) reading rest
      else do
        let reading ← reading.setPath argument
        read false none reading rest

end Reading

/-- The log level that was chosen. -/
def Reading.logLevel (reading : Reading) : LogLevel :=
  ((reading.sub.value? .logLevel <|> reading.program.value? .logLevel).bind
    LogLevel.ofName?).getD .warn

/-- The options of a check. -/
structure CheckOptions where
  logLevel : LogLevel := .warn
  format : Option String := none
  output : Option String := none
  config : Option String := none
  failOn : Option String := none
  workers : Option Nat := none
  deriving DecidableEq, Repr, Inhabited

/-- What the program is asked to do. -/
inductive Task where
  | init (path : String)
  | check (path : String) (options : CheckOptions)
  deriving DecidableEq, Repr, Inhabited

/-- The name of the variable that tells where the configuration is. -/
def configVariable : String := "PLSQL_GUARD_CONFIG"

/-- The task that the arguments set, where the variables of the environment are
looked up by name.  The place of the configuration is taken from there when a
check does not say it. -/
def Task.ofArguments (environment : Environment) (arguments : List String) :
    Except Stop Task := do
  let reading ← Reading.read false none {} arguments
  let path := (reading.sub.path <|> reading.program.path).getD "."
  match reading.scope with
  | .program => return .check path { logLevel := reading.logLevel }
  | .init => return .init path
  | .check =>
    let sub := reading.sub
    let config ← match sub.value? .config with
      | some config => pure (some config)
      | none =>
        match environment configVariable with
        | some "" => throw (.usage (.invalidValue .config ""))
        | config => pure config
    return .check path {
      logLevel := reading.logLevel
      format := sub.value? .format
      output := sub.value? .output
      config := config
      failOn := sub.value? .failOn
      workers := (sub.value? .workers).bind workersOf? }

end PlsqlAudit.Command
