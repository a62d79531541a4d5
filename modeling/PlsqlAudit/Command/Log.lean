import PlsqlAudit.Text.Hex

/-!
# The log

On its way a command says what it does, on the channel for errors and before
anything else.  Each entry has a level, and the user chooses up to which level
entries are shown.  An entry may go over several lines, because the names of files
and the words of a program may.
-/

namespace PlsqlAudit.Command

/-- How important an entry is, the most important level first. -/
inductive LogLevel where
  | error
  | warn
  | info
  | debug
  | trace
  deriving DecidableEq, Repr, Inhabited

namespace LogLevel

/-- All levels, the most important one first. -/
def all : List LogLevel := [.error, .warn, .info, .debug, .trace]

/-- The name of a level. -/
def name : LogLevel → String
  | .error => "error"
  | .warn => "warn"
  | .info => "info"
  | .debug => "debug"
  | .trace => "trace"

/-- The level of the given name. -/
def ofName? (name : String) : Option LogLevel := all.find? (·.name == name)

/-- True when entries of level `other` are shown at a level. -/
def shows (level other : LogLevel) : Bool := all.idxOf other ≤ all.idxOf level

end LogLevel

/-- Something that is said on the way. -/
structure LogEntry where
  level : LogLevel
  message : String
  deriving DecidableEq, Repr, Inhabited

namespace LogEntry

/-- How a character is logged: what a terminal would take for a command is spelled
out. -/
def spellChar (c : Char) : List Char :=
  let digits := [Text.hexDigit (c.toNat / 16), Text.hexDigit (c.toNat % 16)]
  if c == '\x1b' || c == '\x07' || c == '\x08' || c == '\x0c' || c == '\x7f' then
    ['\\', 'x'] ++ digits
  else if 128 ≤ c.toNat && c.toNat < 160 then ['\\', 'u', '\x7b'] ++ digits ++ ['\x7d']
  else [c]

/-- The text of an entry. -/
def text (entry : LogEntry) : String :=
  entry.level.name ++ ": " ++ String.ofList (entry.message.toList.flatMap spellChar)

end LogEntry

/-- The texts of the entries that are shown at a level. -/
def shownLog (level : LogLevel) (entries : List LogEntry) : List String :=
  (entries.filter fun entry => level.shows entry.level).map LogEntry.text

end PlsqlAudit.Command
