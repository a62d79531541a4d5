import PlsqlAudit.Json.Value
import PlsqlAudit.Text.Hex

/-!
# Printing JSON

`Json.pretty` writes every item of a list and every field of an object on a line
of its own, two columns further in than the bracket around it; an empty list or
object is written as its two brackets.  `Json.compact` writes no blanks at all.
Strings are the same in both: quotes, backslashes and the control characters
below the blank are escaped, and everything else stands for itself.
-/

namespace PlsqlAudit.Json

/-- One character inside a string. -/
def escapeChar (c : Char) : List Char :=
  if c == '"' then ['\\', '"']
  else if c == '\\' then ['\\', '\\']
  else if c == '\n' then ['\\', 'n']
  else if c == '\r' then ['\\', 'r']
  else if c == '\t' then ['\\', 't']
  else if c == '\x08' then ['\\', 'b']
  else if c == '\x0c' then ['\\', 'f']
  else if c.toNat < 32 then
    ['\\', 'u', '0', '0', Text.hexDigit (c.toNat / 16), Text.hexDigit (c.toNat % 16)]
  else [c]

/-- A text in quotes. -/
def quote (s : String) : String :=
  String.ofList ('"' :: s.toList.flatMap escapeChar ++ ['"'])

/-- A line break and the blanks in front of a line at the given depth. -/
def indent (depth : Nat) : String :=
  "\n" ++ String.ofList (List.replicate (2 * depth) ' ')

mutual

/-- The text of a value that stands at the given depth. -/
def prettyAt (depth : Nat) : Json → String
  | .null => "null"
  | .bool b => if b then "true" else "false"
  | .number n => toString n
  | .decimal spelling => spelling
  | .string s => quote s
  | .array [] => "[]"
  | .array (item :: items) =>
    "[" ++ indent (depth + 1) ++ prettyAt (depth + 1) item ++ prettyItems (depth + 1) items ++
      indent depth ++ "]"
  | .object [] => "\x7b\x7d"
  | .object (field :: fields) =>
    "\x7b" ++ prettyFields (depth + 1) "" (field :: fields) ++ indent depth ++ "\x7d"

/-- The items of a list after its first one. -/
def prettyItems (depth : Nat) : List Json → String
  | [] => ""
  | item :: items => "," ++ indent depth ++ prettyAt depth item ++ prettyItems depth items

/-- The fields of an object, each after `separator`. -/
def prettyFields (depth : Nat) (separator : String) : List (String × Json) → String
  | [] => ""
  | (name, value) :: fields =>
    separator ++ indent depth ++ quote name ++ ": " ++ prettyAt depth value ++
      prettyFields depth "," fields

end

/-- A value over several lines. -/
def pretty (json : Json) : String := prettyAt 0 json

mutual

/-- The text `done` and after it a value on one line. -/
def compactAfter (done : String) : Json → String
  | .null => done ++ "null"
  | .bool b => done ++ if b then "true" else "false"
  | .number n => done ++ toString n
  | .decimal spelling => done ++ spelling
  | .string s => done ++ quote s
  | .array items => compactItems (done ++ "[") "" items ++ "]"
  | .object fields => compactFields (done ++ "\x7b") "" fields ++ "\x7d"

/-- The text `done` and after it the items of a list, the first after `separator`
and the others after commas. -/
def compactItems (done separator : String) : List Json → String
  | [] => done
  | item :: items => compactItems (compactAfter (done ++ separator) item) "," items

/-- The text `done` and after it the fields of an object, the first after `separator`
and the others after commas. -/
def compactFields (done separator : String) : List (String × Json) → String
  | [] => done
  | (name, value) :: fields =>
    compactFields (compactAfter (done ++ separator ++ quote name ++ ":") value) "," fields

end

/-- A value on one line. -/
def compact (json : Json) : String := compactAfter "" json

end PlsqlAudit.Json
