import PlsqlAudit.Text.LetterCase

/-!
# Formats of a report
-/

namespace PlsqlAudit

/-- The formats that a report is written in. -/
inductive Format where
  | text
  | json
  | sarif
  deriving DecidableEq, Repr, Inhabited

/-- A word that names no format. -/
structure UnknownFormat where
  word : String
  deriving DecidableEq, Repr, Inhabited

/-- What the user is told. -/
def UnknownFormat.message (e : UnknownFormat) : String :=
  "Unknown format '" ++ e.word ++ "'. Valid formats: text, json, sarif"

namespace Format

/-- The format that a user means by a word in any case. -/
def ofText (word : String) : Except UnknownFormat Format :=
  match Text.lower word with
  | "text" | "txt" | "terminal" => .ok .text
  | "json" => .ok .json
  | "sarif" => .ok .sarif
  | _ => .error ⟨word⟩

/-- The word for a format. -/
def name : Format → String
  | .text => "text"
  | .json => "json"
  | .sarif => "sarif"

/-- The ending that a file in this format should have. -/
def fileExtension : Format → String
  | .text => "txt"
  | .json => "json"
  | .sarif => "sarif.json"

end Format

end PlsqlAudit
