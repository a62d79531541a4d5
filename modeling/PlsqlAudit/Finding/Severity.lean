import PlsqlAudit.Text.Blank
import PlsqlAudit.Text.LetterCase

/-!
# Severities

How much a finding weighs, from `info` up to `critical`.  A severity is read from
a word in any case with blanks around it; an unknown word is reported as it was
understood, that is without the blanks and in small letters.
-/

namespace PlsqlAudit

/-- How much a finding weighs. -/
inductive Severity where
  | info
  | low
  | medium
  | high
  | critical
  deriving DecidableEq, Repr, Inhabited

/-- A word that names no severity. -/
structure UnknownSeverity where
  word : String
  deriving DecidableEq, Repr, Inhabited

/-- What the user is told. -/
def UnknownSeverity.message (e : UnknownSeverity) : String :=
  "unknown severity '" ++ e.word ++ "' (expected critical, high, medium, low or info)"

namespace Severity

/-- All severities, the lightest first. -/
def all : List Severity := [.info, .low, .medium, .high, .critical]

/-- The place of a severity among all of them. -/
def rank : Severity → Nat
  | .info => 0
  | .low => 1
  | .medium => 2
  | .high => 3
  | .critical => 4

instance : LE Severity := ⟨fun a b => a.rank ≤ b.rank⟩

instance (a b : Severity) : Decidable (a ≤ b) := inferInstanceAs (Decidable (a.rank ≤ b.rank))

/-- The heavier of two severities. -/
instance : Max Severity := ⟨fun a b => if a ≤ b then b else a⟩

/-- The word for a severity. -/
def name : Severity → String
  | .info => "info"
  | .low => "low"
  | .medium => "medium"
  | .high => "high"
  | .critical => "critical"

/-- The severity with exactly the given name. -/
def ofName? (word : String) : Option Severity := all.find? (·.name == word)

/-- The severity that a user means by a text. -/
def ofText (text : String) : Except UnknownSeverity Severity :=
  let word := Text.lower (Text.trim text)
  match ofName? word with
  | some severity => .ok severity
  | none => .error ⟨word⟩

end Severity

end PlsqlAudit
