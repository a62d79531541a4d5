import PlsqlAudit.Grammar.Program

/-!
# Source units

A unit is a file that parses, with its tree.
-/

namespace PlsqlAudit

/-- A parsed file. -/
structure SourceUnit where
  path : String
  tree : Tree
  deriving Repr, Inhabited

/-- A file that does not parse. -/
structure UnitError where
  path : String
  cause : ParseError
  deriving Repr, Inhabited

/-- What the user is told. -/
def UnitError.message (e : UnitError) : String :=
  "Failed to parse " ++ e.path ++ ": " ++ e.cause.message

/-- The unit with the given text. -/
def SourceUnit.ofSource (path source : String) : Except UnitError SourceUnit :=
  match parse source with
  | .ok tree => .ok ⟨path, tree⟩
  | .error cause => .error ⟨path, cause⟩

end PlsqlAudit
