import PlsqlAudit.Grammar.Body

/-!
# Declarations

Variables and constants are read in full, and so are nested routines.  Types,
cursors, pragmas and exceptions are skipped.
-/

namespace PlsqlAudit.Grammar

open PlsqlAudit.Parser

/-- A variable or constant. -/
def variableDeclaration (r : Rules) : Parser Node := do
  let name ← bump
  let kind ← if ← eatWord "constant" then pure Kind.constantDeclaration
    else pure Kind.variableDeclaration
  let type ← dataType .declaration
  if ← eatWord "not" then
    let _ ← expectWord "null"
  let value ← defaultValue r
  let finish ← expect .semicolon ";"
  return .mk kind (name.span.cover finish.span) (.leaf .definingName name.span :: type :: value)

/-- A declaration. -/
def declaration (r : Rules) : Parser Node := do
  let s ← get
  if s.atWord "procedure" then routine r .procedureDefinition s.peek.span
  else if s.atWord "function" then routine r .functionDefinition s.peek.span
  else if s.atAnyWord ["type", "subtype", "cursor", "pragma"] ||
      (s.atIdentifier && s.atWordAt 1 "exception") then skipped .otherDeclaration
  else if s.atIdentifier then variableDeclaration r
  else unexpected "declaration"

end PlsqlAudit.Grammar
