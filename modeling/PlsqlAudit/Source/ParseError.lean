import PlsqlAudit.Token.Lexeme

/-!
# Why a text cannot be read

There are three causes: a token that the grammar does not allow where it stands,
the end of the text where something had to follow, and a literal, quoted name or
comment that is never closed.  A fourth, `exhausted`, would be reported if the
reading of a phrase were to go on without using up its tokens.
-/

namespace PlsqlAudit

/-- Why a text is not a program. -/
inductive ParseError where
  /-- A token stands where something else was expected. -/
  | unexpected (line column : UInt32) (found expected : String)
  /-- The construct that starts here is never closed. -/
  | unterminated (line column : UInt32) (what : Unclosed)
  /-- The text ends where something was expected. -/
  | unexpectedEnd (expected : String)
  /-- More steps were taken than there are tokens. -/
  | exhausted
  deriving DecidableEq, Repr, Inhabited

/-- The wording of an error. -/
def ParseError.message : ParseError → String
  | .unexpected line column found expected =>
    s!"{line}:{column}: unexpected '{found}', expected {expected}"
  | .unterminated line column what => s!"{line}:{column}: unterminated {what.name}"
  | .unexpectedEnd expected => s!"unexpected end of input, expected {expected}"
  | .exhausted => "nesting too deep"

end PlsqlAudit
