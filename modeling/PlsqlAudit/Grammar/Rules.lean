import PlsqlAudit.Grammar.Parser
import PlsqlAudit.Tree.Node

/-!
# Phrases inside phrases

Phrases nest: an expression in parentheses is an expression, the branches of an
`IF` are statements, and a declaration may be a whole routine.  The rules for
single phrases take the rules for the phrases inside them as an argument, a
`Rules`; tying the two together is left to the rule for whole programs.  A rule
reads at least one token before it turns to the phrases inside.
-/

namespace PlsqlAudit

/-- Readers for the phrases that can stand inside others. -/
structure Rules where
  expression : Parser Node
  /-- An expression that binds at least as tightly as `NOT`. -/
  negation : Parser Node
  /-- An expression that binds at least as tightly as a sign. -/
  signed : Parser Node
  /-- A statement; labels and stray semicolons leave no node. -/
  statement : Parser (Option Node)
  declaration : Parser Node

end PlsqlAudit
