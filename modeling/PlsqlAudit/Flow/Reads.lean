import PlsqlAudit.Tree.Parts

/-!
# Names that an expression reads

Every name inside an expression is read, except the labels of named arguments.
-/

namespace PlsqlAudit.Place

/-- The names that an expression reads, in the order of the text. -/
def reads (expr : Place) : List Place :=
  if expr.kind = .name then
    if expr.isArgumentLabel then [] else [expr]
  else (expr.descendantsOf (· == .name)).filter fun name => !name.isArgumentLabel

end PlsqlAudit.Place
