import PlsqlAudit.Flow.Scope
import PlsqlAudit.Text.Occurrence

/-!
# Parameters

The values that a caller chooses are the parameters of the routine around a name.
Only a type that can carry text counts: a type of the user's own does so when
`char` occurs in it, and every predefined type does, since numbers and dates turn
into text by themselves.
-/

namespace PlsqlAudit.Tree

/-- True for types whose values can become program text. -/
def isStringLike (t : Tree) (type : Place) : Bool :=
  match type.kind with
  | .dataType .userDefined => Text.contains (Text.lower (t.text type)) "char"
  | .dataType _ => true
  | _ => false

/-- True for a parameter with the given key and a type that can carry text. -/
def isParameterOf (t : Tree) (key : String) (parameter : Place) : Bool :=
  parameter.kind.isParameter &&
    parameter.definingName?.any (fun name => t.nameKey name == key) &&
    parameter.dataType?.all t.isStringLike

/-- True for a name that means a parameter of the routine around it.  The object
that a method is called on is none. -/
def isParameter (t : Tree) (name : Place) : Bool :=
  let key := t.nameKey name
  name.kind == .name && key != "self" &&
    name.routine?.any fun routine => routine.children.any (t.isParameterOf key)

end PlsqlAudit.Tree
