import PlsqlAudit.Flow.Reads
import PlsqlAudit.Flow.Scope

/-!
# Where a value comes from

The origins of a name are the names that flow into it.  They are what is read by
the right sides of all assignments to it in the body of the routine, wherever
they stand.  Only where there is no assignment does the declaration of the name
count: then the origins are what its initial value reads.  The nearest
declaration decides, even if it gives no value.
-/

namespace PlsqlAudit.Tree

/-- The right sides of the assignments to a target with the given key below
`body`. -/
def assignedValues (t : Tree) (body : Place) (key : String) : List Place :=
  (body.descendantsOf (· == .assignment)).filterMap fun statement =>
    match statement.assignment? with
    | some (target, value) => if t.targetKey target == key then some value else none
    | none => none

/-- What the value on the right side of an assignment reads. -/
def valueReads (value : Place) : List Place :=
  if value.kind = .name then [value] else value.reads

/-- The initial value in the nearest declaration of a key. -/
def declaredValue? (t : Tree) (chain : List Scope) (key : String) : Option Place :=
  ((chain.filterMap (·.declarations)).findSome? fun d => t.declaration? d key).bind
    (·.initializer?)

/-- The names that flow into a name. -/
def origins (t : Tree) (name : Place) : List Place :=
  let chain := name.scopes
  match outermostBody? chain with
  | none => []
  | some body =>
    let key := t.targetKey name
    match t.assignedValues body key with
    | [] => ((t.declaredValue? chain key).map (·.reads)).getD []
    | values => values.flatMap valueReads

end PlsqlAudit.Tree
