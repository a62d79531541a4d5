import PlsqlAudit.Tree.Node

/-!
# Parts of a construct

The nodes under a node follow a fixed layout for each kind: an assignment has its
target and its value, a call its callee and its arguments, and so on.  The
functions here name these parts.  They are partial: each answers `none` on nodes
of another kind or of another layout.
-/

namespace PlsqlAudit.Place

/-- The target and the value of an assignment. -/
def assignment? (p : Place) : Option (Place × Place) :=
  if p.kind = .assignment then
    match p.children with
    | [target, value] => some (target, value)
    | _ => none
  else none

/-- The name that a routine, parameter or declaration introduces. -/
def definingName? (p : Place) : Option Place := p.child? (· == .definingName)

/-- The declared type of a parameter or declaration, or the type a function
returns. -/
def dataType? (p : Place) : Option Place := p.child? Kind.isDataType

/-- The expression that a declaration or parameter is given at first: what stands
right after its type. -/
def initializer? (p : Place) : Option Place :=
  if p.kind.isDeclaration || p.kind.isParameter then
    ((p.children.dropWhile fun q => !q.kind.isDataType).tail).head?
  else none

/-- The expression whose value `EXECUTE IMMEDIATE` runs. -/
def executedSql? (p : Place) : Option Place :=
  if p.kind = .executeImmediate then
    p.children.head?.filter fun q => !q.kind.isClause
  else none

/-- The expression whose value `OPEN … FOR` runs; a query that is written out is
none. -/
def openedSql? (p : Place) : Option Place :=
  if p.kind = .openFor then
    p.children.tail.head?.filter fun q => !q.kind.isClause && q.kind != .staticQuery
  else none

/-- What a call calls. -/
def callee? (p : Place) : Option Place :=
  if p.kind = .call then p.children.head? else none

/-- The arguments of a call. -/
def arguments (p : Place) : List Place :=
  if p.kind = .call then p.children.tail else []

/-- The value of an argument. -/
def argumentValue? (p : Place) : Option Place :=
  if p.kind = .argument then p.children.getLast? else none

/-- True for the name in front of the arrow of a named argument. -/
def isArgumentLabel (p : Place) : Bool :=
  match p.parent? with
  | none => false
  | some parent =>
    parent.kind == .argument && parent.node.children.length == 2 && p.index == parent.index + 1

/-- The names of a dotted chain whose head has number `index` and stands under
`above`, in front of the names `later`. -/
def segmentsFrom (index : Nat) (above : List (Nat × Node)) (later : List Place) :
    Node → Option (List Place)
  | .mk .name span children => some (⟨index, .mk .name span children, above⟩ :: later)
  | .mk .memberAccess span [left, right] =>
    let inside := (index, .mk .memberAccess span [left, right]) :: above
    if right.kind = .name then
      segmentsFrom (index + 1) inside (⟨index + 1 + left.size, right, inside⟩ :: later) left
    else none
  | _ => none

/-- The names of a dotted chain, or none where anything but names is in it. -/
def nameSegments? (p : Place) : Option (List Place) :=
  segmentsFrom p.index p.above [] p.node

end PlsqlAudit.Place
