import PlsqlAudit.Flow.AllowList
import PlsqlAudit.Flow.Reads
import PlsqlAudit.Flow.Scope

/-!
# Asserted names

A name is asserted when some occurrence of it is handed directly to a function of
a package on the allow list: `sys.dbms_assert.enquote_name(in_table)`.  Where the
occurrence may stand is the region of the name: the section of declarations it is
in, or else the whole body of the routine.

A name is also protected by its aliases.  If a local variable starts out with a
value computed from the name, and that variable is asserted, so is the name.
-/

namespace PlsqlAudit

namespace Tree

/-- The call that takes the name directly as an argument: its last three dotted
names at most, and nothing unless there are two. -/
def callNameOf (t : Tree) (name : Place) : String :=
  let segments : Option (List Place) := do
    let argument ← name.parent?
    let value ← argument.argumentValue?
    if value.index = name.index then
      let call ← argument.parent?
      let callee ← call.callee?
      callee.nameSegments?
    else none
  match segments with
  | some segments =>
    if segments.length < 2 then ""
    else ".".intercalate ((segments.drop (segments.length - 3)).map t.nameKey)
  | none => ""

end Tree

/-- Where an occurrence that asserts the name may stand. -/
def Place.assertionRegion? (name : Place) : Option Place := do
  let chain := name.scopes
  let outer ← chain.getLast?
  let within := name.ancestors.takeWhile fun p => p.index != outer.container.index
  let nearest := within.find? fun p => p.kind == .body || p.kind == .declareSection
  (nearest.filter fun p => p.kind == .declareSection)
    <|> outermostBody? chain
    <|> chain.head?.bind (·.declarations)

namespace AllowList

/-- True when a name with the given key is handed to a function on the list
somewhere below `region`. -/
def assertsIn (list : AllowList) (t : Tree) (region : Place) (key : String) : Bool :=
  (region.descendantsOf (· == .name)).any fun name =>
    list.covers (t.callNameOf name) && t.nameKey name == key

/-- True when the name is handed to a function on the list in its region. -/
def asserts (list : AllowList) (t : Tree) (name : Place) : Bool :=
  name.assertionRegion?.any fun region => list.assertsIn t region (t.nameKey name)

/-- The names of the variables that start out with a value computed from the
name. -/
def aliases (t : Tree) (name : Place) : List Place :=
  let key := t.nameKey name
  let declarations := (name.scopes.filterMap (·.declarations)).flatMap fun d =>
    d.children.filter (·.kind.isDeclaration)
  let copies := declarations.filter fun d =>
    d.initializer?.any fun value => value.reads.any fun read => t.nameKey read == key
  (copies.filterMap (·.definingName?)).filter fun copy => t.nameKey copy != key

/-- True when the name or one of its aliases is asserted. -/
def protects (list : AllowList) (t : Tree) (name : Place) : Bool :=
  list.asserts t name ||
    (aliases t name).any fun copy =>
      (outermostBody? name.scopes).any (fun body => list.assertsIn t body (t.nameKey copy)) ||
        list.asserts t copy

end AllowList

end PlsqlAudit
