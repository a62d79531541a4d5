import PlsqlAudit.Tree.NameKey
import PlsqlAudit.Tree.Parts

/-!
# Scopes

A name is looked up in the routine around it.  The chain of scopes of a name
starts with the block or routine nearest to it and goes outward through
anonymous blocks; it ends at the first routine with a signature.  Packages, type
bodies and triggers have no scope, so a block directly inside one of them ends
the chain too.

Each scope has at most one body and one section of declarations.  The outermost
body of a chain holds everything that the routine does, its nested blocks
included.
-/

namespace PlsqlAudit

/-- Blocks and routines whose names can be traced. -/
inductive ScopeKind where
  | standaloneProcedure
  | standaloneFunction
  | packagedProcedure
  | packagedFunction
  | memberProcedure
  | memberFunction
  | constructor
  | anonymousBlock
  deriving DecidableEq, Repr, Inhabited

namespace ScopeKind

/-- The scope that a construct opens, if it opens one. -/
def of? : Kind → Option ScopeKind
  | .createProcedure => some .standaloneProcedure
  | .createFunction => some .standaloneFunction
  | .procedureDefinition => some .packagedProcedure
  | .functionDefinition => some .packagedFunction
  | .memberProcedure => some .memberProcedure
  | .memberFunction => some .memberFunction
  | .constructor => some .constructor
  | .anonymousBlock => some .anonymousBlock
  | _ => none

/-- True for scopes with parameters: all but anonymous blocks. -/
def hasSignature : ScopeKind → Bool
  | .anonymousBlock => false
  | _ => true

end ScopeKind

/-- A block or routine with its body and its declarations. -/
structure Scope where
  kind : ScopeKind
  container : Place
  body : Option Place
  declarations : Option Place
  deriving Repr, Inhabited

namespace Scope

/-- The scope of a container of a known kind. -/
def ofContainer (container : Place) (kind : ScopeKind) : Scope where
  kind := kind
  container := container
  body := container.child? (· == .body)
  declarations := container.child? (· == .declareSection)

end Scope

namespace Place

/-- The nearest container above a place, if it is one that opens a scope. -/
def container? (p : Place) : Option (Place × ScopeKind) := do
  let container ← p.ancestor? Kind.isContainer
  let kind ← ScopeKind.of? container.kind
  return (container, kind)

/-- The nearest scope around a place. -/
def scope? (p : Place) : Option Scope :=
  p.container?.map fun (container, kind) => Scope.ofContainer container kind

/-- The body of the nearest container. -/
def enclosingBody? (p : Place) : Option Place := p.scope?.bind (·.body)

/-- The declarations that belong to a body. -/
def declarations? (body : Place) : Option Place := do
  if body.kind = .body then
    let container ← body.parent?
    let _ ← ScopeKind.of? container.kind
    container.child? (· == .declareSection)
  else none

/-- The routine with a signature that is met first among `above`, where anonymous
blocks are passed through and anything else that holds code ends the search. -/
def routineAmong? : List Place → Option Place
  | [] => none
  | p :: above =>
    if p.kind.isContainer then
      match ScopeKind.of? p.kind with
      | some kind => if kind.hasSignature then some p else routineAmong? above
      | none => none
    else routineAmong? above

/-- The routine whose parameters a place can see. -/
def routine? (p : Place) : Option Place := routineAmong? p.ancestors

/-- The scopes met among `above`, up to the first with a signature. -/
def scopesAmong : List Place → List Scope
  | [] => []
  | p :: above =>
    if p.kind.isContainer then
      match ScopeKind.of? p.kind with
      | some kind =>
        Scope.ofContainer p kind :: if kind.hasSignature then [] else scopesAmong above
      | none => []
    else scopesAmong above

/-- The scopes around a place, nearest first. -/
def scopes (p : Place) : List Scope := scopesAmong p.ancestors

end Place

/-- The body of the last scope in a chain that has one. -/
def outermostBody? (chain : List Scope) : Option Place := chain.reverse.findSome? (·.body)

/-- The variable or constant that a section declares under a key. -/
def Tree.declaration? (t : Tree) (declarations : Place) (key : String) : Option Place :=
  (declarations.children.filter (·.kind.isDeclaration)).find? fun d =>
    d.definingName?.any fun name => t.nameKey name == key

end PlsqlAudit
