import PlsqlAudit.Arena.Builder
import PlsqlAudit.Grammar.Parser

/-!
# Readers that build

A `Build` reads tokens and makes nodes as it goes.  It reads as a `Parser` does
(`read`), and works on the nodes by the operations of a builder.  What stands below a
node is put there piece by piece: `under` attaches what was built by another reader,
and `each` and `listed` repeat a reader that attaches what it builds itself.
-/

namespace PlsqlAudit

/-- A reader of tokens that makes nodes. -/
abbrev Build := StateT Builder Parser

namespace Build

open PlsqlAudit.Parser

/-- Reads tokens without making nodes. -/
def read {α : Type} (p : Parser α) : Build α := StateT.lift p

/-- Makes a detached node. -/
def add (kind : Kind) (span : Span) : Build NodeId := fun b => pure (b.add kind span)

/-- Makes a node below another one. -/
def addChild (parent : NodeId) (kind : Kind) (span : Span) : Build NodeId :=
  fun b => pure (b.addChild parent kind span)

/-- Puts a node below another one. -/
def attach (parent child : NodeId) : Build Unit := fun b => pure ((), b.attach parent child)

/-- Puts nodes below another one, in their order. -/
def attachAll (parent : NodeId) (parts : List NodeId) : Build Unit :=
  fun b => pure ((), parts.foldl (fun b part => b.attach parent part) b)

/-- Where a node stands in the text. -/
def spanOf (id : NodeId) : Build Span := fun b => pure (b.span id, b)

/-- Makes a node one of another kind. -/
def setKind (id : NodeId) (kind : Kind) : Build Unit := fun b => pure ((), b.setKind id kind)

/-- Stretches the span of a node to the end of `last`. -/
def close (id : NodeId) (last : Span) : Build Unit := fun b => pure ((), b.close id last)

/-- Makes a detached node of detached nodes. -/
def gather (kind : Kind) (span : Span) (parts : List NodeId) : Build NodeId := do
  let node ← add kind span
  attachAll node parts
  return node

/-- Puts what a reader builds below a node. -/
def under (parent : NodeId) (part : Build NodeId) : Build Unit := do
  let id ← part
  attach parent id

/-- Runs `step` on its own answers until it answers `none`, at most once for each
of the tokens in `bound`. -/
def rounds {α : Type} (step : α → Build (Option α)) : List Token → α → Build α
  | [], _ => read (throw .exhausted)
  | _ :: bound, a => do
    match ← step a with
    | some next => rounds step bound next
    | none => return a

/-- Runs `step` on its own answers until it answers `none`. -/
def repeatedly {α : Type} (step : α → Build (Option α)) (first : α) : Build α := do
  let s ← read get
  rounds step (s.eof :: s.rest) first

/-- Runs `item` as long as `more` holds, and answers whether it was run at all. -/
def each (more : Stream → Bool) (item : Build Unit) : Build Bool :=
  repeatedly (fun _ => do
    if more (← read get) then
      item
      return some true
    else return none) false

/-- Runs `item` once, and again behind each comma. -/
def listed (item : Build Unit) : Build Unit := do
  item
  repeatedly (fun _ => do
    if ← read (eat .comma) then
      item
      return some ()
    else return none) ()

end Build

/-- Readers for the phrases that can stand inside others.  An expression is built
detached; statements and declarations are put below a node as they are read. -/
structure Builders where
  expression : Build NodeId
  /-- An expression that binds at least as tightly as `NOT`. -/
  negation : Build NodeId
  /-- An expression that binds at least as tightly as a sign. -/
  signed : Build NodeId
  /-- A statement; labels and stray semicolons leave no node. -/
  statement : NodeId → Build Unit
  declaration : NodeId → Build Unit

end PlsqlAudit
