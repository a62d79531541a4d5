import PlsqlAudit.Source.Span
import PlsqlAudit.Tree.Kind

/-!
# Arenas

An arena holds the nodes of a program in one array, and they refer to each other by
their numbers.  Each entry knows the node above it and the nodes below it.  While a
program is read a `Builder` makes entries one by one: an entry starts out detached,
with nothing above or below, and is attached to another one when it is known where
it belongs.  Nothing in a builder keeps an entry from being left detached, or from
being attached twice.

Numbers have 32 bits; the entry behind the last number that fits gets number zero
again.
-/

namespace PlsqlAudit

/-- The number of a node. -/
structure NodeId where
  value : UInt32
  deriving DecidableEq, Repr, Inhabited

namespace NodeId

/-- The place of the node in its arena. -/
def index (id : NodeId) : Nat := id.value.toNat

/-- The number for a place in an arena. -/
def ofIndex (index : Nat) : NodeId := ⟨.ofNat index⟩

end NodeId

/-- A node as it stands in an arena. -/
structure NodeEntry where
  kind : Kind
  span : Span
  /-- The node directly above, if the node is attached. -/
  parent : Option NodeId
  /-- The nodes directly below, in the order in which they were attached. -/
  children : List NodeId
  deriving DecidableEq, Repr, Inhabited

/-- The nodes of a program that is being read. -/
structure Builder where
  source : String
  entries : Array NodeEntry
  deriving Repr, Inhabited

/-- The nodes of a program that was read. -/
structure Arena where
  source : String
  entries : Array NodeEntry
  root : NodeId
  deriving Repr, Inhabited

namespace Builder

variable (b : Builder)

/-- A builder without nodes. -/
def empty (source : String) : Builder := ⟨source, #[]⟩

/-- The number of nodes. -/
def size : Nat := b.entries.size

/-- The entry of a node. -/
def node? (id : NodeId) : Option NodeEntry := b.entries[id.index]?

/-- Changes the entry of a node. -/
def update (id : NodeId) (change : NodeEntry → NodeEntry) : Builder :=
  { b with entries := b.entries.modify id.index change }

/-- Makes a detached node. -/
def add (kind : Kind) (span : Span) : NodeId × Builder :=
  (.ofIndex b.size, { b with entries := b.entries.push ⟨kind, span, none, []⟩ })

/-- Puts a node below another one, behind those that are there. -/
def attach (parent child : NodeId) : Builder :=
  (b.update child fun e => { e with parent := some parent }).update parent fun e =>
    { e with children := e.children ++ [child] }

/-- Makes a node below another one. -/
def addChild (parent : NodeId) (kind : Kind) (span : Span) : NodeId × Builder :=
  ((b.add kind span).1, (b.add kind span).2.attach parent (b.add kind span).1)

/-- Where a node stands in the text. -/
def span (id : NodeId) : Span := ((b.node? id).getD default).span

/-- Makes a node one of another kind. -/
def setKind (id : NodeId) (kind : Kind) : Builder := b.update id fun e => { e with kind }

/-- Stretches the span of a node to the end of `last`. -/
def close (id : NodeId) (last : Span) : Builder :=
  b.update id fun e => { e with span := e.span.cover last }

/-- Ends the building of the nodes below `root`. -/
def finish (root : NodeId) : Arena := ⟨b.source, b.entries, root⟩

end Builder

namespace Arena

variable (a : Arena)

/-- The number of nodes. -/
def size : Nat := a.entries.size

/-- The entry of a node. -/
def entry (id : NodeId) : NodeEntry := a.entries[id.index]?.getD default

/-- What a node is. -/
def kind (id : NodeId) : Kind := (a.entry id).kind

/-- Where a node stands in the text. -/
def span (id : NodeId) : Span := (a.entry id).span

/-- The node directly above a node. -/
def parent (id : NodeId) : Option NodeId := (a.entry id).parent

/-- The nodes directly below a node. -/
def children (id : NodeId) : List NodeId := (a.entry id).children

/-- Takes the first node off a stack and puts those directly below it there instead, as
many times as are given or until the stack is empty, and lists what was taken off. -/
def walk : Nat → List NodeId → List NodeId
  | 0, _ => []
  | _ + 1, [] => []
  | steps + 1, id :: stack => id :: walk steps (a.children id ++ stack)

/-- The nodes below a node, each before those below it.  No walk over a tree takes more
steps than the tree has nodes. -/
def descendants (id : NodeId) : List NodeId := a.walk a.size (a.children id)

end Arena

end PlsqlAudit
