import PlsqlAudit.Source.Span
import PlsqlAudit.Tree.Kind

/-!
# Syntax trees

A node is a kind, a span, and the nodes under it in the order of the text.  A
tree is the root node of a program together with the text it was read from.

The nodes of a tree are numbered in the order in which a reader meets them, each
node before those under it; the root has number zero.  A `Place` is a node
together with its number and the nodes it stands under, so that a walk can go up
from it as well as down, and `Tree.places` lists the places of a tree by number.
-/

namespace PlsqlAudit

/-- A piece of a program. -/
inductive Node where
  | mk (kind : Kind) (span : Span) (children : List Node)
  deriving Repr, Inhabited

namespace Node

/-- What the node is. -/
def kind : Node → Kind
  | .mk kind _ _ => kind

/-- Where the node stands in the text. -/
def span : Node → Span
  | .mk _ span _ => span

/-- The nodes directly under the node. -/
def children : Node → List Node
  | .mk _ _ children => children

mutual

/-- The number of nodes in the tree under a node, itself included. -/
def size : Node → Nat
  | .mk _ _ children => 1 + sizeAll children

/-- The number of nodes in the trees under several nodes. -/
def sizeAll : List Node → Nat
  | [] => 0
  | n :: ns => n.size + sizeAll ns

end

/-- A node without anything under it. -/
def leaf (kind : Kind) (span : Span) : Node := .mk kind span []

/-- The node with its span stretched to the end of `last`. -/
def stretch (n : Node) (last : Span) : Node := .mk n.kind (n.span.cover last) n.children

end Node

/-- A node of a tree, with its number and the numbered nodes it stands under,
nearest first. -/
structure Place where
  index : Nat
  node : Node
  above : List (Nat × Node)
  deriving Repr, Inhabited

mutual

/-- Adds to `found` the places of a node and of everything under it.  The next
number that is free is `base` and the number of places found so far. -/
def Node.visit (base : Nat) (above : List (Nat × Node)) (found : Array Place) :
    Node → Array Place
  | .mk kind span children =>
    let node := .mk kind span children
    let index := base + found.size
    visitAll base ((index, node) :: above) (found.push ⟨index, node, above⟩) children

/-- Adds to `found` the places of several nodes and of everything under them. -/
def visitAll (base : Nat) (above : List (Nat × Node)) (found : Array Place) :
    List Node → Array Place
  | [] => found
  | n :: ns => visitAll base above (n.visit base above found) ns

end

namespace Place

/-- What the node at the place is. -/
def kind (p : Place) : Kind := p.node.kind

/-- Where the node stands in the text. -/
def span (p : Place) : Span := p.node.span

/-- The place directly above. -/
def parent? (p : Place) : Option Place :=
  match p.above with
  | [] => none
  | (index, node) :: above => some ⟨index, node, above⟩

/-- The places of the numbered nodes `above`, each of which stands under those
after it. -/
def outward : List (Nat × Node) → List Place
  | [] => []
  | (index, node) :: above => ⟨index, node, above⟩ :: outward above

/-- The places above, nearest first. -/
def ancestors (p : Place) : List Place := outward p.above

/-- The numbered nodes above whatever stands directly under the place. -/
def inside (p : Place) : List (Nat × Node) := (p.index, p.node) :: p.above

/-- The places of `nodes`, of which the first has number `index`. -/
def siblings (index : Nat) (above : List (Nat × Node)) : List Node → List Place
  | [] => []
  | n :: ns => ⟨index, n, above⟩ :: siblings (index + n.size) above ns

/-- The places directly below. -/
def children (p : Place) : List Place := siblings (p.index + 1) p.inside p.node.children

/-- The places below, in the order of the text. -/
def descendants (p : Place) : List Place :=
  (visitAll (p.index + 1) p.inside #[] p.node.children).toList

/-- The places below whose kind satisfies `wanted`, in the order of the text. -/
def descendantsOf (p : Place) (wanted : Kind → Bool) : List Place :=
  p.descendants.filter fun q => wanted q.kind

/-- The first place directly below whose kind satisfies `wanted`. -/
def child? (p : Place) (wanted : Kind → Bool) : Option Place :=
  p.children.find? fun q => wanted q.kind

/-- The nearest place above whose kind satisfies `wanted`. -/
def ancestor? (p : Place) (wanted : Kind → Bool) : Option Place :=
  p.ancestors.find? fun q => wanted q.kind

end Place

/-- A program and the text it was read from. -/
structure Tree where
  source : String
  root : Node
  deriving Repr, Inhabited

namespace Tree

/-- The places of a tree; the place at position `n` has number `n`. -/
def places (t : Tree) : List Place := (t.root.visit 0 [] #[]).toList

/-- The places whose kind satisfies `wanted`, in the order of the text. -/
def placesOf (t : Tree) (wanted : Kind → Bool) : List Place :=
  t.places.filter fun p => wanted p.kind

/-- The number of nodes. -/
def size (t : Tree) : Nat := t.root.size

/-- The text of the node at a place. -/
def text (t : Tree) (p : Place) : String := p.span.text t.source

end Tree

end PlsqlAudit
