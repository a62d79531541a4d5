import Mathlib.Data.List.Basic
import PlsqlAudit.Tree.Parts

/-!
# Walking up and down a tree

A place is reached from the root by going to a place directly below, again and
again.  The walk that numbers the nodes of a tree finds exactly these places:
what stands below a place is each place directly below it, followed by what
stands below that one (`Place.descendants_eq`).  Everything else here is read off
this equation.  In particular whoever goes down from a place of a tree, or up
from it, stays in the tree, and the places above a place are met again, in
order, on the way up (`Place.ancestors_eq_of_mem`).
-/

namespace PlsqlAudit

namespace Node

mutual

/-- Visiting a node adds as many places as the node has nodes in it. -/
theorem size_visit (base : Nat) (above : List (Nat × Node)) (found : Array Place) (n : Node) :
    (n.visit base above found).size = found.size + n.size := by
  cases n with
  | mk kind span children =>
    rw [visit, size, size_visitAll]
    simp only [Array.size_push]
    omega

/-- Visiting nodes one after the other adds as many places as they have nodes in them together. -/
theorem size_visitAll (base : Nat) (above : List (Nat × Node)) (found : Array Place)
    (ns : List Node) :
    (visitAll base above found ns).size = found.size + sizeAll ns := by
  cases ns with
  | nil => simp [visitAll, sizeAll]
  | cons n ns =>
    rw [visitAll, sizeAll, size_visitAll, size_visit]
    omega

end

/-- The size of a node counts the node itself and all that is below it. -/
theorem size_eq (n : Node) : n.size = 1 + sizeAll n.children := by
  cases n with
  | mk kind span children => rw [size, Node.children]

end Node

namespace Place

/-- A place followed by all that stands below it. -/
def subtree (p : Place) : List Place := p :: p.descendants

mutual

/-- The walk adds the places of a node to those that were found, whatever they
are: only their number counts. -/
theorem toList_visit (base : Nat) (above : List (Nat × Node)) (found : Array Place) (n : Node) :
    (n.visit base above found).toList =
      found.toList ++ (⟨base + found.size, n, above⟩ : Place).subtree := by
  cases n with
  | mk kind span children =>
    rw [Node.visit, toList_visitAll, subtree, descendants, toList_visitAll]
    simp only [Array.size_push, Array.toList_push, List.append_assoc, List.singleton_append,
      inside, Node.children, List.nil_append, Array.size_empty, Nat.add_zero, Nat.add_assoc]

/-- Visiting nodes in a row lists, behind what was found before, the subtrees of their places from
left to right. -/
theorem toList_visitAll (base : Nat) (above : List (Nat × Node)) (found : Array Place)
    (ns : List Node) :
    (visitAll base above found ns).toList =
      found.toList ++ (siblings (base + found.size) above ns).flatMap subtree := by
  cases ns with
  | nil => simp [visitAll, siblings]
  | cons n ns =>
    rw [visitAll, toList_visitAll, toList_visit, Node.size_visit, siblings]
    simp only [List.append_assoc, List.flatMap_cons, Nat.add_assoc]

end

/-- What stands below a place: each place directly below it, and what stands
below that one. -/
theorem descendants_eq (p : Place) : p.descendants = p.children.flatMap subtree := by
  rw [descendants, toList_visitAll]
  simp [children]

/-! ### Places directly below -/

/-- The places of several nodes stand under the same ones, and are numbered one
after the other without touching. -/
theorem siblings_spec {index : Nat} {above : List (Nat × Node)} {ns : List Node} {c : Place}
    (hc : c ∈ siblings index above ns) :
    c.above = above ∧ index ≤ c.index ∧ c.index + c.node.size ≤ index + Node.sizeAll ns := by
  induction ns generalizing index with
  | nil => simp [siblings] at hc
  | cons n ns ih =>
    rw [Node.sizeAll]
    rcases List.mem_cons.1 hc with rfl | hc
    · refine ⟨rfl, Nat.le_refl _, ?_⟩
      dsimp only
      omega
    · obtain ⟨habove, hlow, hhigh⟩ := ih hc
      exact ⟨habove, by omega, by omega⟩

/-- The places of nodes in a row hold these nodes, in the same order. -/
theorem map_node_siblings (index : Nat) (above : List (Nat × Node)) (ns : List Node) :
    (siblings index above ns).map Place.node = ns := by
  induction ns generalizing index with
  | nil => rfl
  | cons n ns ih => simp [siblings, ih]

/-- The places directly below a place hold the children of its node, in order. -/
theorem map_node_children (p : Place) : p.children.map Place.node = p.node.children :=
  map_node_siblings _ _ _

/-- The kinds of what stands directly below a place are those of the children of its node. -/
theorem map_kind_children (p : Place) :
    p.children.map Place.kind = p.node.children.map Node.kind := by
  rw [← map_node_children, List.map_map]
  rfl

variable {p q c : Place}

/-- The parent of a place directly below another is that other place. -/
theorem parent?_of_mem_children (hc : c ∈ p.children) : c.parent? = some p := by
  rw [parent?, (siblings_spec hc).1, inside]

/-- Above a place directly below `p` there are `p` and the places above `p`, from the nearest
on. -/
theorem ancestors_of_mem_children (hc : c ∈ p.children) : c.ancestors = p :: p.ancestors := by
  rw [ancestors, (siblings_spec hc).1, inside, outward, ancestors]

/-- The indices of a child and of what is below it lie within those of its parent, behind the
parent's own. -/
theorem index_of_mem_children (hc : c ∈ p.children) :
    p.index < c.index ∧ c.index + c.node.size ≤ p.index + p.node.size := by
  have hspec := siblings_spec hc
  have hsize := p.node.size_eq
  omega

/-- A child is smaller than its parent, which is what the recursion over places goes down by. -/
theorem size_of_mem_children (hc : c ∈ p.children) : c.node.size < p.node.size := by
  have hindex := index_of_mem_children hc
  omega

/-- What holds of a place whenever it holds of all places directly below it holds
of every place. -/
theorem induction_below {motive : Place → Prop}
    (step : ∀ p, (∀ c ∈ p.children, motive c) → motive p) (p : Place) : motive p := by
  induction hsize : p.node.size using Nat.strongRecOn generalizing p with
  | ind size ih =>
    apply step
    intro c hc
    exact ih c.node.size (hsize ▸ size_of_mem_children hc) c rfl

/-! ### Places further below -/

/-- A subtree is its top with everything further below. -/
theorem mem_subtree : q ∈ p.subtree ↔ q = p ∨ q ∈ p.descendants := List.mem_cons

/-- What is further below a place is in the subtree of one of its children. -/
theorem mem_descendants : q ∈ p.descendants ↔ ∃ c ∈ p.children, q ∈ c.subtree := by
  rw [descendants_eq, List.mem_flatMap]

/-- A child is one of the places further below. -/
theorem mem_descendants_of_mem_children (hc : c ∈ p.children) : c ∈ p.descendants :=
  mem_descendants.2 ⟨c, hc, mem_subtree.2 (.inl rfl)⟩

/-- What is below a descendant is below the place itself. -/
theorem descendants_subset (hq : q ∈ p.descendants) : q.descendants ⊆ p.descendants := by
  induction p using induction_below with
  | step p ih =>
    obtain ⟨c, hc, hqc⟩ := mem_descendants.1 hq
    intro r hr
    refine mem_descendants.2 ⟨c, hc, mem_subtree.2 (.inr ?_)⟩
    rcases mem_subtree.1 hqc with rfl | hqc
    · exact hr
    · exact ih c hc hqc hr

/-- The children of a descendant are descendants. -/
theorem children_subset_descendants (hq : q ∈ p.descendants) : q.children ⊆ p.descendants :=
  fun _ hc => descendants_subset hq (mem_descendants_of_mem_children hc)

/-- Whatever stands below a place has a larger number, because a walk comes to a node before it
comes to its children. -/
theorem index_lt_of_mem_descendants (hq : q ∈ p.descendants) : p.index < q.index := by
  induction p using induction_below with
  | step p ih =>
    obtain ⟨c, hc, hqc⟩ := mem_descendants.1 hq
    have hpc := (index_of_mem_children hc).1
    rcases mem_subtree.1 hqc with rfl | hqc
    · exact hpc
    · exact Nat.lt_trans hpc (ih c hc hqc)

/-- On the way up from a place below `p` one meets places below `p`, then `p`, and
then whatever is met from `p`. -/
theorem ancestors_eq_of_mem (hq : q ∈ p.descendants) :
    ∃ between, q.ancestors = between ++ p :: p.ancestors ∧
      ∀ r ∈ between, r ∈ p.descendants ∧ q ∈ r.descendants := by
  induction p using induction_below with
  | step p ih =>
    obtain ⟨c, hc, hqc⟩ := mem_descendants.1 hq
    rcases mem_subtree.1 hqc with rfl | hqc
    · exact ⟨[], ancestors_of_mem_children hc, by simp⟩
    · obtain ⟨between, hanc, hbetween⟩ := ih c hc hqc
      refine ⟨between ++ [c], by simp [hanc, ancestors_of_mem_children hc], ?_⟩
      intro r hr
      rcases List.mem_append.1 hr with hr | hr
      · obtain ⟨hrc, hqr⟩ := hbetween r hr
        exact ⟨descendants_subset (mem_descendants_of_mem_children hc) hrc, hqr⟩
      · obtain rfl := List.mem_singleton.1 hr
        exact ⟨mem_descendants_of_mem_children hc, hqc⟩

end Place

namespace Tree

variable {t : Tree} {p q : Place}

/-- The place of the root. -/
def top (t : Tree) : Place := ⟨0, t.root, []⟩

/-- The places of a tree in the order of a walk are the subtree of its top. -/
theorem places_eq (t : Tree) : t.places = t.top.subtree := by
  rw [places, Place.toList_visit]
  rfl

/-- A place of a tree is its top or somewhere below it. -/
theorem mem_places : p ∈ t.places ↔ p = t.top ∨ p ∈ t.top.descendants := by
  rw [places_eq, Place.mem_subtree]

/-- The places of wanted kinds are those of all places whose kind is wanted. -/
theorem mem_placesOf {wanted : Kind → Bool} :
    p ∈ t.placesOf wanted ↔ p ∈ t.places ∧ wanted p.kind = true := List.mem_filter

/-- What is below a place of a tree is a place of the tree. -/
theorem descendants_subset_places (hp : p ∈ t.places) : p.descendants ⊆ t.places := by
  intro q hq
  rcases mem_places.1 hp with rfl | hp
  · exact mem_places.2 (.inr hq)
  · exact mem_places.2 (.inr (Place.descendants_subset hp hq))

/-- The children of a place of a tree are places of the tree. -/
theorem children_subset_places (hp : p ∈ t.places) : p.children ⊆ t.places :=
  fun _ hc => descendants_subset_places hp (Place.mem_descendants_of_mem_children hc)

/-- Whoever goes up from a place of a tree stays in the tree, and has the place
below. -/
theorem ancestors_spec (hp : p ∈ t.places) (hq : q ∈ p.ancestors) :
    q ∈ t.places ∧ p ∈ q.descendants := by
  rcases mem_places.1 hp with rfl | hp
  · simp [top, Place.ancestors, Place.outward] at hq
  · obtain ⟨between, hanc, hbetween⟩ := Place.ancestors_eq_of_mem hp
    rw [hanc, List.mem_append, List.mem_cons] at hq
    rcases hq with hq | rfl | hq
    · obtain ⟨hqt, hpq⟩ := hbetween q hq
      exact ⟨mem_places.2 (.inr hqt), hpq⟩
    · exact ⟨mem_places.2 (.inl rfl), hp⟩
    · simp [top, Place.ancestors, Place.outward] at hq

end Tree

end PlsqlAudit
