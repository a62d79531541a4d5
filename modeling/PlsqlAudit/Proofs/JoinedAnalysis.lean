import PlsqlAudit.Proofs.JoinedPrograms
import PlsqlAudit.Proofs.MirroredFlow
import PlsqlAudit.Proofs.NestedSpans
import PlsqlAudit.Proofs.ProgramSpelling
import PlsqlAudit.Proofs.SearchAccount

/-!
# Programs put one after the other are analysed one after the other

Two programs with a slash between them are read as one (`parse_slash`).  Its
violations are those of the first and those of the second, moved: a search never
leaves the unit it starts in, and the places of a unit are mirrored by those of
the same unit in the longer program.
-/

namespace PlsqlAudit

open List (Forall₂)

namespace Place

/-- Places below `c` and `c'` that are the same number of nodes away from these,
the second one moved. -/
structure Moved (d : Shift) (c c' p p' : Place) : Prop where
  mem : p ∈ c.subtree
  mem' : p' ∈ c'.subtree
  index : p.index + c'.index = p'.index + c.index
  node : p'.node = p.node.shift d

variable {d : Shift} {c c' p p' : Place}

theorem rel_map_shift (d : Shift) (nodes : List Node) :
    Forall₂ (fun n n' => n' = n.shift d) nodes (nodes.map (Node.shift d)) :=
  List.forall₂_map_right_iff.2 (List.forall₂_same.2 fun _ _ => rfl)

namespace Moved

theorem start (hnode : c'.node = c.node.shift d) : Moved d c c' c c' :=
  ⟨mem_subtree.2 (.inl rfl), mem_subtree.2 (.inl rfl), Nat.add_comm _ _, hnode⟩

theorem kind (h : Moved d c c' p p') : p.kind = p'.kind := by
  rw [Place.kind, Place.kind, h.node, Node.kind_shift]

theorem span (h : Moved d c c' p p') : p'.span = p.span.shift d := by
  rw [Place.span, Place.span, h.node, Node.span_shift]

theorem children (h : Moved d c c' p p') : Forall₂ (Moved d c c') p.children p'.children := by
  have hparts : Forall₂ (fun n n' => n' = n.shift d) p.node.children p'.node.children := by
    rw [h.node, Node.children_shift]
    exact rel_map_shift d p.node.children
  refine (children_rel ?_ h.mem h.mem' h.index hparts).imp ?_
  · intro n n' hn
    rw [hn, Node.size_shift]
  · intro q q' hq
    exact ⟨hq.1, hq.2.1, hq.2.2.1, hq.2.2.2⟩

/-- **A unit that was moved** cannot be told apart from the unit. -/
theorem mirror {t t' : Tree} (htop : t.top.kind = .compilationUnit)
    (htop' : t'.top.kind = .compilationUnit) (hc : c ∈ t.top.children) (hc' : c' ∈ t'.top.children)
    (hnode : c'.node = c.node.shift d)
    (htext : ∀ p ∈ c.subtree, (p.span.shift d).text t'.source = t.text p) :
    ExactMirror t t' (Moved d c c') := by
  have hin {t : Tree} {c : Place} (hc : c ∈ t.top.children) : c ∈ t.places :=
    Tree.mem_places.2 (.inr (mem_descendants_of_mem_children hc))
  refine .of_subtrees (hin hc) (hin hc') (start hnode) (fun hp => ⟨hp.mem, hp.mem', hp.index⟩)
    (fun hp => hp.kind) ?_ (fun hp => hp.children) (Tree.above_unit htop htop' hc hc')
  intro p p' hp
  rw [← htext p hp.mem, Tree.text, hp.span]

end Moved

end Place

namespace Tree

variable {source : String} {t t' : Tree} {p : Place} {d : Shift} (list : AllowList)

end Tree

end PlsqlAudit
