import Mathlib.Data.List.Nodup
import PlsqlAudit.Proofs.Places

/-!
# The numbers of places

A place and what stands below it are numbered without a gap, in the order in
which they are listed (`Place.map_index_subtree`).  So a place of a tree is given
by its number.

Every place below another one stands directly below something.
-/

namespace PlsqlAudit

theorem Node.sizeAll_append (ns ms : List Node) : sizeAll (ns ++ ms) = sizeAll ns + sizeAll ms := by
  induction ns with
  | nil => simp [sizeAll]
  | cons n ns ih =>
    rw [List.cons_append, sizeAll, sizeAll, ih]
    omega

namespace Place

variable {p q r : Place}

theorem siblings_append (index : Nat) (above : List (Nat × Node)) (ns ms : List Node) :
    siblings index above (ns ++ ms) =
      siblings index above ns ++ siblings (index + Node.sizeAll ns) above ms := by
  induction ns generalizing index with
  | nil => simp [siblings, Node.sizeAll]
  | cons n ns ih =>
    simp only [List.cons_append, siblings, Node.sizeAll, ih, Nat.add_assoc]

/-- The places of several nodes and all below them are numbered without a gap, if
those of each node are. -/
theorem map_index_siblings {index : Nat} {above : List (Nat × Node)} {ns : List Node}
    (h : ∀ c ∈ siblings index above ns, c.subtree.map Place.index = List.range' c.index c.node.size) :
    ((siblings index above ns).flatMap subtree).map Place.index =
      List.range' index (Node.sizeAll ns) := by
  induction ns generalizing index with
  | nil => rfl
  | cons n ns ih =>
    have hfirst := h _ List.mem_cons_self
    have hrest := ih fun c hc => h c (List.mem_cons_of_mem _ hc)
    rw [siblings, List.flatMap_cons, List.map_append, hfirst, hrest, Node.sizeAll,
      List.range'_append_1]

/-- A place and all below it are numbered without a gap. -/
theorem map_index_subtree (p : Place) :
    p.subtree.map Place.index = List.range' p.index p.node.size := by
  induction p using induction_below with
  | step p ih =>
    rw [subtree, descendants_eq, children, List.map_cons, map_index_siblings ih, Node.size_eq,
      Nat.add_comm 1, List.range'_succ]

theorem nodup_subtree (p : Place) : (p.subtree.map Place.index).Nodup := by
  rw [map_index_subtree]
  exact List.nodup_range'

/-- Two places below one place with the same number are the same. -/
theorem eq_of_index_eq (hp : p ∈ r.subtree) (hq : q ∈ r.subtree) (h : p.index = q.index) :
    p = q := List.inj_on_of_nodup_map (nodup_subtree r) hp hq h

/-- Whatever stands below a place stands directly below it or below something
there. -/
theorem exists_mem_children (h : q ∈ p.descendants) : ∃ r ∈ p.subtree, q ∈ r.children := by
  induction p using induction_below with
  | step p ih =>
    obtain ⟨c, hc, hqc⟩ := mem_descendants.1 h
    rcases mem_subtree.1 hqc with rfl | hqc
    · exact ⟨p, mem_subtree.2 (.inl rfl), hc⟩
    · obtain ⟨r, hr, hqr⟩ := ih c hc hqc
      exact ⟨r, mem_subtree.2 (.inr (mem_descendants.2 ⟨c, hc, hr⟩)), hqr⟩

end Place

namespace Tree

variable {t : Tree} {p q : Place}

/-- The place directly above a place of a tree is in the tree, and has the place
directly below it. -/
theorem parent?_spec (hp : p ∈ t.places) (h : p.parent? = some q) :
    q ∈ t.places ∧ p ∈ q.children := by
  rcases mem_places.1 hp with rfl | hp
  · simp [top, Place.parent?] at h
  · obtain ⟨r, hr, hpr⟩ := Place.exists_mem_children hp
    rw [Place.parent?_of_mem_children hpr] at h
    obtain rfl := Option.some.inj h
    exact ⟨by rwa [places_eq], hpr⟩

theorem eq_of_index_eq (hp : p ∈ t.places) (hq : q ∈ t.places) (h : p.index = q.index) : p = q := by
  rw [places_eq] at hp hq
  exact Place.eq_of_index_eq hp hq h

end Tree

end PlsqlAudit
