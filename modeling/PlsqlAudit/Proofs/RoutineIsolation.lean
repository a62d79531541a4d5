import PlsqlAudit.Proofs.MirroredFlow
import PlsqlAudit.Proofs.SearchAccount

/-!
# Nothing outside a routine counts

Two routines that look alike are analysed alike, whatever stands around them.
Looking alike is a matter of kinds and texts, node by node (`Node.resembles`);
where the routines stand in their programs, and what else is in these, is left
open.  The places inside two such routines are paired by counting from the
routines, and this pairing is a `Mirror`.
-/

namespace PlsqlAudit

open List (Forall₂)

namespace Node

mutual

/-- True when two nodes, read from two texts, have the same kinds and the same
texts all the way down. -/
def resembles (source source' : String) : Node → Node → Bool
  | .mk kind span parts, .mk kind' span' parts' =>
    kind == kind' && span.text source == span'.text source' &&
      resembleAll source source' parts parts'

/-- True when several nodes resemble several others, one by one. -/
def resembleAll (source source' : String) : List Node → List Node → Bool
  | [], [] => true
  | n :: ns, n' :: ns' => resembles source source' n n' && resembleAll source source' ns ns'
  | _, _ => false

end

variable {source source' : String}

theorem resembles_spec {n n' : Node} (h : n.resembles source source' n' = true) :
    n.kind = n'.kind ∧ n.span.text source = n'.span.text source' ∧
      resembleAll source source' n.children n'.children = true := by
  obtain ⟨kind, span, parts⟩ := n
  obtain ⟨kind', span', parts'⟩ := n'
  simp only [resembles, Bool.and_eq_true, beq_iff_eq] at h
  exact ⟨h.1.1, h.1.2, h.2⟩

theorem rel_of_resembleAll {ns ns' : List Node} (h : resembleAll source source' ns ns' = true) :
    Forall₂ (fun n n' => n.resembles source source' n' = true) ns ns' := by
  induction ns generalizing ns' with
  | nil =>
    cases ns' with
    | nil => exact .nil
    | cons => simp [resembleAll] at h
  | cons n ns ih =>
    cases ns' with
    | nil => simp [resembleAll] at h
    | cons n' ns' =>
      simp only [resembleAll, Bool.and_eq_true] at h
      exact .cons h.1 (ih h.2)

mutual

theorem size_of_resembles (n n' : Node) (h : n.resembles source source' n' = true) :
    n.size = n'.size := by
  obtain ⟨kind, span, parts⟩ := n
  obtain ⟨kind', span', parts'⟩ := n'
  simp only [resembles, Bool.and_eq_true] at h
  rw [size, size, sizeAll_of_resembleAll parts parts' h.2]

theorem sizeAll_of_resembleAll (ns ns' : List Node)
    (h : resembleAll source source' ns ns' = true) : sizeAll ns = sizeAll ns' := by
  cases ns with
  | nil =>
    cases ns' with
    | nil => rfl
    | cons => simp [resembleAll] at h
  | cons n ns =>
    cases ns' with
    | nil => simp [resembleAll] at h
    | cons n' ns' =>
      simp only [resembleAll, Bool.and_eq_true] at h
      rw [sizeAll, sizeAll, size_of_resembles n n' h.1, sizeAll_of_resembleAll ns ns' h.2]

end

end Node

namespace Place

/-- Places of two trees inside `c` and `c'` that are the same number of nodes away
from these and look alike. -/
structure Counterpart (t t' : Tree) (c c' p p' : Place) : Prop where
  mem : p ∈ c.subtree
  mem' : p' ∈ c'.subtree
  index : p.index + c'.index = p'.index + c.index
  looks : p.node.resembles t.source t'.source p'.node = true

variable {t t' : Tree} {c c' p p' : Place}

namespace Counterpart

/-- The parts of counterparts are counterparts. -/
theorem children (h : Counterpart t t' c c' p p') :
    Forall₂ (Counterpart t t' c c') p.children p'.children := by
  have hparts := Node.rel_of_resembleAll (Node.resembles_spec h.looks).2.2
  refine (children_rel (Node.size_of_resembles _ _) h.mem h.mem' h.index hparts).imp ?_
  intro q q' hq
  exact ⟨hq.1, hq.2.1, hq.2.2.1, hq.2.2.2⟩

/-- **Counting from two routines that look alike** pairs the places inside them so
that no search can tell them apart. -/
theorem mirror (hc : c ∈ t.places) (hc' : c' ∈ t'.places) (hroutine : c.kind.isRoutine = true)
    (hlooks : c.node.resembles t.source t'.source c'.node = true) :
    ExactMirror t t' (Counterpart t t' c c') := by
  have hstart : Counterpart t t' c c' c c' :=
    ⟨mem_subtree.2 (.inl rfl), mem_subtree.2 (.inl rfl), Nat.add_comm _ _, hlooks⟩
  exact .of_subtrees hc hc' hstart (fun hp => ⟨hp.mem, hp.mem', hp.index⟩)
    (fun hp => (Node.resembles_spec hp.looks).1) (fun hp => (Node.resembles_spec hp.looks).2.1)
    (fun hp => hp.children) (.routine hroutine)

end Counterpart

end Place

namespace Search

variable {t t' : Tree} {c c' : Place}

/-- **Noninterference.**  If two routines look alike, the searches from a name
inside one and from its counterpart inside the other visit counterparts and
report counterparts, with the same identifiers, whatever stands outside the two
routines. -/
theorem exposed_of_resembles (hc : c ∈ t.places) (hc' : c' ∈ t'.places)
    (hroutine : c.kind.isRoutine = true)
    (hlooks : c.node.resembles t.source t'.source c'.node = true) (list : AllowList) {name : Place}
    (hname : name ∈ c.descendantsOf (· == .name)) :
    ∃ name' ∈ c'.descendantsOf (· == .name), Place.Counterpart t t' c c' name name' ∧
      Forall₂ (Place.Counterpart t t' c c') (trail t list name) (trail t' list name') ∧
      Forall₂ (Place.Counterpart t t' c c') (exposed t list name) (exposed t' list name') ∧
      (exposed t list name).map t.text = (exposed t' list name').map t'.text := by
  have hmirror := Place.Counterpart.mirror hc hc' hroutine hlooks
  have hstart : Place.Counterpart t t' c c' c c' :=
    ⟨Place.mem_subtree.2 (.inl rfl), Place.mem_subtree.2 (.inl rfl), Nat.add_comm _ _, hlooks⟩
  obtain ⟨name', hname', hkind, hpair⟩ := exists_of_mem_left (hmirror.names hstart) hname
  have hexposed : Forall₂ (Place.Counterpart t t' c c') (exposed t list name) (exposed t' list name') :=
    (hmirror.exposed list hpair hkind).imp fun _ _ hq => hq.2
  exact ⟨name', hname', hpair, (hmirror.trail list hpair hkind).imp fun _ _ hq => hq.2, hexposed,
    map_eq_of_rel (fun _ _ => hmirror.text) hexposed⟩

/-- A procedure alone, and the same one behind another in which its parameter is
asserted. -/
theorem exposed_of_resembles_of_neighbour : ∃ t t' c c' name name',
    parse "CREATE PROCEDURE p(x CHAR) IS BEGIN y := x; END;" = .ok t ∧
      parse ("CREATE PROCEDURE y IS BEGIN f.g(x); END;\n/\n" ++
        "CREATE PROCEDURE p(x CHAR) IS BEGIN y := x; END;") = .ok t' ∧
      (c ∈ t.places ∧ c' ∈ t'.places ∧ c.kind.isRoutine = true ∧
        c.node.resembles t.source t'.source c'.node = true ∧
        name ∈ c.descendantsOf (· == .name)) ∧
      exposed t ⟨["f"]⟩ name ≠ [] ∧
      (exposed t ⟨["f"]⟩ name).map t.text =
        (exposed t' ⟨["f"]⟩ name').map t'.text := by
  obtain ⟨t, hparse, htest⟩ := exists_parse
    "CREATE PROCEDURE p(x CHAR) IS BEGIN y := x; END;"
    (fun t => (parse ("CREATE PROCEDURE y IS BEGIN f.g(x); END;\n/\n" ++
        "CREATE PROCEDURE p(x CHAR) IS BEGIN y := x; END;")).toOption.any
      fun t' => t.places.any fun c => c.kind.isRoutine && t'.places.any fun c' =>
        c.node.resembles t.source t'.source c'.node && (c.descendantsOf (· == .name)).any fun name =>
          !(exposed t ⟨["f"]⟩ name).isEmpty) (by decide +kernel)
  obtain ⟨t', hparse', htest⟩ := exists_parse _ _ htest
  obtain ⟨c, hc, htest⟩ := List.any_eq_true.1 htest
  obtain ⟨hroutine, htest⟩ := Bool.and_eq_true_iff.1 htest
  obtain ⟨c', hc', htest⟩ := List.any_eq_true.1 htest
  obtain ⟨hlooks, htest⟩ := Bool.and_eq_true_iff.1 htest
  obtain ⟨name, hname, hfound⟩ := List.any_eq_true.1 htest
  obtain ⟨name', -, -, -, -, hsame⟩ :=
    exposed_of_resembles hc hc' hroutine hlooks ⟨["f"]⟩ hname
  exact ⟨t, t', c, c', name, name', hparse, hparse', ⟨hc, hc', hroutine, hlooks, hname⟩,
    by simpa using hfound, hsame⟩

end Search

end PlsqlAudit
