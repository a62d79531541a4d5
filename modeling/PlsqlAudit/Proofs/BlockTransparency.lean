import PlsqlAudit.Proofs.MirroredFlow
import PlsqlAudit.Proofs.SearchAccount

/-!
# Blocks without declarations

A run of statements in the body of a block or routine may be put into a block of
its own, as long as that block declares nothing: no answer changes.  The new block
and its body are two nodes more, so that the numbers of all that stands inside the
block or behind it grow by two (`renumber`); spans and texts stay.
-/

namespace PlsqlAudit

open List (Forall₂)

/-- A run of statements in the body of a scope is moved into a block of its own.
Counted from the node on the left, the block has number `k`. -/
inductive Node.Boxes : Nat → Node → Node → Prop
  | here {kind : Kind} {span bodySpan blockSpan innerSpan : Span}
    {front before run after rest : List Node} (hscope : (ScopeKind.of? kind).isSome = true) :
    Boxes (2 + sizeAll front + sizeAll before)
      (.mk kind span (front ++ .mk .body bodySpan (before ++ (run ++ after)) :: rest))
      (.mk kind span (front ++ .mk .body bodySpan
        (before ++ .mk .anonymousBlock blockSpan [.mk .body innerSpan run] :: after) :: rest))
  | there {k : Nat} {kind : Kind} {span : Span} {n n' : Node} {front rest : List Node}
    (h : Boxes k n n') :
    Boxes (1 + sizeAll front + k) (.mk kind span (front ++ n :: rest))
      (.mk kind span (front ++ n' :: rest))

theorem Node.Boxes.spec {k : Nat} {n n' : Node} (h : n.Boxes k n') :
    0 < k ∧ k ≤ n.size ∧ n'.size = n.size + 2 ∧ n'.kind = n.kind ∧ n'.span = n.span := by
  induction h with
  | here hscope =>
    simp only [size, sizeAll_append, sizeAll, Node.kind, Node.span, and_self, and_true]
    omega
  | there h ih =>
    obtain ⟨hpos, hle, hsize, -, -⟩ := ih
    simp only [size, sizeAll_append, sizeAll, Node.kind, Node.span, and_self, and_true, hsize]
    omega

/-- The number that a node has once a block with number `k` was put in. -/
def renumber (k index : Nat) : Nat := if index < k then index else index + 2

theorem renumber_injective (k : Nat) : Function.Injective (renumber k) := by
  intro i j h
  unfold renumber at h
  split at h <;> split at h <;> omega

namespace Place

/-- Where a place stands with regard to the new block, and what becomes of it. -/
inductive Kept (k : Nat) (p p' : Place) : Prop
  | before (hnode : p'.node = p.node) (hindex : p'.index = p.index) (hk : p.index + p.node.size ≤ k)
  | after (hnode : p'.node = p.node) (hindex : p'.index = p.index + 2) (hk : k ≤ p.index)
  | around {j : Nat} (hnode : p.node.Boxes j p'.node) (hindex : p'.index = p.index)
    (hk : k = p.index + j)
  | body {span blockSpan innerSpan : Span} {front run rest : List Node} (hscope : p.IsScopeBody)
    (hnode : p.node = .mk .body span (front ++ (run ++ rest)))
    (hnode' : p'.node = .mk .body span
      (front ++ .mk .anonymousBlock blockSpan [.mk .body innerSpan run] :: rest))
    (hindex : p'.index = p.index) (hk : k = p.index + 1 + Node.sizeAll front)

namespace Kept

variable {k : Nat} {p p' : Place}

theorem index (h : Kept k p p') : p'.index = renumber k p.index := by
  have hsize := p.node.size_eq
  unfold renumber
  cases h with
  | before hnode hindex hk => rw [if_pos (by omega), hindex]
  | after hnode hindex hk => rw [if_neg (by omega), hindex]
  | around hnode hindex hk =>
    have hpos := hnode.spec.1
    rw [if_pos (by omega), hindex]
  | body hscope hnode hnode' hindex hk => rw [if_pos (by omega), hindex]

theorem kind_span (h : Kept k p p') : p'.kind = p.kind ∧ p'.span = p.span := by
  cases h with
  | before hnode => simp [kind, span, hnode]
  | after hnode => simp [kind, span, hnode]
  | around hnode => exact hnode.spec.2.2.2
  | body hscope hnode hnode' => simp [kind, span, hnode, hnode', Node.kind, Node.span]

/-- What stands wholly in front of the block. -/
theorem siblings_before {i : Nat} {above above' : List (Nat × Node)} {ns : List Node}
    (hk : i + Node.sizeAll ns ≤ k) :
    Forall₂ (Kept k) (siblings i above ns) (siblings i above' ns) := by
  induction ns generalizing i with
  | nil => exact .nil
  | cons n ns ih =>
    rw [Node.sizeAll] at hk
    refine .cons (.before rfl rfl ?_) (ih (by omega))
    dsimp only
    omega

/-- What stands inside the block or behind it. -/
theorem siblings_after {i : Nat} {above above' : List (Nat × Node)} {ns : List Node} (hk : k ≤ i) :
    Forall₂ (Kept k) (siblings i above ns) (siblings (i + 2) above' ns) := by
  induction ns generalizing i with
  | nil => exact .nil
  | cons n ns ih =>
    rw [siblings, siblings, Nat.add_right_comm]
    exact .cons (.after rfl rfl hk) (ih (by omega))

/-- Where one part holds the block, the parts before and behind it are as they
were. -/
theorem siblings_around {i : Nat} {above above' : List (Nat × Node)} {n n' : Node}
    {front rest : List Node} (hn : Kept k ⟨i + Node.sizeAll front, n, above⟩
      ⟨i + Node.sizeAll front, n', above'⟩) (hsize : n'.size = n.size + 2)
    (hlow : i + Node.sizeAll front ≤ k) (hhigh : k ≤ i + Node.sizeAll front + n.size) :
    Forall₂ (Kept k) (siblings i above (front ++ n :: rest)) (siblings i above' (front ++ n' :: rest)) := by
  rw [siblings_append, siblings_append, siblings, siblings, hsize, ← Nat.add_assoc]
  exact List.rel_append (siblings_before hlow) (.cons hn (siblings_after hhigh))

/-- The parts of two places that are kept are kept. -/
theorem below (h : Kept k p p') : p.Below (Kept k) p' := by
  have hsize := p.node.size_eq
  cases h with
  | before hnode hindex hk =>
    refine .same ?_
    rw [children, children, hnode, hindex]
    exact siblings_before (by omega)
  | after hnode hindex hk =>
    refine .same ?_
    rw [children, children, hnode, hindex, Nat.add_right_comm]
    exact siblings_after (by omega)
  | around hnode hindex hk =>
    obtain ⟨index, node, above⟩ := p
    obtain ⟨index', node', above'⟩ := p'
    obtain rfl : index' = index := hindex
    dsimp only at hnode hk
    refine .same ?_
    cases hnode with
    | @here kind span bodySpan blockSpan innerSpan front before run after rest hscope =>
      refine siblings_around (.body ⟨rfl, ?_⟩ rfl rfl rfl ?_) ?_ ?_ ?_
      · refine ⟨⟨index', .mk kind span (front ++ .mk .body bodySpan (before ++ (run ++ after)) :: rest),
          above⟩, ?_, hscope⟩
        rw [children, Node.children, siblings_append, siblings]
        exact List.mem_append_right _ List.mem_cons_self
      · dsimp only
        omega
      · simp only [Node.size, Node.sizeAll_append, Node.sizeAll]
        omega
      · dsimp only
        omega
      · simp only [Node.size, Node.sizeAll_append]
        omega
    | there h =>
      obtain ⟨hpos, hle, hsize, -, -⟩ := h.spec
      refine siblings_around (.around h rfl ?_) hsize ?_ ?_
      · dsimp only
        omega
      · dsimp only
        omega
      · dsimp only
        omega
  | @body span blockSpan innerSpan front run rest hscope hnode hnode' hindex hk =>
    have hplain : IsPlainBlock
        ⟨k, .mk .anonymousBlock blockSpan [.mk .body innerSpan run], p'.inside⟩
        ⟨k + 1, .mk .body innerSpan run,
          (k, .mk .anonymousBlock blockSpan [.mk .body innerSpan run]) :: p'.inside⟩ :=
      ⟨rfl, rfl, rfl⟩
    have hparts : p.children = siblings (p.index + 1) p.inside front ++
        (siblings k p.inside run ++ siblings (k + Node.sizeAll run) p.inside rest) := by
      rw [children, hnode, Node.children, siblings_append, siblings_append, hk]
    have hparts' : p'.children = siblings (p.index + 1) p'.inside front ++
        ⟨k, .mk .anonymousBlock blockSpan [.mk .body innerSpan run], p'.inside⟩ ::
          siblings (k + Node.sizeAll run + 2) p'.inside rest := by
      rw [children, hnode', Node.children, siblings_append, siblings, hindex, hk]
      simp only [Node.size, Node.sizeAll, Nat.add_zero]
      congr 3
      omega
    exact .boxed hscope hplain hparts hparts' (siblings_before (by omega))
      (siblings_after (Nat.le_refl _)) (siblings_after (by omega))

end Kept

end Place

namespace Tree

/-- Places of two trees of which the second has a block more. -/
def Kept (t t' : Tree) (k : Nat) (p p' : Place) : Prop :=
  p ∈ t.places ∧ p' ∈ t'.places ∧ p.Kept k p'

variable {t t' : Tree} {k : Nat}

theorem kept_top (h : t.root.Boxes k t'.root) : Kept t t' k t.top t'.top :=
  ⟨mem_places.2 (.inl rfl), mem_places.2 (.inl rfl), .around h rfl (Nat.zero_add _).symm⟩

/-- **A block without declarations** cannot be told apart from its statements. -/
theorem Kept.mirror (hsource : t'.source = t.source) (h : t.root.Boxes k t'.root) :
    ExactMirror t t' (Kept t t' k) := by
  have hunique {p p' q q' : Place} (hp : Kept t t' k p p') (hq : Kept t t' k q q') :
      p = q ↔ p' = q' := by
    constructor
    · intro hsame
      exact eq_of_index_eq hp.2.1 hq.2.1 (by rw [hp.2.2.index, hq.2.2.index, hsame])
    · intro hsame
      refine eq_of_index_eq hp.1 hq.1 (renumber_injective k ?_)
      rw [← hp.2.2.index, ← hq.2.2.index, hsame]
  have hbelow {p p' : Place} (hp : Kept t t' k p p') : p.Below (Kept t t' k) p' :=
    hp.2.2.below.inTrees hp.1 hp.2.1
  have htext {p p' : Place} (hp : Kept t t' k p p') : t.text p = t'.text p' := by
    rw [Tree.text, Tree.text, hsource, hp.2.2.kind_span.2]
  refine ⟨⟨fun hp => ⟨hp.1, hp.2.1⟩, fun hp => hp.2.2.kind_span.1.symm, fun hp => .of_eq (htext hp),
    hunique, hbelow, ?_⟩, htext⟩
  · intro p p' hp
    have hmem : p ∈ t.top.subtree := t.places_eq ▸ hp.1
    exact Place.above_of_start hunique hbelow (kept_top h) above_top hmem hp

/-- What a search finds out about a name, before and after. -/
structure SameAnswers (t t' : Tree) (k : Nat) (list : AllowList) (name name' : Place) : Prop where
  index : name'.index = renumber k name.index
  span : name'.span = name.span
  isParameter : t'.isParameter name' = t.isParameter name
  origins : (t'.origins name').map Place.index = (t.origins name).map fun p => renumber k p.index
  asserts : list.asserts t' name' = list.asserts t name
  protects : list.protects t' name' = list.protects t name
  violations : (Search.exposed t' list name').map t'.violation =
    (Search.exposed t list name).map t.violation

/-- **Blocks without declarations are transparent.**  If a run of statements in the
body of a block or routine is moved into a block of its own, the answers about
every name stay the same, and so do the violations of the whole program. -/
theorem sameAnswers_of_boxes (hsource : t'.source = t.source) (h : t.root.Boxes k t'.root)
    (list : AllowList) :
    Forall₂ (SameAnswers t t' k list) (t.placesOf (· == .name)) (t'.placesOf (· == .name)) ∧
      (t'.exposures list).map t'.violation = (t.exposures list).map t.violation := by
  have hmirror := Kept.mirror hsource h
  have htop := kept_top h
  have hviolations {l l' : List Place} (hl : Forall₂ (fun p p' => p.kind = .name ∧ Kept t t' k p p') l l') :
      l'.map t'.violation = l.map t.violation := by
    refine (map_eq_of_rel ?_ hl).symm
    intro p p' hp
    rw [violation, violation, hmirror.text hp.2, hp.2.2.2.kind_span.2]
  refine ⟨?_, hviolations (hmirror.exposures list (hmirror.placesOf htop rfl rfl))⟩
  have hnames : Forall₂ (fun p p' => p.kind = .name ∧ Kept t t' k p p')
      (t.placesOf (· == .name)) (t'.placesOf (· == .name)) := by
    refine (List.forall₂_and_left _ _).2 ⟨?_, hmirror.placesOf htop rfl rfl⟩
    intro p hp
    simpa using (mem_placesOf.1 hp).2
  refine hnames.imp ?_
  intro name name' hname
  obtain ⟨hkind, hpair⟩ := hname
  have hroutine : name.kind.isRoutine = false := by simp [hkind, Kind.isRoutine]
  refine ⟨hpair.2.2.index, hpair.2.2.kind_span.2, (hmirror.isParameter hpair).symm, ?_,
    (hmirror.asserts list hpair hroutine).symm, (hmirror.protects list hpair hroutine).symm,
    hviolations (hmirror.exposed list hpair hkind)⟩
  exact (map_eq_of_rel (fun _ _ hp => hp.2.2.index.symm) (hmirror.origins hpair hroutine)).symm

/-- A procedure with two statements, in which a name is exposed. -/
def isExposedPair (t : Tree) : Bool :=
  match t.root with
  | .mk _ _ [.mk .createProcedure _ [_, _, _, .mk .body _ [_, _]]] => !(t.exposures ⟨[]⟩).isEmpty
  | _ => false

/-- The second statement of a procedure in a block of its own. -/
theorem sameAnswers_of_boxes_of_site : ∃ (t t' : Tree) (k : Nat),
    parse "CREATE PROCEDURE p(x CHAR) IS BEGIN y := x; OPEN c FOR y; END;" = .ok t ∧
      (t'.source = t.source ∧ t.root.Boxes k t'.root) ∧ t.exposures ⟨[]⟩ ≠ [] ∧
      Forall₂ (SameAnswers t t' k ⟨[]⟩) (t.placesOf (· == .name)) (t'.placesOf (· == .name)) ∧
      (t'.exposures ⟨[]⟩).map t'.violation = (t.exposures ⟨[]⟩).map t.violation := by
  obtain ⟨t, hparse, htest⟩ := exists_parse
    "CREATE PROCEDURE p(x CHAR) IS BEGIN y := x; OPEN c FOR y; END;" isExposedPair
    (by decide +kernel)
  unfold isExposedPair at htest
  split at htest
  case h_1 kind span procedureSpan name parameter section_ bodySpan first second hroot =>
    have hprocedure : Node.Boxes _
        (.mk .createProcedure procedureSpan ([name, parameter, section_] ++
          .mk .body bodySpan ([first] ++ ([second] ++ [])) :: []))
        (.mk .createProcedure procedureSpan ([name, parameter, section_] ++ .mk .body bodySpan
          ([first] ++ .mk .anonymousBlock second.span [.mk .body second.span [second]] :: []) :: [])) :=
      .here rfl
    have hboxes : Node.Boxes _ (.mk kind span ([] ++ _ :: [])) (.mk kind span ([] ++ _ :: [])) :=
      .there hprocedure
    obtain ⟨k, root', hroot'⟩ : ∃ k root', t.root.Boxes k root' := ⟨_, _, hroot ▸ hboxes⟩
    have hsame := @sameAnswers_of_boxes t ⟨t.source, root'⟩ k rfl hroot' ⟨[]⟩
    exact ⟨t, ⟨t.source, root'⟩, k, hparse, ⟨rfl, hroot'⟩, by simpa using htest, hsame⟩
  case h_2 => simp at htest

end Tree

end PlsqlAudit
