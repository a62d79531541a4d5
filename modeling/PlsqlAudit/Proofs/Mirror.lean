import PlsqlAudit.Proofs.QualifiedCalls
import PlsqlAudit.Proofs.SameLetters
import PlsqlAudit.Proofs.Surroundings

/-!
# Trees that mirror each other

All that a search asks of a tree is which kinds of nodes stand above and below a
place, in which order, and what their texts are.  A relation between the places
of two trees that respects this is a `Mirror`.  Two places that it pairs have the
same kind and a text in the same letters, and their parts are paired in order, with
one exception: in the body of a scope a run of statements may stand in a block of
its own on the right side.  Going up, the places above are paired too, up to a
routine or to the edge of the program.

Whatever the flow of a name depends on is then paired as well: its routine, the
scopes around it, its origins and its assertions.
-/

namespace PlsqlAudit

open List (Forall₂)

/-! ### The relation -/

namespace Place

/-- The body of a block or routine that opens a scope. -/
def IsScopeBody (p : Place) : Prop :=
  p.kind = .body ∧ ∃ container : Place, p ∈ container.children ∧ (ScopeKind.of? container.kind).isSome = true

/-- A block without declarations, and its body. -/
structure IsPlainBlock (block inner : Place) : Prop where
  kind : block.kind = .anonymousBlock
  parts : block.children = [inner]
  inner_kind : inner.kind = .body

/-- The parts of two places are paired in order, or they are but for a run of
statements that stands in a block of its own. -/
inductive Below (R : Place → Place → Prop) (p p' : Place) : Prop
  | same (h : Forall₂ R p.children p'.children)
  | boxed {block inner : Place} {front run rest front' rest' : List Place} (hbody : p.IsScopeBody)
    (hblock : block.IsPlainBlock inner) (hparts : p.children = front ++ (run ++ rest))
    (hparts' : p'.children = front' ++ block :: rest') (hfront : Forall₂ R front front')
    (hrun : Forall₂ R run inner.children) (hrest : Forall₂ R rest rest')

/-- What stands above two places: nothing counts above a routine, nothing stands
above but the program, or the places directly above are paired, where on the
right side a block may stand between. -/
inductive Above (R : Place → Place → Prop) (p p' : Place) : Prop
  | routine (h : p.kind.isRoutine = true)
  | outside (h : ∀ q ∈ p.ancestors, q.kind = .compilationUnit)
    (h' : ∀ q ∈ p'.ancestors, q.kind = .compilationUnit)
  | under {q q' : Place} (h : R q q') (hp : p ∈ q.children) (hp' : p' ∈ q'.children)
  | boxed {q q' block inner : Place} (h : R q q') (hbody : q.IsScopeBody)
    (hblock : block.IsPlainBlock inner) (hp : p ∈ q.children) (hq' : block ∈ q'.children)
    (hp' : p' ∈ inner.children)

end Place

open Place

/-- A pairing of places of two trees that a search cannot tell apart. -/
structure Mirror (t t' : Tree) (R : Place → Place → Prop) : Prop where
  mem : ∀ {p p'}, R p p' → p ∈ t.places ∧ p' ∈ t'.places
  kind : ∀ {p p'}, R p p' → p.kind = p'.kind
  letters : ∀ {p p'}, R p p' → Text.Recased (t.text p) (t'.text p')
  unique : ∀ {p p' q q'}, R p p' → R q q' → (p = q ↔ p' = q')
  below : ∀ {p p'}, R p p' → p.Below R p'
  above : ∀ {p p'}, R p p' → p.Above R p'

/-- A pairing of places that are spelled in the same way. -/
structure ExactMirror (t t' : Tree) (R : Place → Place → Prop) : Prop extends Mirror t t' R where
  text : ∀ {p p'}, R p p' → t.text p = t'.text p'

namespace Place

variable {R : Place → Place → Prop} {p p' q q' c c' : Place}

/-- A dotted chain is paired with a dotted chain of the same length, name by name. -/
theorem Chain.partner (hkind : ∀ {p p'}, R p p' → p.kind = p'.kind)
    (hparts : ∀ {p p'}, R p p' → p.kind = .memberAccess → Forall₂ R p.children p'.children)
    {names : List Place} (h : p.Chain names) (hp : R p p') :
    ∃ names', p'.Chain names' ∧ Forall₂ R names names' := by
  induction h generalizing p' with
  | name hname => exact ⟨[p'], .name (hkind hp ▸ hname), .cons hp .nil⟩
  | member hmember hchildren hright _ ih =>
    have hrel := hparts hp hmember
    rw [hchildren, List.forall₂_cons_left_iff] at hrel
    obtain ⟨left', rest', hleft', hrest, hchildren'⟩ := hrel
    rw [List.forall₂_cons_left_iff] at hrest
    obtain ⟨right', nil', hright', hnil, rfl⟩ := hrest
    obtain rfl := List.forall₂_nil_left_iff.1 hnil
    obtain ⟨names', hchain, hnames⟩ := ih hleft'
    exact ⟨names' ++ [right'], .member (hkind hp ▸ hmember) hchildren' (hkind hright' ▸ hright) hchain,
      List.rel_append hnames (.cons hright' .nil)⟩

/-- Parts of places of the trees are places of the trees, so that pairs can be taken to stand in
them. -/
theorem Below.inTrees {t t' : Tree} (h : p.Below R p') (hp : p ∈ t.places) (hp' : p' ∈ t'.places) :
    p.Below (fun q q' => q ∈ t.places ∧ q' ∈ t'.places ∧ R q q') p' := by
  have hin {l l' : List Place} (hl : l ⊆ t.places) (hl' : l' ⊆ t'.places) (hrel : Forall₂ R l l') :
      Forall₂ (fun q q' => q ∈ t.places ∧ q' ∈ t'.places ∧ R q q') l l' :=
    (rel_mem_mem hrel).imp fun _ _ hq => ⟨hl hq.1, hl' hq.2.1, hq.2.2⟩
  have hparts := Tree.children_subset_places hp
  have hparts' := Tree.children_subset_places hp'
  cases h with
  | same h => exact .same (hin hparts hparts' h)
  | boxed hbody hblock heq heq' hfront hrun hrest =>
    rw [heq, List.append_subset, List.append_subset] at hparts
    rw [heq', List.append_subset, List.cons_subset] at hparts'
    have hinner := Tree.children_subset_places hparts'.2.1
    rw [hblock.parts, List.cons_subset] at hinner
    exact .boxed hbody hblock heq heq' (hin hparts.1 hparts'.1 hfront)
      (hin hparts.2.1 (Tree.children_subset_places hinner.1) hrun)
      (hin hparts.2.2 hparts'.2.2 hrest)

/-- If the places directly above are paired downward, the places are paired
upward. -/
theorem above_of_below (hunique : ∀ {p p' q q'}, R p p' → R q q' → (p = q ↔ p' = q'))
    (hp : R p p') (hq : R q q') (hbelow : q.Below R q') (hpq : p ∈ q.children) : p.Above R p' := by
  have hpartner {l : List Place} {l' : List Place} (h : Forall₂ R l l') (hmem : p ∈ l) :
      p' ∈ l' := by
    obtain ⟨r, hr, hpr⟩ := exists_of_mem_left h hmem
    exact (hunique hp hpr).1 rfl ▸ hr
  cases hbelow with
  | same h => exact .under hq hpq (hpartner h hpq)
  | boxed hbody hblock hparts hparts' hfront hrun hrest =>
    have hcases := hpq
    rw [hparts, List.mem_append, List.mem_append] at hcases
    rcases hcases with hcase | hcase | hcase
    · exact .under hq hpq (by simp [hparts', hpartner hfront hcase])
    · exact .boxed hq hbody hblock hpq (by simp [hparts']) (hpartner hrun hcase)
    · exact .under hq hpq (by simp [hparts', hpartner hrest hcase])

/-- Whatever stands below a place that is paired is paired. -/
theorem exists_of_mem_subtree (hbelow : ∀ {p p'}, R p p' → p.Below R p') (hc : R c c')
    (hp : p ∈ c.subtree) : ∃ p', R p p' := by
  induction c using induction_below generalizing c' with
  | step c ih =>
    rcases mem_subtree.1 hp with rfl | hp
    · exact ⟨c', hc⟩
    · obtain ⟨d, hd, hpd⟩ := mem_descendants.1 hp
      obtain ⟨d', hd'⟩ : ∃ d', R d d' := by
        cases hbelow hc with
        | same h =>
          obtain ⟨d', -, hr⟩ := exists_of_mem_left h hd
          exact ⟨d', hr⟩
        | boxed _ _ hparts _ hfront hrun hrest =>
          have hcases := hd
          rw [hparts, List.mem_append, List.mem_append] at hcases
          rcases hcases with hcase | hcase | hcase
          · exact (exists_of_mem_left hfront hcase).imp fun _ h => h.2
          · exact (exists_of_mem_left hrun hcase).imp fun _ h => h.2
          · exact (exists_of_mem_left hrest hcase).imp fun _ h => h.2
      exact ih d hd hd' hpd

/-- If places are paired downward from `c`, what stands above them is settled by
what stands above `c`. -/
theorem above_of_start (hunique : ∀ {p p' q q'}, R p p' → R q q' → (p = q ↔ p' = q'))
    (hbelow : ∀ {p p'}, R p p' → p.Below R p') (hc : R c c') (habove : c.Above R c')
    (hmem : p ∈ c.subtree) (hp : R p p') : p.Above R p' := by
  rcases mem_subtree.1 hmem with rfl | hinside
  · exact (hunique hc hp).1 rfl ▸ habove
  · obtain ⟨q, hq, hpq⟩ := exists_mem_children hinside
    obtain ⟨q', hqq⟩ := exists_of_mem_subtree hbelow hc hq
    exact above_of_below hunique hp hqq (hbelow hqq) hpq

/-! ### Places that count the same from above -/

/-- Nodes in a row that are alike one by one, and of equal sizes, stand at indices with a constant
difference. -/
theorem siblings_rel {L : Node → Node → Prop} (hsize : ∀ {n n'}, L n n' → n.size = n'.size)
    {i i' j j' : Nat} {above above' : List (Nat × Node)} {ns ns' : List Node}
    (hindex : i + j' = i' + j) (h : Forall₂ L ns ns') :
    Forall₂ (fun q q' => q.index + j' = q'.index + j ∧ L q.node q'.node)
      (siblings i above ns) (siblings i' above' ns') := by
  induction h generalizing i i' with
  | nil => exact .nil
  | @cons n n' ns ns' hn _ ih =>
    have hsame := hsize hn
    exact .cons ⟨hindex, hn⟩ (ih (by omega))

/-- The parts of two places that are as far from `c` as from `c'` are so too. -/
theorem children_rel {L : Node → Node → Prop} (hsize : ∀ {n n'}, L n n' → n.size = n'.size)
    (hp : p ∈ c.subtree) (hp' : p' ∈ c'.subtree) (hindex : p.index + c'.index = p'.index + c.index)
    (h : Forall₂ L p.node.children p'.node.children) :
    Forall₂ (fun q q' => q ∈ c.subtree ∧ q' ∈ c'.subtree ∧
      q.index + c'.index = q'.index + c.index ∧ L q.node q'.node) p.children p'.children := by
  have hinside {c p q : Place} (hp : p ∈ c.subtree) (hq : q ∈ p.children) : q ∈ c.subtree := by
    rcases mem_subtree.1 hp with rfl | hp
    · exact mem_subtree.2 (.inr (mem_descendants_of_mem_children hq))
    · exact mem_subtree.2 (.inr (children_subset_descendants hp hq))
  have hparts : Forall₂ (fun q q' => q.index + c'.index = q'.index + c.index ∧ L q.node q'.node)
      p.children p'.children := siblings_rel hsize (by omega) h
  exact (rel_mem_mem hparts).imp fun q q' hq =>
    ⟨hinside hp hq.1, hinside hp' hq.2.1, hq.2.2⟩

end Place

namespace Tree

variable {t t' : Tree} {R : Place → Place → Prop} {c c' : Place}

/-- There is nothing above the top of a tree. -/
theorem ancestors_top (t : Tree) : t.top.ancestors = [] := rfl

/-- Nothing stands above two programs, so there is nothing that could differ there. -/
theorem above_top : t.top.Above R t'.top := by
  refine .outside ?_ ?_
  · simp [ancestors_top]
  · simp [ancestors_top]

/-- Above two units stand only the programs, which no walk through scopes goes beyond. -/
theorem above_unit (htop : t.top.kind = .compilationUnit) (htop' : t'.top.kind = .compilationUnit)
    (hc : c ∈ t.top.children) (hc' : c' ∈ t'.top.children) : c.Above R c' := by
  refine .outside ?_ ?_
  · simpa [ancestors_of_mem_children hc, ancestors_top] using htop
  · simpa [ancestors_of_mem_children hc', ancestors_top] using htop'

end Tree

/-- **A pairing by counting from two places** is a mirror, if kinds are the same,
texts are in the same letters and what stands above the two places is settled. -/
theorem Mirror.of_subtrees {t t' : Tree} {R : Place → Place → Prop} {c c' : Place}
    (hc : c ∈ t.places) (hc' : c' ∈ t'.places) (hstart : R c c')
    (hplace : ∀ {p p'}, R p p' → p ∈ c.subtree ∧ p' ∈ c'.subtree ∧
      p.index + c'.index = p'.index + c.index)
    (hkind : ∀ {p p'}, R p p' → p.kind = p'.kind)
    (hletters : ∀ {p p'}, R p p' → Text.Recased (t.text p) (t'.text p'))
    (hchildren : ∀ {p p'}, R p p' → Forall₂ R p.children p'.children)
    (habove : c.Above R c') : Mirror t t' R := by
  have hunique {p p' q q' : Place} (hp : R p p') (hq : R q q') : p = q ↔ p' = q' := by
    obtain ⟨hmem, hmem', hindex⟩ := hplace hp
    obtain ⟨hmemQ, hmemQ', hindexQ⟩ := hplace hq
    constructor
    · intro hsame
      exact eq_of_index_eq hmem' hmemQ' (by rw [hsame] at hindex; omega)
    · intro hsame
      exact eq_of_index_eq hmem hmemQ (by rw [hsame] at hindex; omega)
  refine ⟨?_, hkind, hletters, hunique, fun hp => .same (hchildren hp), ?_⟩
  · intro p p' hp
    obtain ⟨hmem, hmem', -⟩ := hplace hp
    exact ⟨Tree.subtree_subset_places hc hmem, Tree.subtree_subset_places hc' hmem'⟩
  · intro p p' hp
    exact above_of_start hunique (fun hq => .same (hchildren hq)) hstart habove (hplace hp).1 hp

/-- The same for subtrees with texts that are the same letter by letter. -/
theorem ExactMirror.of_subtrees {t t' : Tree} {R : Place → Place → Prop} {c c' : Place}
    (hc : c ∈ t.places) (hc' : c' ∈ t'.places) (hstart : R c c')
    (hplace : ∀ {p p'}, R p p' → p ∈ c.subtree ∧ p' ∈ c'.subtree ∧
      p.index + c'.index = p'.index + c.index)
    (hkind : ∀ {p p'}, R p p' → p.kind = p'.kind) (htext : ∀ {p p'}, R p p' → t.text p = t'.text p')
    (hchildren : ∀ {p p'}, R p p' → Forall₂ R p.children p'.children)
    (habove : c.Above R c') : ExactMirror t t' R :=
  ⟨.of_subtrees hc hc' hstart hplace hkind (fun hp => .of_eq (htext hp)) hchildren habove, htext⟩

namespace Mirror

variable {t t' : Tree} {R : Place → Place → Prop} (h : Mirror t t' R) {p p' : Place}

include h

/-! ### Going down -/

/-- The parts of paired places are paired in order, apart from those of a body. -/
theorem children (hp : R p p') (hkind : p.kind ≠ .body) : Forall₂ R p.children p'.children := by
  cases h.below hp with
  | same hparts => exact hparts
  | boxed hbody => exact absurd hbody.1 hkind

/-- The first part of a wanted kind is paired, or missing on both sides. -/
theorem child? (hp : R p p') (hkind : p.kind ≠ .body) (wanted : Kind → Bool) :
    Option.Rel R (p.child? wanted) (p'.child? wanted) :=
  rel_find? (fun _ _ hq => by rw [h.kind hq]) (h.children hp hkind)

/-- What stands below two paired places is paired, but for bodies and blocks. -/
theorem descendantsOf (hp : R p p') {wanted : Kind → Bool} (hbody : wanted .body = false)
    (hblock : wanted .anonymousBlock = false) :
    Forall₂ R (p.descendantsOf wanted) (p'.descendantsOf wanted) := by
  induction p using Place.induction_below generalizing p' with
  | step p ih =>
    have hforest {l l' : List Place} (hl : l ⊆ p.children) (hrel : Forall₂ R l l') :
        Forall₂ R ((l.flatMap subtree).filter fun q => wanted q.kind)
          ((l'.flatMap subtree).filter fun q => wanted q.kind) := by
      induction hrel with
      | nil => exact .nil
      | @cons q q' l l' hq _ ihl =>
        rw [List.cons_subset] at hl
        have hbelow := ih q hl.1 hq
        simp only [List.flatMap_cons, List.filter_append, subtree, List.filter_cons, h.kind hq,
          List.cons_append]
        split
        · exact .cons hq (List.rel_append hbelow (ihl hl.2))
        · exact List.rel_append hbelow (ihl hl.2)
    unfold Place.descendantsOf
    rw [descendants_eq, descendants_eq]
    cases h.below hp with
    | same hparts => exact hforest (List.Subset.refl _) hparts
    | @boxed block inner front run rest front' rest' _ hplain hparts hparts' hfront hrun hrest =>
      have hsubtree : (block.subtree.filter fun q => wanted q.kind) =
          (inner.children.flatMap subtree).filter fun q => wanted q.kind := by
        rw [subtree, descendants_eq, hplain.parts, List.flatMap_cons, subtree, descendants_eq inner]
        simp [hplain.kind, hplain.inner_kind, hbody, hblock]
      rw [hparts] at hforest
      rw [hparts, hparts', List.flatMap_append, List.flatMap_append, List.flatMap_append,
        List.flatMap_cons, List.filter_append, List.filter_append, List.filter_append,
        List.filter_append, hsubtree]
      refine List.rel_append (hforest (by simp) hfront) ?_
      refine List.rel_append (hforest ?_ hrun) (hforest ?_ hrest)
      · intro q hq
        simp [hq]
      · intro q hq
        simp [hq]

/-! ### Texts and parts -/

/-- Paired names have the same key, as their texts differ in the case of letters at most. -/
theorem nameKey (hp : R p p') : t.nameKey p = t'.nameKey p' := by
  rw [Tree.nameKey, Tree.nameKey, (h.letters hp).nameKey]

/-- Paired targets of assignments have the same key. -/
theorem targetKey (hp : R p p') : t.targetKey p = t'.targetKey p' := by
  rw [Tree.targetKey, Tree.targetKey, (h.letters hp).targetKey]

/-- The initial values in paired declarations are paired, or there is none in either. -/
theorem initializer? (hp : R p p') : Option.Rel R p.initializer? p'.initializer? := by
  unfold Place.initializer?
  rw [← h.kind hp]
  split
  case isTrue hkind =>
    have hnot : p.kind ≠ .body := by
      intro hbody
      simp [hbody, Kind.isDeclaration, Kind.isParameter] at hkind
    refine rel_head? (rel_tail (rel_dropWhile ?_ (h.children hp hnot)))
    intro q q' hq
    rw [h.kind hq]
  case isFalse => exact .none

/-- An assignment has its target and its value paired, each with its counterpart. -/
theorem assignment? (hp : R p p') :
    Option.Rel (fun parts parts' => R parts.1 parts'.1 ∧ R parts.2 parts'.2)
      p.assignment? p'.assignment? := by
  unfold Place.assignment?
  rw [← h.kind hp]
  split
  case isTrue hkind =>
    have hparts := h.children hp (by simp [hkind])
    revert hparts
    generalize p.children = parts
    generalize p'.children = parts'
    intro hparts
    cases hparts with
    | nil => exact .none
    | cons htarget hrest =>
      cases hrest with
      | nil => exact .none
      | cons hvalue hrest =>
        cases hrest with
        | nil => exact .some ⟨htarget, hvalue⟩
        | cons => exact .none
  case isFalse => exact .none

/-- The variables and constants that a section declares are paired. -/
theorem declarations (hp : R p p') (hkind : p.kind ≠ .body) :
    Forall₂ (fun d d' => d.kind.isDeclaration = true ∧ R d d')
      (p.children.filter (·.kind.isDeclaration)) (p'.children.filter (·.kind.isDeclaration)) := by
  refine (List.forall₂_and_left _ _).2 ⟨fun d hd => (List.mem_filter.1 hd).2, ?_⟩
  refine List.rel_filter ?_ (h.children hp hkind)
  intro d d' hd
  simp only [h.kind hd]

/-- A key is declared at paired places, or in neither of two paired sections. -/
theorem declaration? (hp : R p p') (hkind : p.kind ≠ .body) (key : String) :
    Option.Rel R (t.declaration? p key) (t'.declaration? p' key) := by
  refine rel_imp (fun _ _ hd => hd.2) (rel_find? ?_ (h.declarations hp hkind))
  intro d d' hd
  have hnot : d.kind ≠ .body := by
    intro hbody
    simp [hbody, Kind.isDeclaration] at hd
  exact optionAny_eq_of_rel (fun _ _ hname => by rw [h.nameKey hname]) (h.child? hd.2 hnot _)

/-! ### Names, their labels and their calls -/

/-- Where the place above is of a kind that neither blocks nor units are part of,
it has a partner. -/
theorem parent? (hp : R p p') (hroutine : p.kind.isRoutine = false) {wanted : Kind}
    (hbody : wanted ≠ .body) (hunit : wanted ≠ .compilationUnit) :
    Option.Rel (fun q q' => q.kind = wanted ∧ R q q')
      (p.parent?.filter (·.kind == wanted)) (p'.parent?.filter (·.kind == wanted)) := by
  cases h.above hp with
  | routine hr => simp [hr] at hroutine
  | outside hout hout' =>
    have hnone {q : Place} (hout : ∀ r ∈ q.ancestors, r.kind = .compilationUnit) :
        q.parent?.filter (·.kind == wanted) = none := by
      unfold Place.parent?
      cases habove : q.above with
      | nil => rfl
      | cons first above =>
        have hkind := hout ⟨first.1, first.2, above⟩ (by simp [ancestors, habove, outward])
        simp [hkind, hunit.symm]
    rw [hnone hout, hnone hout']
    exact .none
  | under hq hpq hpq' =>
    rw [parent?_of_mem_children hpq, parent?_of_mem_children hpq', Option.filter_some,
      Option.filter_some, ← h.kind hq]
    split
    case isTrue hkind =>
      exact .some ⟨by simpa using hkind, hq⟩
    case isFalse => exact .none
  | boxed hq hscope hplain hpq hblock hpq' =>
    have hnot : (Kind.body == wanted) = false := by simpa using hbody.symm
    rw [parent?_of_mem_children hpq, parent?_of_mem_children hpq']
    simp only [Option.filter_some, hscope.1, hplain.inner_kind, hnot]
    exact .none

/-- Paired places have equal indices exactly if their partners do, as no place has two partners. -/
theorem index_beq {q q' : Place} (hp : R p p') (hq : R q q') :
    (p.index == q.index) = (p'.index == q'.index) := by
  rw [Bool.eq_iff_iff, beq_iff_eq, beq_iff_eq]
  constructor
  · intro hindex
    have hsame := Tree.eq_of_index_eq (h.mem hp).1 (h.mem hq).1 hindex
    rw [(h.unique hp hq).1 hsame]
  · intro hindex
    have hsame := Tree.eq_of_index_eq (h.mem hp).2 (h.mem hq).2 hindex
    rw [(h.unique hp hq).2 hsame]

/-- Paired names are labels of arguments together. -/
theorem isArgumentLabel (hp : R p p') (hroutine : p.kind.isRoutine = false) :
    p.isArgumentLabel = p'.isArgumentLabel := by
  rw [isArgumentLabel_eq, isArgumentLabel_eq]
  refine optionAny_eq_of_rel ?_ (h.parent? hp hroutine (by decide) (by decide))
  rintro argument argument' ⟨hkind, hargument⟩
  have hparts := h.children hargument (by simp [hkind])
  rw [hparts.length_eq, optionAny_eq_of_rel (fun _ _ hq => h.index_beq hq hp) (rel_head? hparts)]

/-- The names of a dotted chain are paired in order, and what is no dotted chain is paired with no
dotted chain. -/
theorem nameSegments? (hp : R p p') :
    Option.Rel (Forall₂ R) p.nameSegments? p'.nameSegments? := by
  have hforth {names : List Place} (hchain : p.Chain names) :=
    hchain.partner h.kind (fun hq hkind => h.children hq (by simp [hkind])) hp
  have hback {names' : List Place} (hchain : p'.Chain names') :=
    hchain.partner (R := flip R) (fun hq => (h.kind hq).symm)
      (fun hq hkind => (h.children hq (by simp [h.kind hq, hkind])).flip) hp
  cases hsegments : p.nameSegments? with
  | some names =>
    obtain ⟨names', hchain, hnames⟩ := hforth (nameSegments?_eq_some.1 hsegments)
    rw [nameSegments?_eq_some.2 hchain]
    exact .some hnames
  | none =>
    cases hsegments' : p'.nameSegments? with
    | none => exact .none
    | some names' =>
      obtain ⟨names, hchain, -⟩ := hback (nameSegments?_eq_some.1 hsegments')
      simp [nameSegments?_eq_some.2 hchain] at hsegments

/-- A name is handed to the same call as its partner, by the dotted name of the call. -/
theorem callNameOf (hp : R p p') (hroutine : p.kind.isRoutine = false) :
    t.callNameOf p = t'.callNameOf p' := by
  have hcalled : Option.Rel (Forall₂ R) p.calledSegments? p'.calledSegments? := by
    refine rel_bind ?_ (h.parent? hp hroutine (by decide) (by decide))
    rintro argument argument' ⟨hargument, hrel⟩
    have hparts := h.children hrel (by simp [hargument])
    refine rel_bind ?_ (rel_optionFilter (fun _ _ hq => h.index_beq hq hp) (rel_getLast? hparts))
    intro _ _ _
    refine rel_bind ?_ (h.parent? hrel (by simp [hargument, Kind.isRoutine]) (by decide) (by decide))
    rintro call call' ⟨hcall, hrel⟩
    exact rel_bind (fun _ _ => h.nameSegments?) (rel_head? (h.children hrel (by simp [hcall])))
  rw [Tree.callNameOf_eq, Tree.callNameOf_eq]
  revert hcalled
  generalize p.calledSegments? = called
  generalize p'.calledSegments? = called'
  intro hcalled
  cases hcalled with
  | none => rfl
  | @some segments segments' hsegments =>
    have hkeys : (segments.drop (segments.length - 3)).map t.nameKey =
        (segments'.drop (segments.length - 3)).map t'.nameKey :=
      map_eq_of_rel (fun _ _ => h.nameKey) (List.forall₂_drop (segments.length - 3) hsegments)
    simp only [hsegments.length_eq] at hkeys ⊢
    rw [hkeys]

/-- The names below two paired places are paired in the order of the walk. -/
theorem names (hp : R p p') : Forall₂ (fun q q' => q.kind = .name ∧ R q q')
    (p.descendantsOf (· == .name)) (p'.descendantsOf (· == .name)) := by
  refine (List.forall₂_and_left _ _).2 ⟨?_, h.descendantsOf hp rfl rfl⟩
  intro q hq
  simpa using (mem_descendantsOf.1 hq).2

/-- The names that an expression reads are paired in the order in which they are read. -/
theorem reads (hp : R p p') : Forall₂ R p.reads p'.reads := by
  unfold Place.reads
  rw [← h.kind hp]
  split
  case isTrue hkind =>
    rw [← h.isArgumentLabel hp (by simp [hkind, Kind.isRoutine])]
    split
    · exact .nil
    · exact .cons hp .nil
  case isFalse =>
    refine (List.rel_filter ?_ (h.names hp)).imp fun _ _ hq => hq.2
    intro q q' hq
    simp only [h.isArgumentLabel hq.2 (by simp [hq.1, Kind.isRoutine])]

end Mirror

/-! ### Going up -/

/-- Two chains of scopes have their outermost bodies and their sections of
declarations paired. -/
structure Scope.Alike (R : Place → Place → Prop) (chain chain' : List Scope) : Prop where
  body : Option.Rel R (outermostBody? chain) (outermostBody? chain')
  sections : Forall₂ R (chain.filterMap (·.declarations)) (chain'.filterMap (·.declarations))
  isEmpty : chain.isEmpty = chain'.isEmpty
  nearest : outermostBody? chain = none →
    Option.Rel R (chain.head?.bind (·.declarations)) (chain'.head?.bind (·.declarations))

namespace Scope.Alike

variable {R : Place → Place → Prop} {chain chain' : List Scope} {scope scope' : Scope}

/-- Without any scopes there is nothing to be paired. -/
theorem nil : Scope.Alike R [] [] := ⟨.none, .nil, rfl, fun _ => .none⟩

/-- One more scope on each side keeps chains alike if its body and its declarations are paired. -/
theorem cons (hbody : Option.Rel R scope.body scope'.body)
    (hdeclarations : Option.Rel R scope.declarations scope'.declarations)
    (h : Scope.Alike R chain chain') : Scope.Alike R (scope :: chain) (scope' :: chain') where
  body := by
    rw [outermostBody?_cons, outermostBody?_cons]
    exact rel_orElse h.body fun _ => hbody
  sections := by
    have hsections := h.sections
    revert hdeclarations
    simp only [List.filterMap_cons]
    generalize scope.declarations = first
    generalize scope'.declarations = first'
    intro hfirst
    cases hfirst with
    | none => exact hsections
    | some hfirst => exact .cons hfirst hsections
  isEmpty := rfl
  nearest := fun _ => hdeclarations

/-- A scope without declarations changes nothing where a body stands further
out. -/
theorem box (hdeclarations : scope'.declarations = none) (h : Scope.Alike R chain chain')
    (hsome : (outermostBody? chain).isSome = true) : Scope.Alike R chain (scope' :: chain') where
  body := by
    have hbody := h.body
    rw [outermostBody?_cons]
    revert hbody hsome
    generalize outermostBody? chain = body
    generalize outermostBody? chain' = body'
    intro hsome hbody
    cases hbody with
    | none => simp at hsome
    | some hbody => exact .some hbody
  sections := by
    rw [List.filterMap_cons, hdeclarations]
    exact h.sections
  isEmpty := by
    cases chain with
    | nil => simp [outermostBody?] at hsome
    | cons => rfl
  nearest := by
    intro hnone
    simp [hnone] at hsome

end Scope.Alike

namespace Place

/-- What is found on two ways up is paired: the routine, the scopes, and the
section of declarations that the way leads through. -/
structure Alike (R : Place → Place → Prop) (way way' : List Place) : Prop where
  routine : Option.Rel R (routineAmong? way) (routineAmong? way')
  scopes : Scope.Alike R (scopesAmong way) (scopesAmong way')
  through : Option.Rel R (sectionAmong? way) (sectionAmong? way')

namespace Alike

variable {t t' : Tree} {R : Place → Place → Prop} {way way' : List Place} {p p' block inner : Place}

/-- Outside all units there is nothing to be found: no routine, no scope and no declarations. -/
theorem ofUnits (h : ∀ q ∈ way, q.kind = .compilationUnit)
    (h' : ∀ q ∈ way', q.kind = .compilationUnit) : Alike R way way' := by
  have hnothing {way : List Place} (h : ∀ q ∈ way, q.kind = .compilationUnit) :
      routineAmong? way = none ∧ scopesAmong way = [] ∧ sectionAmong? way = none := by
    induction way with
    | nil => exact ⟨rfl, rfl, rfl⟩
    | cons q way ih =>
      have hkind := h q List.mem_cons_self
      obtain ⟨hroutine, hscopes, hsection⟩ := ih fun r hr => h r (List.mem_cons_of_mem _ hr)
      simp [routineAmong?_cons, scopesAmong_cons, sectionAmong?, hkind, Kind.isRoutine,
        Kind.isContainer, ScopeKind.of?, hroutine, hscopes, hsection]
  obtain ⟨hroutine, hscopes, hsection⟩ := hnothing h
  obtain ⟨hroutine', hscopes', hsection'⟩ := hnothing h'
  refine ⟨?_, ?_, ?_⟩
  · rw [hroutine, hroutine']
    exact .none
  · rw [hscopes, hscopes']
    exact .nil
  · rw [hsection, hsection']
    exact .none

/-- The scopes that paired places open are put in front of chains that are alike. -/
theorem scope_rel (h : Mirror t t' R) (hp : R p p') (hnot : p.kind ≠ .body) (kind : ScopeKind)
    {chain chain' : List Scope} (hchain : Scope.Alike R chain chain') :
    Scope.Alike R (Scope.ofContainer p kind :: chain) (Scope.ofContainer p' kind :: chain') :=
  .cons (h.child? hp hnot (· == .body)) (h.child? hp hnot (· == .declareSection)) hchain

/-- A routine ends both ways up, and what stands above it does not count. -/
theorem ofRoutine (h : Mirror t t' R) (hp : R p p') (hroutine : p.kind.isRoutine = true) :
    Alike R (p :: way) (p' :: way') := by
  have hkind' := h.kind hp
  obtain ⟨kind, hkind, hcontainer, hblock, hnot⟩ : ∃ kind, ScopeKind.of? p.kind = some kind ∧
      p.kind.isContainer = true ∧ p.kind ≠ .anonymousBlock ∧ p.kind ≠ .body := by
    cases hcase : p.kind <;> simp [hcase, Kind.isRoutine] at hroutine <;>
      exact ⟨_, rfl, rfl, by decide, by decide⟩
  refine ⟨?_, ?_, ?_⟩
  · rw [routineAmong?_cons, routineAmong?_cons, ← hkind', if_pos hroutine, if_pos hroutine]
    exact .some hp
  · rw [scopesAmong_cons, scopesAmong_cons, ← hkind', hkind]
    simp only [hroutine, if_true]
    exact scope_rel h hp hnot kind .nil
  · rw [sectionAmong?, sectionAmong?, ← hkind', if_pos hcontainer, if_pos hcontainer]
    simp only [hblock, decide_false, Bool.false_and, Bool.false_eq_true, if_false]
    exact .none

/-- One step up on both ways: a pair of places in front of ways that are alike. -/
theorem cons (h : Mirror t t' R) (hp : R p p') (hway : Alike R way way') :
    Alike R (p :: way) (p' :: way') := by
  have hkind' := h.kind hp
  by_cases hroutine : p.kind.isRoutine = true
  · exact ofRoutine h hp hroutine
  by_cases hblock : p.kind = .anonymousBlock
  · have hblock' : p'.kind = .anonymousBlock := hkind' ▸ hblock
    refine ⟨?_, ?_, ?_⟩
    · simpa [routineAmong?_cons, hblock, hblock', Kind.isRoutine, Kind.isContainer] using hway.routine
    · simp only [scopesAmong_cons, hblock, hblock', ScopeKind.of?, Kind.isRoutine,
        Bool.false_eq_true, if_false]
      exact scope_rel h hp (by simp [hblock]) _ hway.scopes
    · simp only [sectionAmong?, hblock, hblock', Kind.isContainer, if_true, decide_true,
        Bool.true_and, hway.scopes.isEmpty]
      split
      · exact hway.through
      · exact .none
  by_cases hcontainer : p.kind.isContainer = true
  · have hnone : ScopeKind.of? p.kind = none := by
      cases hcase : p.kind <;>
        simp [hcase, Kind.isRoutine, Kind.isContainer] at hroutine hblock hcontainer <;> rfl
    refine ⟨?_, ?_, ?_⟩
    · simp only [routineAmong?_cons, ← hkind', hroutine, hcontainer]
      simp only [hblock, bne_iff_ne, ne_eq, not_false_eq_true, Bool.true_and, if_true,
        Bool.false_eq_true, if_false]
      exact .none
    · simp only [scopesAmong_cons, ← hkind', hnone, hcontainer, if_true]
      exact .nil
    · simp only [sectionAmong?, ← hkind', hcontainer, if_true, hblock, decide_false,
        Bool.false_and, Bool.false_eq_true, if_false]
      exact .none
  · have hnone : ScopeKind.of? p.kind = none := by
      cases hcase : p.kind <;> simp [hcase, Kind.isContainer] at hcontainer <;> rfl
    refine ⟨?_, ?_, ?_⟩
    · simpa [routineAmong?_cons, ← hkind', hroutine, hcontainer] using hway.routine
    · simpa [scopesAmong_cons, ← hkind', hnone, hcontainer] using hway.scopes
    · simp only [sectionAmong?, ← hkind', hcontainer, Bool.false_eq_true, if_false]
      split
      · exact .some hp
      · split
        · exact .none
        · exact hway.through

/-- A block that stands between on one side changes nothing for the body of a
scope. -/
theorem box (hplain : block.IsPlainBlock inner) (hbody : p.kind = .body)
    (hsome : (outermostBody? (scopesAmong (p :: way))).isSome = true)
    (hway : Alike R (p :: way) way') : Alike R (p :: way) (inner :: block :: way') := by
  refine ⟨?_, ?_, ?_⟩
  · have hroutine := hway.routine
    simpa [routineAmong?_cons inner, routineAmong?_cons block, hplain.inner_kind, hplain.kind,
      Kind.isRoutine, Kind.isContainer] using hroutine
  · have hscopes : scopesAmong (inner :: block :: way') =
        Scope.ofContainer block .anonymousBlock :: scopesAmong way' := by
      simp [scopesAmong_cons, hplain.inner_kind, hplain.kind, ScopeKind.of?, Kind.isContainer,
        Kind.isRoutine]
    rw [hscopes]
    refine hway.scopes.box ?_ hsome
    simp [Scope.ofContainer, child?, hplain.parts, hplain.inner_kind]
  · simp only [sectionAmong?, hbody, hplain.inner_kind]
    exact .none

end Alike

/-- Around the body of a scope there is an outermost body. -/
theorem IsScopeBody.isSome {p : Place} (h : p.IsScopeBody) :
    (outermostBody? (scopesAmong (p :: p.ancestors))).isSome = true := by
  obtain ⟨hkind, container, hmem, hscope⟩ := h
  obtain ⟨kind, hof⟩ := Option.isSome_iff_exists.1 hscope
  have hbody : (container.child? (· == .body)).isSome = true := by
    rw [child?, List.find?_isSome]
    exact ⟨p, hmem, by simp [hkind]⟩
  have hchain : ∃ rest, scopesAmong (p :: p.ancestors) = Scope.ofContainer container kind :: rest := by
    rw [ancestors_of_mem_children hmem, scopesAmong_cons, hkind, scopesAmong_cons container, hof]
    exact ⟨_, rfl⟩
  obtain ⟨rest, hchain⟩ := hchain
  rw [hchain, outermostBody?_cons, Option.orElse_eq_orElse, Option.orElse_eq_or, Option.isSome_or]
  simp [Scope.ofContainer, hbody]

end Place

namespace Mirror

variable {t t' : Tree} {R : Place → Place → Prop} (h : Mirror t t' R) {p p' : Place}

include h

/-- **What is found on the way up** from two paired places is paired, unless they
are routines, for which nothing counts that stands above. -/
theorem around (hp : R p p') (hroutine : p.kind.isRoutine = false) :
    Alike R p.ancestors p'.ancestors := by
  induction hindex : p.index using Nat.strongRecOn generalizing p p' with
  | ind index ih =>
    have hway {q q' : Place} (hq : R q q') (hpq : p ∈ q.children) :
        Alike R (q :: q.ancestors) (q' :: q'.ancestors) := by
      by_cases hq' : q.kind.isRoutine = true
      · exact .ofRoutine h hq hq'
      · have hless := (index_of_mem_children hpq).1
        exact .cons h hq (ih q.index (hindex ▸ hless) hq (by simpa using hq') rfl)
    cases h.above hp with
    | routine hr => simp [hr] at hroutine
    | outside hout hout' => exact .ofUnits hout hout'
    | under hq hpq hpq' =>
      rw [ancestors_of_mem_children hpq, ancestors_of_mem_children hpq']
      exact hway hq hpq
    | @boxed q q' block inner hq hscope hplain hpq hblock hpq' =>
      have hinner : inner ∈ block.children := by simp [hplain.parts]
      rw [ancestors_of_mem_children hpq, ancestors_of_mem_children hpq',
        ancestors_of_mem_children hinner, ancestors_of_mem_children hblock]
      exact .box hplain hscope.1 hscope.isSome (hway hq hpq)

end Mirror

end PlsqlAudit
