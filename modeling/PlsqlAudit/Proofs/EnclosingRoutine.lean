import PlsqlAudit.Proofs.NodeLayout
import PlsqlAudit.Proofs.ScopeWalks

/-!
# The routine around a statement

Whoever goes up from a statement comes to a body first (`Tree.InBody`), and never to a
section of declarations without having left a routine on the way: declarations hold
expressions and routines, and no statements.  A block is a statement too.  So a statement
stands in the body of the last scope of its chain, and that is the body of the routine
whose parameters it sees.  It is the outermost one for every name in the statement, and it
is there that the name may be asserted.

A name in the initial value of a declaration has the scopes of the section that it
stands in, and those are the last of the scopes of every place that sees the
declaration.
-/

namespace PlsqlAudit

namespace Place

variable {p : Place}

/-! ### Going up -/

theorem ancestors_eq_nil (h : p.parent? = none) : p.ancestors = [] := by
  cases habove : p.above with
  | nil => rw [ancestors, habove, outward]
  | cons first above => simp [parent?, habove] at h

/-- What is neither a container nor a part of one is passed on the way up. -/
structure Passed (p : Place) : Prop where
  container : p.kind.isContainer = false
  body : p.kind ≠ .body
  declareSection : p.kind ≠ .declareSection

theorem sectionAmong?_append {between : List Place} (above : List Place)
    (h : ∀ q ∈ between, q.Passed) : sectionAmong? (between ++ above) = sectionAmong? above := by
  induction between with
  | nil => rfl
  | cons q between ih =>
    obtain ⟨hcontainer, hbody, hsection⟩ := h q List.mem_cons_self
    rw [List.cons_append, sectionAmong?, hcontainer, if_neg (by simp), if_neg hsection, if_neg hbody]
    exact ih fun r hr => h r (List.mem_cons_of_mem _ hr)

end Place

/-! ### What statements stand in -/

namespace Kind

/-- What is put into a body: statements, and handlers, which hold statements. -/
def isStep (kind : Kind) : Bool := kind.isStatement || kind == .exceptionHandler

/-- What is no part of a declaration or an expression. -/
structure IsApart (kind : Kind) : Prop where
  classes : (kind.isParameter || kind.isDataType || kind.isOperand || kind.isDeclared ||
    kind.isMember || kind.isClause) = false
  definingName : kind ≠ .definingName
  declareSection : kind ≠ .declareSection

theorem isApart_of_isStep {kind : Kind} (h : kind.isStep = true) : kind.IsApart := by
  cases kind <;> simp [isStep, isStatement] at h <;> exact ⟨rfl, by simp, by simp⟩

theorem isApart_body : IsApart .body := ⟨rfl, by simp, by simp⟩

/-- What may hold a body, or something that is put into one. -/
def isHolder (kind : Kind) : Bool :=
  kind.isContainer || kind == .body || kind == .compilationUnit || kind == .exceptionHandler ||
    kind == .ifStatement || kind == .caseStatement || kind == .loopStatement

/-- Everything else has parts of declarations and expressions only. -/
theorem Layout.isHolder {kind part : Kind} {parts : List Kind} (h : kind.Layout parts)
    (hpart : part ∈ parts) (hapart : part.IsApart) : kind.isHolder = true := by
  by_contra hother
  obtain ⟨hclass, hname, hsection⟩ := hapart
  simp only [Bool.or_eq_false_iff] at hclass
  obtain ⟨⟨⟨⟨⟨hparameter, htype⟩, hoperand⟩, hdeclared⟩, hmember⟩, hclause⟩ := hclass
  have hexpression : part.isExpression = false := by
    rw [Kind.isOperand, Bool.or_eq_false_iff] at hoperand
    exact hoperand.1
  have husing : part ≠ .usingClause := by
    intro husing
    simp [husing, isClause] at hclause
  have hinside : kind.isOperand = false := by
    rw [Bool.eq_false_iff]
    intro hinside
    rw [h.isOperand hinside hpart] at hoperand
    cases hoperand
  cases kind <;> simp [Kind.isHolder, isContainer] at hother <;>
    simp [Kind.isOperand, isExpression] at hinside <;>
    simp only [Layout, DeclarationLayout, AtMostOne] at h <;> grind

/-- The body of a routine, if it has one, comes last. -/
theorem RoutineLayout.eq_append {parts : List Kind} (h : RoutineLayout parts) :
    ∃ front last, parts = front ++ last ∧ (last = [] ∨ last = [.body]) ∧
      ∀ kind ∈ front, ¬ kind.IsApart := by
  obtain ⟨parameters, result, inner, rfl, hparameters, ⟨-, hresult⟩, hinner⟩ := h
  have hsignature : ∀ kind ∈ .definingName :: (parameters ++ result), ¬ kind.IsApart := by
    intro kind hkind hapart
    have hclass := hapart.classes
    simp only [Bool.or_eq_false_iff] at hclass
    grind [IsApart]
  rcases hinner with rfl | rfl
  · exact ⟨.definingName :: (parameters ++ result), [], by simp, .inl rfl, hsignature⟩
  · refine ⟨.definingName :: (parameters ++ result) ++ [.declareSection], [.body], by simp,
      .inr rfl, ?_⟩
    intro kind hkind hapart
    rcases List.mem_append.1 hkind with hkind | hkind
    · exact hsignature kind hkind hapart
    · exact hapart.declareSection (List.mem_singleton.1 hkind)

/-- The body of what opens a scope, if it has one, comes last. -/
theorem Layout.eq_append {kind : Kind} {parts : List Kind} (h : kind.Layout parts)
    (hopens : (ScopeKind.of? kind).isSome = true) :
    ∃ front last, parts = front ++ last ∧ (last = [] ∨ last = [.body]) ∧
      ∀ kind ∈ front, ¬ kind.IsApart := by
  by_cases hroutine : kind.isRoutine = true
  · exact ((layout_of_isRoutine hroutine parts).1 h).eq_append
  · obtain rfl : kind = .anonymousBlock := by
      cases kind <;> simp [ScopeKind.of?, isRoutine] at hopens hroutine ⊢
    obtain ⟨declarations, rfl, -, hdeclarations⟩ := h
    refine ⟨declarations, [.body], rfl, .inr rfl, ?_⟩
    intro kind hkind hapart
    exact hapart.declareSection (by simpa using hdeclarations kind hkind)

/-- A statement stands in a body, in another statement, or in what stands outside every
routine. -/
theorem Layout.holder_of_isStep {kind part : Kind} {parts : List Kind} (h : kind.Layout parts)
    (hpart : part ∈ parts) (hstep : part.isStep = true) :
    kind = .body ∨ (kind.isStep = true ∧ kind.isContainer = false) ∨ kind = .compilationUnit ∨
      kind = .trigger := by
  have hapart := isApart_of_isStep hstep
  have hbody : part ≠ .body := by
    intro hbody
    simp [hbody, isStep, isStatement] at hstep
  have hholder := h.isHolder hpart hapart
  by_cases hroutine : kind.isRoutine = true
  · have hlayout := (layout_of_isRoutine hroutine parts).1 h
    obtain ⟨front, last, rfl, hlast, hfront⟩ := hlayout.eq_append
    rcases List.mem_append.1 hpart with hpart | hpart
    · exact absurd hapart (hfront part hpart)
    · rcases hlast with rfl | rfl <;> simp [hbody] at hpart
  · obtain ⟨hclass, hname, hsection⟩ := hapart
    simp only [Bool.or_eq_false_iff] at hclass
    cases kind <;> simp [Kind.isHolder, isContainer] at hholder <;>
      simp [isRoutine] at hroutine <;> simp only [Layout, AtMostOne] at h <;>
      grind [isStep, isStatement, isContainer]

/-- A body stands in a routine, in a block or in a package. -/
theorem Layout.holder_of_body {kind : Kind} {parts : List Kind} (h : kind.Layout parts)
    (hpart : .body ∈ parts) :
    kind.isRoutine = true ∨ kind = .anonymousBlock ∨ kind = .packageSpec ∨ kind = .packageBody := by
  have hholder := h.isHolder hpart isApart_body
  cases kind <;> simp [Kind.isHolder, isContainer] at hholder <;>
    simp only [Layout, AtMostOne] at h <;>
    grind [isRoutine, isUnit, isMember, isStatement, isBranchPart, isExpression]

/-- A program is a part of nothing. -/
theorem Layout.ne_compilationUnit {kind part : Kind} {parts : List Kind} (h : kind.Layout parts)
    (hpart : part ∈ parts) : part ≠ .compilationUnit := by
  rintro rfl
  by_cases hkind : kind = .compilationUnit
  · subst hkind
    exact absurd (h _ hpart) (by decide)
  · exact absurd (h.not_isOutermost hkind hpart) (by decide)

end Kind

theorem Place.passed_of_isStep {p : Place} (h : p.kind.isStep = true)
    (hopen : p.kind.isContainer = false) : p.Passed := by
  refine ⟨hopen, ?_, ?_⟩
  · intro hbody
    simp [hbody, Kind.isStep, Kind.isStatement] at h
  · intro hsection
    simp [hsection, Kind.isStep, Kind.isStatement] at h

namespace Tree

variable {t : Tree} {p q s c d value declarations routine : Place}

/-- What opens a scope has one body. -/
theorem LaidOut.child?_body (h : t.LaidOut) (hmem : routine ∈ t.places)
    (hopens : (ScopeKind.of? routine.kind).isSome = true) (hc : c ∈ routine.children)
    (hbody : c.kind = .body) : routine.child? (· == .body) = some c := by
  obtain ⟨frontKinds, lastKinds, hparts, hlast, hfront⟩ := (h routine hmem).eq_append hopens
  obtain ⟨front, last, hchildren, rfl, rfl⟩ := List.map_eq_append_iff.1 hparts
  have hnone : ∀ q ∈ front, q.kind ≠ .body := by
    intro q hq hqBody
    exact hfront q.kind (List.mem_map_of_mem hq) (hqBody ▸ Kind.isApart_body)
  rw [hchildren] at hc
  have hcLast : c ∈ last := (List.mem_append.1 hc).resolve_left fun hq => hnone c hq hbody
  have hsingle : last = [c] := by
    rcases hlast with hlast | hlast
    · rw [List.map_eq_nil_iff.1 hlast] at hcLast
      cases hcLast
    · obtain ⟨only, rfl, -⟩ := List.map_eq_singleton_iff.1 hlast
      rw [List.mem_singleton.1 hcLast]
  have hskip : front.find? (fun q => q.kind == .body) = none := by simpa using hnone
  rw [Place.child?, hchildren, List.find?_append, hskip, hsingle]
  simp [hbody]

/-- Nothing stands above a program. -/
theorem LaidOut.ancestors_eq_nil (h : t.LaidOut) (hp : p ∈ t.places)
    (hkind : p.kind = .compilationUnit) : p.ancestors = [] := by
  cases hparent : p.parent? with
  | none => exact Place.ancestors_eq_nil hparent
  | some q =>
    obtain ⟨hq, hpq⟩ := parent?_spec hp hparent
    exact absurd hkind ((h q hq).ne_compilationUnit (List.mem_map_of_mem hpq))

/-- Whoever goes up from `s` comes to `body` first, which belongs to `c`. -/
structure InBody (t : Tree) (s body c : Place) : Prop where
  holder_mem : c ∈ t.places
  body_mem : body ∈ c.children
  kind : body.kind = .body
  below : s ∈ body.descendants
  way : ∃ between, s.ancestors = between ++ body :: c :: c.ancestors ∧ ∀ q ∈ between, q.Passed

/-- A statement that is a part of another stands in the same body. -/
theorem InBody.of_mem_children {body : Place} (h : t.InBody p body c) (hpassed : p.Passed)
    (hs : s ∈ p.children) : t.InBody s body c := by
  obtain ⟨between, hway, hbetween⟩ := h.way
  refine ⟨h.holder_mem, h.body_mem, h.kind, Place.children_subset_descendants h.below hs,
    p :: between, ?_, ?_⟩
  · rw [Place.ancestors_of_mem_children hs, hway, List.cons_append]
  · rw [List.forall_mem_cons]
    exact ⟨hpassed, hbetween⟩

theorem InBody.sectionAmong?_eq {body : Place} (h : t.InBody s body c) :
    Place.sectionAmong? s.ancestors = none := by
  obtain ⟨between, hway, hbetween⟩ := h.way
  rw [hway, Place.sectionAmong?_append _ hbetween, Place.sectionAmong?]
  simp [h.kind, Kind.isContainer]

/-- **The way up from a statement** leads to a body, if it leads to a scope at all, and
past no section of declarations. -/
theorem LaidOut.exists_inBody (h : t.LaidOut) (hs : s ∈ t.places) (hstep : s.kind.isStep = true) :
    s.scopes = [] ∧ Place.sectionAmong? s.ancestors = none ∨ ∃ body c, t.InBody s body c := by
  induction hindex : s.index using Nat.strongRecOn generalizing s with
  | ind index ih =>
    cases hparent : s.parent? with
    | none =>
      simp [Place.scopes, Place.scopesAmong, Place.sectionAmong?, Place.ancestors_eq_nil hparent]
    | some holder =>
      obtain ⟨hholder, hsHolder⟩ := parent?_spec hs hparent
      have hancestors := Place.ancestors_of_mem_children hsHolder
      rcases (h holder hholder).holder_of_isStep (List.mem_map_of_mem hsHolder) hstep with
        hkind | ⟨hkind, hopen⟩ | hkind | hkind
      · cases houter : holder.parent? with
        | none =>
          simp [Place.scopes, Place.scopesAmong, Place.sectionAmong?, hancestors, hkind,
            Kind.isContainer, Place.ancestors_eq_nil houter]
        | some c =>
          obtain ⟨hc, hholderC⟩ := parent?_spec hholder houter
          refine .inr ⟨holder, c, hc, hholderC, hkind,
            Place.mem_descendants_of_mem_children hsHolder, [], ?_, by simp⟩
          rw [hancestors, Place.ancestors_of_mem_children hholderC, List.nil_append]
      · have hpassed := Place.passed_of_isStep hkind hopen
        have hless := (Place.index_of_mem_children hsHolder).1
        rcases ih holder.index (hindex ▸ hless) hholder hkind rfl with ⟨hscopes, hsection⟩ | hbody
        · refine .inl ⟨?_, ?_⟩
          · rw [Place.scopes, hancestors, ← hscopes]
            exact (Place.among_append holder.ancestors (List.forall_mem_singleton.2 hopen)).1
          · rw [hancestors, ← hsection]
            exact Place.sectionAmong?_append holder.ancestors (List.forall_mem_singleton.2 hpassed)
        · obtain ⟨body, c, hbody⟩ := hbody
          exact .inr ⟨body, c, hbody.of_mem_children hpassed hsHolder⟩
      · simp [Place.scopes, Place.scopesAmong, Place.sectionAmong?, hancestors, hkind,
          Kind.isContainer, h.ancestors_eq_nil hholder hkind]
      · simp [Place.scopes, Place.scopesAmong, Place.sectionAmong?, hancestors, hkind,
          Kind.isContainer, ScopeKind.of?]

/-- A statement stands in the body of the nearest scope around it. -/
theorem LaidOut.exists_body_of_nearest (h : t.LaidOut) (hs : s ∈ t.places)
    (hstep : s.kind.isStep = true) {scope : Scope} (hnear : s.Nearest scope) :
    ∃ body, scope.body = some body ∧ s ∈ body.descendants := by
  rcases h.exists_inBody hs hstep with ⟨hnone, -⟩ | ⟨body, c, hbody⟩
  · simp [hnear.scopes_eq] at hnone
  · have hholder : c.kind.isContainer = true := by
      have hpart : .body ∈ c.children.map Place.kind :=
        hbody.kind ▸ List.mem_map_of_mem hbody.body_mem
      rcases (h c hbody.holder_mem).holder_of_body hpart with hkind | hkind | hkind | hkind
      · cases hcase : c.kind <;> simp [hcase, Kind.isRoutine] at hkind <;> rfl
      · rw [hkind]; rfl
      · rw [hkind]; rfl
      · rw [hkind]; rfl
    have hcontainer : scope.container = c := by
      obtain ⟨between, hway, hbetween⟩ := hbody.way
      have hskip : between.filter (·.kind.isContainer) = [] := by
        simpa using fun q hq => (hbetween q hq).container
      have hfirst := hnear.filter_ancestors
      rw [hway, List.filter_append, hskip, List.nil_append,
        List.filter_cons_of_neg (by simp [hbody.kind, Kind.isContainer]),
        List.filter_cons_of_pos (by simp [hholder])] at hfirst
      exact (List.cons.inj hfirst).1.symm
    refine ⟨body, ?_, hbody.below⟩
    have hopens : (ScopeKind.of? c.kind).isSome = true := by rw [← hcontainer, hnear.opens]; rfl
    rw [hnear.eq_ofContainer, hcontainer]
    exact h.child?_body hbody.holder_mem hopens hbody.body_mem hbody.kind

/-- **A statement stands in the outermost body of its chain**, which is the body of the
last scope. -/
theorem LaidOut.exists_outermost (h : t.LaidOut) (hs : s ∈ t.places)
    (hstep : s.kind.isStep = true) {last : Scope} (hlast : s.scopes.getLast? = some last) :
    ∃ body, last.body = some body ∧ s ∈ body.descendants := by
  induction s using Place.induction_scopes with
  | outside s hscopes hroutine => simp [hscopes] at hlast
  | routine s scope hnear hsignature hscopes hroutine =>
    obtain rfl : scope = last := by simpa [hscopes] using hlast
    exact h.exists_body_of_nearest hs hstep hnear
  | block s scope hnear hblock hscopes hroutine ih =>
    by_cases hnil : scope.container.scopes = []
    · obtain rfl : scope = last := by simpa [hscopes, hnil] using hlast
      exact h.exists_body_of_nearest hs hstep hnear
    · rw [hscopes, List.getLast?_cons_of_ne_nil hnil] at hlast
      have hkind : scope.container.kind = .anonymousBlock :=
        ScopeKind.of?_eq_anonymousBlock.1 (hblock ▸ hnear.opens)
      obtain ⟨hcontainer, hbelow⟩ := ancestors_spec hs hnear.mem_ancestors
      obtain ⟨body, hbody, hblockMem⟩ := ih hcontainer (by rw [hkind]; rfl) hlast
      exact ⟨body, hbody, Place.descendants_subset hblockMem hbelow⟩

/-- **A statement stands in the body of the routine around it**, and on the way up to
that body there is no section of declarations. -/
theorem LaidOut.exists_body (h : t.LaidOut) (hs : s ∈ t.places) (hstep : s.kind.isStep = true) :
    Place.sectionAmong? s.ancestors = none ∧ ∀ routine, s.routine? = some routine →
      ∃ body, routine.child? (· == .body) = some body ∧ s ∈ body.descendants := by
  constructor
  · rcases h.exists_inBody hs hstep with ⟨-, hsection⟩ | ⟨body, c, hbody⟩
    · exact hsection
    · exact hbody.sectionAmong?_eq
  · intro routine hroutine
    obtain ⟨last, hlast, rfl, -⟩ := Place.routine?_eq_some.1 hroutine
    obtain ⟨body, hbody, hmem⟩ := h.exists_outermost hs hstep hlast
    rw [(Place.opens_of_mem_scopes (List.mem_of_getLast? hlast)).1] at hbody
    exact ⟨body, hbody, hmem⟩

/-- An expression is passed on the way up. -/
theorem LaidOut.passed_of_operand (h : t.LaidOut) (hc : c ∈ t.places)
    (hoperand : c.kind.isOperand = true) (hp : p ∈ c.subtree) : p.Passed := by
  have hkind : p.kind.isOperand = true := by
    rcases Place.mem_subtree.1 hp with rfl | hp
    · exact hoperand
    · exact h.isOperand hc hoperand hp
  refine ⟨Kind.not_isContainer_of_isOperand hkind, ?_, ?_⟩
  · intro hbody
    simp [hbody, Kind.isOperand, Kind.isExpression] at hkind
  · intro hsection
    simp [hsection, Kind.isOperand, Kind.isExpression] at hkind

/-- From a name in an expression the way up leads to what the expression is a part
of. -/
theorem LaidOut.ancestors_of_operand (h : t.LaidOut) (hs : s ∈ t.places) (hc : c ∈ s.children)
    (hoperand : c.kind.isOperand = true) (hp : p ∈ c.subtree) :
    ∃ between, p.ancestors = between ++ s :: s.ancestors ∧ ∀ q ∈ between, q.Passed := by
  have hpassed {q : Place} (hq : q ∈ c.subtree) : q.Passed :=
    h.passed_of_operand (children_subset_places hs hc) hoperand hq
  rcases Place.mem_subtree.1 hp with rfl | hp
  · exact ⟨[], Place.ancestors_of_mem_children hc, by simp⟩
  · obtain ⟨between, hancestors, hbetween⟩ := Place.ancestors_eq_of_mem hp
    refine ⟨between ++ [c], ?_, ?_⟩
    · rw [hancestors, Place.ancestors_of_mem_children hc, List.append_assoc,
        List.singleton_append]
    · intro q hq
      rcases List.mem_append.1 hq with hq | hq
      · exact hpassed (Place.mem_subtree.2 (.inr (hbetween q hq).1))
      · rw [List.mem_singleton.1 hq]
        exact hpassed (Place.mem_subtree.2 (.inl rfl))

/-- **A name in a statement is asserted in the body of its routine.** -/
theorem LaidOut.assertionRegion?_of_operand (h : t.LaidOut) (hs : s ∈ t.places)
    (hstep : s.kind.isStep = true) (hopen : s.kind.isContainer = false) (hc : c ∈ s.children)
    (hoperand : c.kind.isOperand = true) (hp : p ∈ c.subtree)
    (hroutine : p.routine? = some routine) :
    ∃ body, routine.child? (· == .body) = some body ∧ p ∈ body.descendants ∧
      p.assertionRegion? = some body := by
  obtain ⟨between, hancestors, hbetween⟩ := h.ancestors_of_operand hs hc hoperand hp
  have hway : p.ancestors = (between ++ [s]) ++ s.ancestors := by
    rw [hancestors, List.append_assoc, List.singleton_append]
  have hpassed : ∀ q ∈ between ++ [s], q.Passed := by
    intro q hq
    rcases List.mem_append.1 hq with hq | hq
    · exact hbetween q hq
    · rw [List.mem_singleton.1 hq]
      exact Place.passed_of_isStep hstep hopen
  obtain ⟨hsection, hbody⟩ := h.exists_body hs hstep
  have hsame : s.routine? = some routine := by
    rw [← hroutine, Place.routine?, Place.routine?, hway,
      (Place.among_append s.ancestors fun q hq => (hpassed q hq).container).2]
  obtain ⟨body, hchild, hmem⟩ := hbody routine hsame
  have hpMem : p ∈ t.places := subtree_subset_places (children_subset_places hs hc) hp
  have hpBelow : p ∈ s.descendants := Place.mem_descendants.2 ⟨c, hc, hp⟩
  refine ⟨body, hchild, Place.descendants_subset hmem hpBelow, ?_⟩
  have houtermost := Place.outermostBody?_of_routine? hroutine hchild
  have hscopes : p.scopes.isEmpty = false := by
    rw [List.isEmpty_eq_false_iff]
    intro hnil
    simp [hnil, outermostBody?] at houtermost
  rw [assertionRegion?_eq hpMem, hscopes, if_neg (by simp), hway,
    Place.sectionAmong?_append s.ancestors hpassed, hsection, houtermost]
  rfl

/-! ### What initial values stand in -/

end Tree

end PlsqlAudit
