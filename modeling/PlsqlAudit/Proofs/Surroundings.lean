import PlsqlAudit.Flow.Assertion
import PlsqlAudit.Proofs.Numbering
import PlsqlAudit.Proofs.Routines

/-!
# What stands around a name

The region in which a name is asserted is found by counting up to the outermost
scope of its chain.  Here it is described without numbers, by one walk up that
asks of each place only what kind of place it is (`Place.sectionAmong?`).  The
label of an argument is described by its place among its siblings in the same
way.
-/

namespace PlsqlAudit

/-- A filter in front of a step that fails on what is filtered out. -/
theorem bind_eq_bind_filter {α β : Type} {x : Option α} {wanted : α → Bool} {f g : α → Option β}
    (hnot : ∀ a, wanted a = false → f a = none) (hsame : ∀ a, wanted a = true → f a = g a) :
    x.bind f = (x.filter wanted).bind g := by
  cases x with
  | none => rfl
  | some a =>
    rw [Option.filter_some]
    cases hwanted : wanted a with
    | true => exact hsame a hwanted
    | false => exact hnot a hwanted

theorem outermostBody?_cons (scope : Scope) (chain : List Scope) :
    outermostBody? (scope :: chain) = (outermostBody? chain <|> scope.body) := by
  rw [outermostBody?, List.reverse_cons, List.findSome?_append, Option.orElse_eq_orElse,
    Option.orElse_eq_or]
  cases hbody : scope.body <;> simp [outermostBody?, hbody]

namespace Place

variable {p q : Place} {above : List Place}

/-- The section of declarations among `above` that is met before any body, and
not outside the last scope of the chain. -/
def sectionAmong? : List Place → Option Place
  | [] => none
  | p :: above =>
    if p.kind.isContainer then
      if p.kind = .anonymousBlock && !(scopesAmong above).isEmpty then sectionAmong? above else none
    else if p.kind = .declareSection then some p
    else if p.kind = .body then none
    else sectionAmong? above

/-- The numbers of places fall on the way up, so that the places in front of the
last container are all but that one and those outside it. -/
theorem sectionAmong?_eq {outer : Scope} (hfall : above.Pairwise fun q r => r.index < q.index)
    (hlast : (scopesAmong above).getLast? = some outer) :
    ((above.takeWhile fun p => p.index != outer.container.index).find?
        fun p => p.kind == .body || p.kind == .declareSection).filter
      (fun p => p.kind == .declareSection) = sectionAmong? above := by
  induction above with
  | nil => simp [scopesAmong] at hlast
  | cons p above ih =>
    obtain ⟨hbelow, hfall⟩ := List.pairwise_cons.1 hfall
    have hfurther (hlast : (scopesAmong above).getLast? = some outer) :
        (p :: above).takeWhile (fun p => p.index != outer.container.index) =
          p :: above.takeWhile (fun p => p.index != outer.container.index) := by
      obtain ⟨container, hmem, kind, rfl⟩ := mem_scopesAmong (List.mem_of_getLast? hlast)
      have hless := hbelow container hmem
      rw [List.takeWhile_cons, if_pos (by simpa [Scope.ofContainer] using Nat.ne_of_gt hless)]
    rw [scopesAmong] at hlast
    rw [sectionAmong?]
    by_cases hcontainer : p.kind.isContainer = true
    · rw [if_pos hcontainer] at hlast ⊢
      cases hkind : ScopeKind.of? p.kind with
      | none => simp [hkind] at hlast
      | some kind =>
        rw [hkind] at hlast
        dsimp only at hlast
        by_cases hmore : (p.kind = .anonymousBlock && !(scopesAmong above).isEmpty) = true
        · obtain ⟨hblock, hnonempty⟩ := Bool.and_eq_true_iff.1 hmore
          rw [decide_eq_true_iff] at hblock
          have hchain : scopesAmong above ≠ [] := by simpa using hnonempty
          obtain rfl : kind = .anonymousBlock := by
            rw [hblock] at hkind
            exact (Option.some.inj hkind).symm
          rw [if_neg (by decide), List.getLast?_cons_of_ne_nil hchain] at hlast
          rw [if_pos hmore, hfurther hlast, List.find?_cons_of_neg
            (by simp [hblock])]
          exact ih hfall hlast
        · have houter : outer = Scope.ofContainer p kind := by
            cases hsignature : kind.hasSignature with
            | true => simpa [hsignature, eq_comm] using hlast
            | false =>
              have hblock : p.kind = .anonymousBlock := by
                cases hcase : p.kind <;> rw [hcase] at hkind <;> simp [ScopeKind.of?] at hkind <;>
                  subst hkind <;> simp [ScopeKind.hasSignature] at hsignature ⊢
              have hempty : scopesAmong above = [] := by simpa [hblock] using hmore
              simpa [hsignature, hempty, eq_comm] using hlast
          rw [if_neg hmore, houter, List.takeWhile_cons_of_neg (by simp [Scope.ofContainer])]
          rfl
    · rw [if_neg hcontainer] at hlast ⊢
      rw [hfurther hlast]
      by_cases hsection : p.kind = .declareSection
      · simp [hsection]
      · by_cases hbody : p.kind = .body
        · simp [hbody]
        · rw [List.find?_cons_of_neg (by simp [hsection, hbody]), if_neg hsection, if_neg hbody]
          exact ih hfall hlast

/-- The label of an argument is the first of two parts of it. -/
theorem isArgumentLabel_eq (p : Place) : p.isArgumentLabel =
    (p.parent?.filter (·.kind == .argument)).any fun argument =>
      argument.children.length == 2 && argument.children.head?.any (·.index == p.index) := by
  unfold isArgumentLabel
  cases hparent : p.parent? with
  | none => rfl
  | some argument =>
    by_cases hkind : argument.kind = .argument
    · have hlength : argument.children.length = argument.node.children.length := by
        rw [← argument.map_node_children, List.length_map]
      simp only [Option.filter_some, hkind, beq_self_eq_true, Bool.true_and, if_true,
        Option.any_some, hlength]
      unfold children
      cases argument.node.children with
      | nil => rfl
      | cons first rest => simp [siblings, Bool.beq_comm]
    · have hbeq : (argument.kind == .argument) = false := by simpa using hkind
      simp [hbeq]

/-- What is called by the call that takes the name directly. -/
def calledSegments? (name : Place) : Option (List Place) :=
  (name.parent?.filter (·.kind == .argument)).bind fun argument =>
    (argument.children.getLast?.filter (·.index == name.index)).bind fun _ =>
      (argument.parent?.filter (·.kind == .call)).bind fun call =>
        call.children.head?.bind nameSegments?

end Place

namespace Tree

variable {t : Tree} {p name : Place}

/-- The name of a call, from what is called. -/
theorem callNameOf_eq (t : Tree) (name : Place) : t.callNameOf name =
    match name.calledSegments? with
    | some segments =>
      if segments.length < 2 then ""
      else ".".intercalate ((segments.drop (segments.length - 3)).map t.nameKey)
    | none => "" := by
  unfold callNameOf
  have hcalled : (name.parent?.bind fun argument => argument.argumentValue?.bind fun value =>
      if value.index = name.index then
        argument.parent?.bind fun call => call.callee?.bind fun callee => callee.nameSegments?
      else none) = name.calledSegments? := by
    refine bind_eq_bind_filter ?_ ?_
    · intro argument hkind
      simp [Place.argumentValue?, show argument.kind ≠ .argument by simpa using hkind]
    · intro argument hkind
      rw [Place.argumentValue?, if_pos (by simpa using hkind)]
      refine bind_eq_bind_filter ?_ ?_
      · intro value hindex
        rw [if_neg (by simpa using hindex)]
      · intro value hindex
        rw [if_pos (by simpa using hindex)]
        refine bind_eq_bind_filter ?_ ?_
        · intro call hkind
          simp [Place.callee?, show call.kind ≠ .call by simpa using hkind]
        · intro call hkind
          rw [Place.callee?, if_pos (by simpa using hkind)]
  rw [← hcalled]
  rfl

/-- The numbers of places fall on the way up from a place of a tree. -/
theorem pairwise_ancestors (hp : p ∈ t.places) :
    p.ancestors.Pairwise fun q r => r.index < q.index := by
  induction hindex : p.index using Nat.strongRecOn generalizing p with
  | ind index ih =>
    cases hparent : p.parent? with
    | none =>
      have habove : p.above = [] := by
        unfold Place.parent? at hparent
        split at hparent
        · assumption
        · simp at hparent
      simp [Place.ancestors, habove, Place.outward]
    | some q =>
      obtain ⟨hq, hpq⟩ := parent?_spec hp hparent
      rw [Place.ancestors_of_mem_children hpq, List.pairwise_cons]
      refine ⟨?_, ih q.index (hindex ▸ (Place.index_of_mem_children hpq).1) hq rfl⟩
      intro r hr
      exact Place.index_lt_of_mem_descendants (ancestors_spec hq hr).2

/-- The region of a name: the section of declarations it stands in, or else the
outermost body, or else the declarations of the nearest scope. -/
theorem assertionRegion?_eq (hname : name ∈ t.places) :
    name.assertionRegion? =
      if name.scopes.isEmpty then none
      else Place.sectionAmong? name.ancestors <|> outermostBody? name.scopes <|>
        name.scopes.head?.bind (·.declarations) := by
  unfold Place.assertionRegion?
  cases hlast : name.scopes.getLast? with
  | none => simp [List.getLast?_eq_none_iff.1 hlast]
  | some outer =>
    have hne : name.scopes ≠ [] := by
      intro hnil
      simp [hnil] at hlast
    rw [if_neg (by simpa using hne), ← Place.sectionAmong?_eq (pairwise_ancestors hname) hlast]
    simp [hlast]

end Tree

end PlsqlAudit
