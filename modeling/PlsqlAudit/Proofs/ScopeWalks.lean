import PlsqlAudit.Proofs.Surroundings

/-!
# From scope to scope

The scopes around a place and the routine around it are found by one walk up each, which
looks at every place on the way.  Both may as well go from one container to the next: from
a place to the nearest container around it (`Place.Nearest`), and from a block to the
nearest container around the block.

What holds of a chain of scopes is proved along these hops (`Place.induction_scopes`).  A
hop leads nowhere, to a routine, which ends the chain, or to a block, from which the chain
goes on.
-/

namespace PlsqlAudit

theorem ScopeKind.hasSignature_eq_false {kind : ScopeKind} :
    kind.hasSignature = false ↔ kind = .anonymousBlock := by
  cases kind <;> simp [hasSignature]

theorem ScopeKind.of?_eq_anonymousBlock {kind : Kind} :
    of? kind = some .anonymousBlock ↔ kind = .anonymousBlock := by
  cases kind <;> simp [of?]

/-- Where the last scope of a chain has a body, it is the outermost one. -/
theorem outermostBody?_of_getLast? {chain : List Scope} {last : Scope} {body : Place}
    (hlast : chain.getLast? = some last) (hbody : last.body = some body) :
    outermostBody? chain = some body := by
  obtain ⟨front, rfl⟩ := List.getLast?_eq_some_iff.1 hlast
  rw [outermostBody?, List.reverse_append, List.reverse_singleton, List.singleton_append,
    List.findSome?_cons, hbody]

namespace Place

variable {p c routine body : Place} {scope : Scope}

/-! ### The nearest container -/

/-- What comes behind a place on the way up is the way up from there. -/
theorem eq_ancestors_of_outward {above : List (Nat × Node)} {between rest : List Place}
    (h : outward above = between ++ c :: rest) : rest = c.ancestors := by
  induction above generalizing between with
  | nil => simp [outward] at h
  | cons entry above ih =>
    obtain ⟨index, node⟩ := entry
    rw [outward] at h
    cases between with
    | nil =>
      obtain ⟨rfl, rfl⟩ := List.cons.inj h
      rfl
    | cons q between => exact ih (List.cons.inj h).2

theorem ancestor?_spec (wanted : Kind → Bool) (h : p.ancestor? wanted = some c) :
    wanted c.kind = true ∧ ∃ between, p.ancestors = between ++ c :: c.ancestors ∧
      ∀ q ∈ between, wanted q.kind = false := by
  obtain ⟨hwanted, between, rest, hway, hbetween⟩ := List.find?_eq_some_iff_append.1 h
  obtain rfl := eq_ancestors_of_outward hway
  exact ⟨hwanted, between, hway, by simpa using hbetween⟩

/-- What is no container is passed on the way up. -/
theorem among_append {between : List Place} (above : List Place)
    (h : ∀ q ∈ between, q.kind.isContainer = false) :
    scopesAmong (between ++ above) = scopesAmong above ∧
      routineAmong? (between ++ above) = routineAmong? above := by
  induction between with
  | nil => exact ⟨rfl, rfl⟩
  | cons q between ih =>
    have hq := h q List.mem_cons_self
    obtain ⟨hscopes, hroutine⟩ := ih fun r hr => h r (List.mem_cons_of_mem _ hr)
    constructor
    · rw [List.cons_append, scopesAmong, hq, if_neg (by simp), hscopes]
    · rw [List.cons_append, routineAmong?, hq, if_neg (by simp), hroutine]

/-- The scope is that of the nearest container around the place. -/
structure Nearest (p : Place) (scope : Scope) : Prop where
  container : scope.container.kind.isContainer = true
  opens : ScopeKind.of? scope.container.kind = some scope.kind
  eq_ofContainer : scope = Scope.ofContainer scope.container scope.kind
  way : ∃ between, p.ancestors = between ++ scope.container :: scope.container.ancestors ∧
    ∀ q ∈ between, q.kind.isContainer = false

theorem nearest_of_scope? (h : p.scope? = some scope) : p.Nearest scope := by
  obtain ⟨⟨c, kind⟩, hcontainer, rfl⟩ := Option.map_eq_some_iff.1 h
  obtain ⟨found, hfound, hopens⟩ := Option.bind_eq_some_iff.1 hcontainer
  obtain ⟨opened, hkind, hpair⟩ := Option.bind_eq_some_iff.1 hopens
  obtain ⟨rfl, rfl⟩ := Prod.mk.inj (Option.some.inj hpair)
  obtain ⟨hwanted, hway⟩ := ancestor?_spec Kind.isContainer hfound
  exact ⟨hwanted, hkind, rfl, hway⟩

/-- Where no container is around a place, or one without a scope, nothing is found. -/
theorem among_of_scope?_eq_none (h : p.scope? = none) : p.scopes = [] ∧ p.routine? = none := by
  rw [scopes, routine?]
  cases hfound : p.ancestor? Kind.isContainer with
  | none =>
    have hnone : ∀ q ∈ p.ancestors, q.kind.isContainer = false := by
      simpa [ancestor?] using hfound
    rw [← List.append_nil p.ancestors, (among_append [] hnone).1, (among_append [] hnone).2]
    exact ⟨rfl, rfl⟩
  | some c =>
    obtain ⟨hcontainer, between, hway, hbetween⟩ := ancestor?_spec Kind.isContainer hfound
    have hopens : ScopeKind.of? c.kind = none := by
      cases hkind : ScopeKind.of? c.kind with
      | none => rfl
      | some kind => simp [scope?, container?, hfound, hkind] at h
    rw [hway, (among_append _ hbetween).1, (among_append _ hbetween).2, scopesAmong, routineAmong?,
      if_pos hcontainer, if_pos hcontainer, hopens]
    exact ⟨rfl, rfl⟩

namespace Nearest

/-- Whoever goes up from the place finds what is found from its container on. -/
theorem among (h : p.Nearest scope) :
    p.scopes = scopesAmong (scope.container :: scope.container.ancestors) ∧
      p.routine? = routineAmong? (scope.container :: scope.container.ancestors) := by
  obtain ⟨between, hway, hbetween⟩ := h.way
  rw [scopes, routine?, hway]
  exact among_append _ hbetween

theorem scopes_eq (h : p.Nearest scope) :
    p.scopes = scope :: if scope.kind.hasSignature then [] else scope.container.scopes := by
  rw [h.among.1, scopesAmong, if_pos h.container, h.opens]
  exact congrArg (· :: _) h.eq_ofContainer.symm

theorem routine?_eq (h : p.Nearest scope) :
    p.routine? =
      if scope.kind.hasSignature then some scope.container else scope.container.routine? := by
  rw [h.among.2, routineAmong?, if_pos h.container, h.opens]
  rfl

/-- The containers around a place are the nearest one and those around that. -/
theorem filter_ancestors (h : p.Nearest scope) :
    p.ancestors.filter (·.kind.isContainer) =
      scope.container :: scope.container.ancestors.filter (·.kind.isContainer) := by
  obtain ⟨between, hway, hbetween⟩ := h.way
  have hskip : between.filter (·.kind.isContainer) = [] := by simpa using hbetween
  rw [hway, List.filter_append, hskip, List.nil_append,
    List.filter_cons_of_pos (by simp [h.container])]

theorem mem_ancestors (h : p.Nearest scope) : scope.container ∈ p.ancestors := by
  obtain ⟨between, hway, -⟩ := h.way
  simp [hway]

theorem length_ancestors_lt (h : p.Nearest scope) :
    scope.container.ancestors.length < p.ancestors.length := by
  obtain ⟨between, hway, -⟩ := h.way
  rw [hway, List.length_append, List.length_cons]
  omega

end Nearest

/-! ### Along the hops -/

/-- The scopes around a place are the nearest one and, if that is a block, the scopes
around the block. -/
theorem scopes_eq_elim (p : Place) :
    p.scopes = p.scope?.elim [] fun scope =>
      scope :: if scope.kind.hasSignature then [] else scope.container.scopes := by
  cases hscope : p.scope? with
  | none => exact (among_of_scope?_eq_none hscope).1
  | some scope => exact (nearest_of_scope? hscope).scopes_eq

/-- What holds outside all scopes and directly inside a routine, and holds inside a block
if it holds of the block, holds of every place. -/
theorem induction_scopes {motive : Place → Prop}
    (outside : ∀ p, p.scopes = [] → p.routine? = none → motive p)
    (routine : ∀ p scope, p.Nearest scope → scope.kind.hasSignature = true →
      p.scopes = [scope] → p.routine? = some scope.container → motive p)
    (block : ∀ p scope, p.Nearest scope → scope.kind = .anonymousBlock →
      p.scopes = scope :: scope.container.scopes → p.routine? = scope.container.routine? →
      motive scope.container → motive p) (p : Place) : motive p := by
  induction hlength : p.ancestors.length using Nat.strongRecOn generalizing p with
  | ind length ih =>
    cases hscope : p.scope? with
    | none =>
      obtain ⟨hscopes, hroutine⟩ := among_of_scope?_eq_none hscope
      exact outside p hscopes hroutine
    | some scope =>
      have hnear := nearest_of_scope? hscope
      have hscopes := hnear.scopes_eq
      have hroutine := hnear.routine?_eq
      cases hsignature : scope.kind.hasSignature with
      | true =>
        rw [hsignature, if_pos rfl] at hscopes hroutine
        exact routine p scope hnear hsignature hscopes hroutine
      | false =>
        rw [hsignature, if_neg (by simp)] at hscopes hroutine
        have hblock := ScopeKind.hasSignature_eq_false.1 hsignature
        refine block p scope hnear hblock hscopes hroutine ?_
        exact ih _ (hlength ▸ hnear.length_ancestors_lt) scope.container rfl

/-- The containers of a chain are the nearest ones around the place, in order. -/
theorem containers_prefix (p : Place) :
    p.scopes.map (·.container) <+: p.ancestors.filter (·.kind.isContainer) := by
  induction p using induction_scopes with
  | outside p hscopes hroutine => simp [hscopes]
  | routine p scope hnear hsignature hscopes hroutine =>
    rw [hscopes, hnear.filter_ancestors]
    simp
  | block p scope hnear hblock hscopes hroutine ih =>
    rw [hscopes, hnear.filter_ancestors, List.map_cons, List.cons_prefix_cons]
    exact ⟨rfl, ih⟩

/-- Every scope of a chain is that of a container, which opens a scope of its kind. -/
theorem opens_of_mem_scopes (hscope : scope ∈ p.scopes) :
    scope = Scope.ofContainer scope.container scope.kind ∧
      ScopeKind.of? scope.container.kind = some scope.kind := by
  induction p using induction_scopes with
  | outside p hscopes hroutine => simp [hscopes] at hscope
  | routine p first hnear hsignature hscopes hroutine =>
    rw [hscopes, List.mem_singleton] at hscope
    exact hscope ▸ ⟨hnear.eq_ofContainer, hnear.opens⟩
  | block p first hnear hblock hscopes hroutine ih =>
    rw [hscopes, List.mem_cons] at hscope
    rcases hscope with rfl | hscope
    · exact ⟨hnear.eq_ofContainer, hnear.opens⟩
    · exact ih hscope

/-- All scopes of a chain but the last are blocks. -/
theorem block_of_mem_dropLast (hscope : scope ∈ p.scopes.dropLast) :
    scope.kind = .anonymousBlock := by
  induction p using induction_scopes with
  | outside p hscopes hroutine => simp [hscopes] at hscope
  | routine p first hnear hsignature hscopes hroutine => simp [hscopes] at hscope
  | block p first hnear hblock hscopes hroutine ih =>
    rw [hscopes] at hscope
    by_cases hnil : first.container.scopes = []
    · simp [hnil] at hscope
    · rw [List.dropLast_cons_of_ne_nil hnil, List.mem_cons] at hscope
      rcases hscope with rfl | hscope
      · exact hblock
      · exact ih hscope

/-- **The two walks agree.**  The routine around a place is the container of the last scope
in its chain, if that has a signature. -/
theorem routine?_eq_some : p.routine? = some routine ↔
    ∃ last, p.scopes.getLast? = some last ∧ last.container = routine ∧
      last.kind.hasSignature = true := by
  induction p using induction_scopes with
  | outside p hscopes hroutine => simp [hscopes, hroutine]
  | routine p scope hnear hsignature hscopes hroutine => simp [hscopes, hroutine, hsignature]
  | block p scope hnear hblock hscopes hroutine ih =>
    rw [hroutine, ih, hscopes]
    by_cases hnil : scope.container.scopes = []
    · simp [hnil, hblock, ScopeKind.hasSignature]
    · rw [List.getLast?_cons_of_ne_nil hnil]

theorem outermostBody?_of_routine? (h : p.routine? = some routine)
    (hbody : routine.child? (· == .body) = some body) : outermostBody? p.scopes = some body := by
  obtain ⟨last, hlast, rfl, -⟩ := routine?_eq_some.1 h
  apply outermostBody?_of_getLast? hlast
  rw [(opens_of_mem_scopes (List.mem_of_getLast? hlast)).1]
  exact hbody

end Place

end PlsqlAudit
