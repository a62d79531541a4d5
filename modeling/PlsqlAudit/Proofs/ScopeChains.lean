import PlsqlAudit.Proofs.EnclosingRoutine

/-!
# Chains of scopes

The scopes around a place, the routine around it, its outermost body and the declarations
of a body are each found by a way of their own through the tree.  In a program they fit
together.  The chain of scopes goes from container to container, through blocks, and its
last container is the routine, if there is one.  The blocks in between stand in the body of
that last container, since a block stands in a body wherever it does not stand outside all
scopes.
-/

namespace PlsqlAudit

namespace Tree

variable {source : String} {t : Tree} {p b c : Place} {scope : Scope}

/-- The blocks of a chain stand in the body of the last scope. -/
theorem LaidOut.exists_body_of_mem_dropLast (h : t.LaidOut) (hp : p ∈ t.places)
    (hscope : scope ∈ p.scopes.dropLast) :
    ∃ last body, p.scopes.getLast? = some last ∧ last.body = some body ∧
      scope.container ∈ body.descendants := by
  induction p using Place.induction_scopes with
  | outside p hscopes hroutine => simp [hscopes] at hscope
  | routine p first hnear hsignature hscopes hroutine => simp [hscopes] at hscope
  | block p first hnear hblock hscopes hroutine ih =>
    have hfirst := (ancestors_spec hp hnear.mem_ancestors).1
    by_cases hnil : first.container.scopes = []
    · simp [hscopes, hnil] at hscope
    · rw [hscopes, List.getLast?_cons_of_ne_nil hnil]
      rw [hscopes, List.dropLast_cons_of_ne_nil hnil, List.mem_cons] at hscope
      rcases hscope with rfl | hscope
      · have hkind : scope.container.kind = .anonymousBlock :=
          ScopeKind.of?_eq_anonymousBlock.1 (hblock ▸ hnear.opens)
        obtain ⟨last, hlast⟩ := Option.isSome_iff_exists.1 (List.getLast?_isSome.2 hnil)
        obtain ⟨body, hbody, hmem⟩ := h.exists_outermost hfirst (by rw [hkind]; rfl) hlast
        exact ⟨last, body, hlast, hbody, hmem⟩
      · exact ih hfirst hscope

/-- The declarations of a body are those of the scope that its container opens, which is
the nearest one around the body. -/
theorem declarations?_eq {kind : ScopeKind} (hb : b ∈ t.places) (hbody : b.kind = .body)
    (hc : b.parent? = some c) (hkind : ScopeKind.of? c.kind = some kind) :
    b.scope? = some (Scope.ofContainer c kind) ∧
      b.declarations? = (Scope.ofContainer c kind).declarations := by
  have hancestors := Place.ancestors_of_mem_children (parent?_spec hb hc).2
  have hcontainer : c.kind.isContainer = true := by
    cases hcase : c.kind <;> simp [hcase, ScopeKind.of?] at hkind <;> rfl
  constructor
  · simp [Place.scope?, Place.container?, Place.ancestor?, hancestors, hcontainer, hkind]
  · simp [Place.declarations?, hbody, hc, hkind, Scope.ofContainer]

/-- How the scopes around a place, the routine around it and the bodies of both fit
together. -/
structure ScopesFit (p : Place) : Prop where
  /-- The chain is the nearest scope and, if that is a block, the chain of the block. -/
  hops : p.scopes = p.scope?.elim [] fun scope =>
    scope :: if scope.kind.hasSignature then [] else scope.container.scopes
  /-- The containers of the chain are the nearest ones around the place, in order. -/
  successive : p.scopes.map (·.container) <+: p.ancestors.filter (·.kind.isContainer)
  /-- Each of them opens a scope, and the chain has that scope. -/
  supported : ∀ scope ∈ p.scopes, scope = Scope.ofContainer scope.container scope.kind ∧
    ScopeKind.of? scope.container.kind = some scope.kind
  /-- All but the last are blocks. -/
  blocks : ∀ scope ∈ p.scopes.dropLast, scope.container.kind = .anonymousBlock
  /-- The routine around the place is the last container, if that has a signature. -/
  routine : ∀ routine, p.routine? = some routine ↔
    ∃ last, p.scopes.getLast? = some last ∧ last.container = routine ∧
      last.kind.hasSignature = true
  /-- All but the last stand in the outermost body. -/
  inside : ∀ scope ∈ p.scopes.dropLast, ∃ body, outermostBody? p.scopes = some body ∧
    scope.container ∈ body.descendants
  /-- With two scopes or more the outermost body is that of the last container. -/
  own : 1 < p.scopes.length → ∃ last body, p.scopes.getLast? = some last ∧
    outermostBody? p.scopes = some body ∧ last.body = some body ∧
    body ∈ last.container.children ∧ body.kind = .body
  /-- The declarations of a body whose container opens a scope are those of this scope. -/
  sections : p.kind = .body → ∀ c kind, p.parent? = some c → ScopeKind.of? c.kind = some kind →
    p.scope? = some (Scope.ofContainer c kind) ∧
      p.declarations? = (Scope.ofContainer c kind).declarations

/-- **The walks through the scopes of a program agree**, at every place.  The nearest scope,
the chain of scopes and the routine are found on one way up, and the bodies and declarations
that they lead to are those of the containers on this way. -/
theorem scopesFit_of_parse (h : parse source = .ok t) : ∀ p ∈ t.places, ScopesFit p := by
  intro p hp
  have hlaid := laidOut_of_parse h
  refine ⟨p.scopes_eq_elim, p.containers_prefix, fun _ => Place.opens_of_mem_scopes, ?_,
    fun _ => Place.routine?_eq_some, ?_, ?_, fun hkind c kind => declarations?_eq hp hkind⟩
  · intro scope hscope
    have hopens := (Place.opens_of_mem_scopes ((List.dropLast_sublist _).subset hscope)).2
    rwa [Place.block_of_mem_dropLast hscope, ScopeKind.of?_eq_anonymousBlock] at hopens
  · intro scope hscope
    obtain ⟨last, body, hlast, hbody, hmem⟩ := hlaid.exists_body_of_mem_dropLast hp hscope
    exact ⟨body, outermostBody?_of_getLast? hlast hbody, hmem⟩
  · intro hlength
    obtain ⟨scope, hscope⟩ : ∃ scope, scope ∈ p.scopes.dropLast := by
      apply List.exists_mem_of_length_pos
      rw [List.length_dropLast]
      omega
    obtain ⟨last, body, hlast, hbody, -⟩ := hlaid.exists_body_of_mem_dropLast hp hscope
    have hopened := (Place.opens_of_mem_scopes (List.mem_of_getLast? hlast)).1
    obtain ⟨hmem, hkind⟩ := Scope.body_ofContainer (hopened ▸ hbody)
    exact ⟨last, body, hlast, outermostBody?_of_getLast? hlast hbody, hbody, hmem, hkind⟩

/-- A name in a block inside another block, in the body of a procedure. -/
theorem scopesFit_of_parse_of_blocks : ∃ t p,
    parse "CREATE PROCEDURE p IS BEGIN DECLARE y t; BEGIN BEGIN x := y; END; END; END;" = .ok t ∧
      p ∈ t.places ∧ p.kind = .name ∧
      p.scopes.map (·.container.kind) = [.anonymousBlock, .anonymousBlock, .createProcedure] ∧
      ScopesFit p := by
  obtain ⟨t, hparse, htest⟩ := exists_parse
    "CREATE PROCEDURE p IS BEGIN DECLARE y t; BEGIN BEGIN x := y; END; END; END;"
    (fun t => (t.placesOf (· == .name)).any fun p =>
      p.scopes.map (·.container.kind) == [.anonymousBlock, .anonymousBlock, .createProcedure])
    (by decide +kernel)
  obtain ⟨p, hname, hkinds⟩ := List.any_eq_true.1 htest
  obtain ⟨hp, hkind⟩ := mem_placesOf.1 hname
  exact ⟨t, p, hparse, hp, by simpa using hkind, by simpa using hkinds,
    scopesFit_of_parse hparse p hp⟩

end Tree

end PlsqlAudit
