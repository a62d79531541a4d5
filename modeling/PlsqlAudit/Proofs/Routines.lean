import PlsqlAudit.Proofs.Origins
import PlsqlAudit.Proofs.Spelling

/-!
# The routine around a place

On the way up from a place anonymous blocks are passed, a routine ends the way,
and a unit without a signature leaves it without an end.  So the routine whose
parameters a name can see is the nearest one around it, and inside a routine in
which no other routine is nested every place sees the parameters of that routine
and has its body for the outermost one.
-/

namespace PlsqlAudit

/-- What can be declared and is not a routine is a declaration of a known form or some other
one. -/
theorem Kind.eq_of_isDeclared {kind : Kind} (h : kind.isDeclared = true)
    (hroutine : kind.isRoutine = false) :
    kind.isDeclaration = true ∨ kind = .otherDeclaration := by
  cases kind <;> simp [isDeclared, isRoutine, isDeclaration] at h hroutine ⊢

namespace Place

variable {p q routine : Place} {above : List Place}

/-! ### Going up -/

/-- On the way up the first place decides: a routine is the answer, any other container but a block
ends the way, and all else is passed. -/
theorem routineAmong?_cons (p : Place) (above : List Place) :
    routineAmong? (p :: above) =
      if p.kind.isRoutine then some p
      else if p.kind.isContainer && p.kind != .anonymousBlock then none
      else routineAmong? above := by
  rw [routineAmong?]
  cases p.kind <;> rfl

/-- On the way up each container adds its scope, and a routine adds the last one. -/
theorem scopesAmong_cons (p : Place) (above : List Place) :
    scopesAmong (p :: above) =
      match ScopeKind.of? p.kind with
      | some kind =>
        Scope.ofContainer p kind :: if p.kind.isRoutine then [] else scopesAmong above
      | none => if p.kind.isContainer then [] else scopesAmong above := by
  rw [scopesAmong]
  cases p.kind <;> rfl

/-- The routine found on the way up is the first routine among the places above. -/
theorem find?_of_routineAmong? (h : routineAmong? above = some routine) :
    above.find? (fun p => p.kind.isRoutine) = some routine := by
  induction above with
  | nil => simp [routineAmong?] at h
  | cons p above ih =>
    rw [routineAmong?_cons] at h
    rw [List.find?_cons]
    cases hroutine : p.kind.isRoutine with
    | true => simpa [hroutine] using h
    | false =>
      rw [hroutine, if_neg (by simp)] at h
      split at h
      · simp at h
      · exact ih h

/-- The routine whose parameters a place can see is the nearest one around it. -/
theorem ancestor?_of_routine? (h : p.routine? = some routine) :
    p.ancestor? Kind.isRoutine = some routine := find?_of_routineAmong? h

end Place

namespace Tree

variable {t : Tree} {p q routine body : Place}

/-! ### Going down -/

/-- What stands in nothing but a program stands in no other node. -/
theorem LaidOut.not_isOutermost (h : t.LaidOut) (hp : p ∈ t.places)
    (hkind : p.kind ≠ .compilationUnit) (hq : q ∈ p.descendants) :
    q.kind.isOutermost = false := by
  induction p using Place.induction_below with
  | step p ih =>
    obtain ⟨c, hc, hqc⟩ := Place.mem_descendants.1 hq
    have hcKind : c.kind.isOutermost = false :=
      (h p hp).not_isOutermost hkind (List.mem_map_of_mem hc)
    rcases Place.mem_subtree.1 hqc with rfl | hqc
    · exact hcKind
    · refine ih c hc (children_subset_places hp hc) ?_ hqc
      intro hunit
      simp [hunit, Kind.isOutermost] at hcKind

/-- A node of a kind without parts has nothing below it. -/
theorem LaidOut.descendants_eq_nil (h : t.LaidOut) (hp : p ∈ t.places)
    (hleaf : ∀ parts, p.kind.Layout parts → parts = []) : p.descendants = [] := by
  have hchildren := List.map_eq_nil_iff.1 (hleaf _ (h p hp))
  rw [Place.descendants_eq, hchildren, List.flatMap_nil]

/-- A declaration without an initial value consists of its name and its type. -/
theorem LaidOut.declaration_parts (h : t.LaidOut) (hp : p ∈ t.places)
    (hkind : p.kind.isDeclaration = true) (hvalue : p.initializer? = none) :
    ∃ name type, p.children = [name, type] ∧ name.kind = .definingName ∧
      type.kind.isDataType = true := by
  have hlayout : Kind.DeclarationLayout (p.children.map Place.kind) := by
    have hall := h p hp
    cases hcase : p.kind <;> simp [hcase, Kind.isDeclaration] at hkind
    all_goals rwa [hcase] at hall
  obtain ⟨typeKind, valueKinds, hparts, htype, -⟩ := hlayout
  obtain ⟨name, rest, hchildren, hname, hrest⟩ := List.map_eq_cons_iff.1 hparts
  obtain ⟨type, values, rfl, rfl, rfl⟩ := List.map_eq_cons_iff.1 hrest
  have hnot : name.kind.isDataType = false := by simp [hname, Kind.isDataType]
  have hnone : values = [] := by
    simpa [Place.initializer?, hkind, hchildren, hnot, htype] using hvalue
  exact ⟨name, type, by rw [hchildren, hnone], hname, htype⟩

/-! ### Parameters -/

/-- A parameter of `routine` with the given key and a type that can carry text. -/
structure HasParameter (t : Tree) (routine : Place) (key : String) (parameter : Place) : Prop where
  part : parameter ∈ routine.children
  kind : parameter.kind.isParameter = true
  named : ∃ name, parameter.definingName? = some name ∧ t.nameKey name = key
  stringLike : ∃ type, parameter.dataType? = some type ∧ t.isStringLike type = true

/-- A parameter has a data type, as the layout of nodes demands. -/
theorem LaidOut.exists_dataType? (h : t.LaidOut) (hp : p ∈ t.places)
    (hkind : p.kind.isParameter = true) : ∃ type, p.dataType? = some type := by
  have hlayout : Kind.DeclarationLayout (p.children.map Place.kind) := by
    have hall := h p hp
    cases hcase : p.kind <;> simp [hcase, Kind.isParameter] at hkind
    rwa [hcase] at hall
  obtain ⟨type, value, hparts, htype, -⟩ := hlayout
  have hmem : type ∈ p.children.map Place.kind := by simp [hparts]
  obtain ⟨q, hq, rfl⟩ := List.mem_map.1 hmem
  exact Option.isSome_iff_exists.1 (List.find?_isSome.2 ⟨q, hq, htype⟩)

/-- Some part of a routine is a parameter with a key exactly if the routine has such a
parameter. -/
theorem LaidOut.any_isParameterOf (h : t.LaidOut) (hroutine : routine ∈ t.places) {key : String} :
    routine.children.any (t.isParameterOf key) = true ↔
      ∃ parameter, t.HasParameter routine key parameter := by
  rw [List.any_eq_true]
  constructor
  · rintro ⟨parameter, hpart, hparameter⟩
    rw [isParameterOf, Bool.and_eq_true, Bool.and_eq_true] at hparameter
    obtain ⟨⟨hkind, hname⟩, htype⟩ := hparameter
    obtain ⟨name, hdefining, hkey⟩ := (Option.any_eq_true _ _).1 hname
    obtain ⟨type, hdata⟩ := h.exists_dataType? (children_subset_places hroutine hpart) hkind
    refine ⟨parameter, hpart, hkind, ⟨name, hdefining, by simpa using hkey⟩, type, hdata, ?_⟩
    simpa [hdata] using htype
  · rintro ⟨parameter, hpart, hkind, ⟨name, hdefining, hkey⟩, type, hdata, htype⟩
    exact ⟨parameter, hpart, by simp [isParameterOf, hkind, hdefining, hkey, hdata, htype]⟩

/-! ### Routines that hold no other -/

/-- A routine with a body that holds no other routine. -/
structure UnnestedRoutine (t : Tree) (routine body : Place) : Prop where
  mem : routine ∈ t.places
  isRoutine : routine.kind.isRoutine = true
  hasBody : routine.child? (· == .body) = some body
  unnested : ∀ q ∈ routine.descendants, q.kind.isRoutine = false

namespace UnnestedRoutine

section Parts

variable (h : t.UnnestedRoutine routine body) (hlaid : t.LaidOut)

include h

/-- The body of a routine is one of its parts. -/
theorem body_mem : body ∈ routine.children ∧ body.kind = .body := by
  obtain ⟨hmem, hkind⟩ := Place.child?_spec (· == .body) h.hasBody
  exact ⟨hmem, by simpa using hkind⟩

/-- What is in the body of a routine is below the routine. -/
theorem descendants_subset : body.descendants ⊆ routine.descendants :=
  Place.descendants_subset (Place.mem_descendants_of_mem_children h.body_mem.1)

include hlaid

/-- Whatever holds code inside the routine is an anonymous block. -/
theorem kind_eq_of_isContainer (hq : q ∈ routine.descendants) (hkind : q.kind.isContainer = true) :
    q.kind = .anonymousBlock := by
  have hroutine := h.unnested q hq
  have hunit : routine.kind ≠ .compilationUnit := by
    intro hunit
    simpa [hunit, Kind.isRoutine] using h.isRoutine
  have hout := hlaid.not_isOutermost h.mem hunit hq
  cases hcase : q.kind <;>
    simp [hcase, Kind.isContainer, Kind.isRoutine, Kind.isOutermost] at hkind hroutine hout ⊢

end Parts

/-! ### Places in the body -/

section Places

variable (h : t.UnnestedRoutine routine body) (hlaid : t.LaidOut) (hp : p ∈ body.descendants)

include h hp

/-- Between a place in the body and the routine there are only places below the routine, with the
place below them. -/
theorem ancestors_eq : ∃ between, p.ancestors = between ++ routine :: routine.ancestors ∧
    ∀ r ∈ between, r ∈ routine.descendants ∧ p ∈ r.descendants :=
  Place.ancestors_eq_of_mem (h.descendants_subset hp)

include hlaid

/-- A name in the body sees the parameters of the routine. -/
theorem routine?_eq : p.routine? = some routine := by
  obtain ⟨between, hancestors, hbetween⟩ := h.ancestors_eq hp
  have hinner : ∀ r ∈ between, r ∈ routine.descendants := fun r hr => (hbetween r hr).1
  rw [Place.routine?, hancestors]
  clear hancestors hbetween
  induction between with
  | nil => rw [List.nil_append, Place.routineAmong?_cons, if_pos h.isRoutine]
  | cons r between ih =>
    have hr := hinner r List.mem_cons_self
    have hblock : (r.kind.isContainer && r.kind != .anonymousBlock) = false := by
      cases hcontainer : r.kind.isContainer with
      | false => rfl
      | true => simp [h.kind_eq_of_isContainer hlaid hr hcontainer]
    rw [List.cons_append, Place.routineAmong?_cons, h.unnested r hr, if_neg (by simp), hblock,
      if_neg (by simp)]
    exact ih fun q hq => hinner q (List.mem_cons_of_mem r hq)

/-- The scopes around a name in the body are those of blocks inside the routine,
and then that of the routine. -/
theorem scopes_eq : ∃ blocks kind, p.scopes = blocks ++ [Scope.ofContainer routine kind] ∧
    ∀ scope ∈ blocks, ∃ r kind, r ∈ routine.descendants ∧ scope = Scope.ofContainer r kind := by
  obtain ⟨between, hancestors, hbetween⟩ := h.ancestors_eq hp
  have hinner : ∀ r ∈ between, r ∈ routine.descendants := fun r hr => (hbetween r hr).1
  rw [Place.scopes, hancestors]
  clear hancestors hbetween
  induction between with
  | nil =>
    obtain ⟨kind, hkind⟩ : ∃ kind, ScopeKind.of? routine.kind = some kind := by
      have hroutine := h.isRoutine
      cases hcase : routine.kind <;> simp [hcase, Kind.isRoutine] at hroutine <;>
        exact ⟨_, rfl⟩
    refine ⟨[], kind, ?_, by simp⟩
    simp [Place.scopesAmong_cons, hkind, h.isRoutine]
  | cons r between ih =>
    have hr := hinner r List.mem_cons_self
    obtain ⟨blocks, kind, hscopes, hblocks⟩ :=
      ih fun q hq => hinner q (List.mem_cons_of_mem r hq)
    rw [List.cons_append, Place.scopesAmong_cons, h.unnested r hr, if_neg (by simp), hscopes]
    cases hscope : ScopeKind.of? r.kind with
    | some scope =>
      refine ⟨Scope.ofContainer r scope :: blocks, kind, rfl, ?_⟩
      intro other hother
      rcases List.mem_cons.1 hother with rfl | hother
      · exact ⟨r, scope, hr, rfl⟩
      · exact hblocks other hother
    | none =>
      have hcontainer : r.kind.isContainer = false := by
        rw [Bool.eq_false_iff]
        intro hcontainer
        simp [h.kind_eq_of_isContainer hlaid hr hcontainer, ScopeKind.of?] at hscope
      refine ⟨blocks, kind, ?_, hblocks⟩
      simp [hcontainer]

/-- The outermost body around a place in the body of the routine is this body. -/
theorem outermostBody?_eq : outermostBody? p.scopes = some body := by
  obtain ⟨blocks, kind, hscopes, -⟩ := h.scopes_eq hlaid hp
  have hbody : (Scope.ofContainer routine kind).body = some body := h.hasBody
  rw [outermostBody?, hscopes, List.reverse_append, List.reverse_singleton, List.singleton_append,
    List.findSome?_cons, hbody]

end Places

end UnnestedRoutine

/-! ### Plain routines -/

/-- A routine with a body that holds no other routine and gives no variable or
constant an initial value. -/
structure PlainRoutine (t : Tree) (routine body : Place) : Prop
    extends UnnestedRoutine t routine body where
  uninitialized : ∀ q ∈ routine.descendants, q.kind.isDeclaration = true → q.initializer? = none

namespace PlainRoutine

section Parts

variable (h : t.PlainRoutine routine body) (hlaid : t.LaidOut)

include h hlaid

/-- No name stands in a section of declarations inside the routine. -/
theorem name_not_in_section {declarations : Place} (hmem : declarations ∈ routine.descendants)
    (hkind : declarations.kind = .declareSection) (hq : q ∈ declarations.descendants) :
    q.kind ≠ .name := by
  have hplaces := descendants_subset_places h.mem
  obtain ⟨d, hd, hqd⟩ := Place.mem_descendants.1 hq
  have hdMem := Place.children_subset_descendants hmem hd
  have hdKind : d.kind.isDeclared = true := by
    have hlayout := hlaid declarations (hplaces hmem)
    rw [hkind] at hlayout
    exact hlayout d.kind (List.mem_map_of_mem hd)
  have hnotRoutine := h.unnested d hdMem
  rcases Place.mem_subtree.1 hqd with rfl | hqd
  · rintro hname
    simp [hname, Kind.isDeclared] at hdKind
  · rcases Kind.eq_of_isDeclared hdKind hnotRoutine with hdecl | hother
    · obtain ⟨name, type, hchildren, hname, htype⟩ :=
        hlaid.declaration_parts (hplaces hdMem) hdecl (h.uninitialized d hdMem hdecl)
      obtain ⟨c, hc, hqc⟩ := Place.mem_descendants.1 hqd
      have hcPlace := hplaces (Place.children_subset_descendants hdMem hc)
      have hleaf : c.descendants = [] ∧ c.kind ≠ .name := by
        rw [hchildren, List.mem_cons, List.mem_singleton] at hc
        rcases hc with rfl | rfl
        · exact ⟨hlaid.descendants_eq_nil hcPlace (by simp [hname, Kind.Layout]), by simp [hname]⟩
        · cases hcase : c.kind <;> simp [hcase, Kind.isDataType] at htype
          exact ⟨hlaid.descendants_eq_nil hcPlace (by simp [hcase, Kind.Layout]), by simp⟩
      rcases Place.mem_subtree.1 hqc with rfl | hqc
      · exact hleaf.2
      · simp [hleaf.1] at hqc
    · have hnil := hlaid.descendants_eq_nil (hplaces hdMem) (by simp [hother, Kind.Layout])
      simp [hnil] at hqd

end Parts

/-! ### Names in the body -/

section Names

variable (h : t.PlainRoutine routine body) (hlaid : t.LaidOut)
  (hp : p ∈ body.descendants) (hname : p.kind = .name)

include h hlaid hp

/-- No declaration in a scope around the name has an initial value. -/
theorem scope_uninitialized {scope : Scope} {declarations d : Place} (hscope : scope ∈ p.scopes)
    (hsection : scope.declarations = some declarations) (hd : d ∈ declarations.children)
    (hkind : d.kind.isDeclaration = true) : d.initializer? = none := by
  obtain ⟨blocks, kind, hscopes, hblocks⟩ := h.toUnnestedRoutine.scopes_eq hlaid hp
  have hmem : declarations ∈ routine.descendants := by
    rw [hscopes, List.mem_append, List.mem_singleton] at hscope
    rcases hscope with hscope | rfl
    · obtain ⟨r, kind, hr, rfl⟩ := hblocks scope hscope
      exact Place.children_subset_descendants hr (Scope.declarations_ofContainer hsection).1
    · exact Place.mem_descendants_of_mem_children (Scope.declarations_ofContainer hsection).1
  exact h.uninitialized d (Place.children_subset_descendants hmem hd) hkind

/-- No declaration in a plain routine gives an initial value to a name in its body. -/
theorem declaredValue?_eq_none (key : String) : t.declaredValue? p.scopes key = none := by
  cases hvalue : t.declaredValue? p.scopes key with
  | none => rfl
  | some value =>
    obtain ⟨scope, hscope, declarations, hsection, d, hd, hkind, hinit⟩ :=
      declaredValue?_spec hvalue
    simp [h.scope_uninitialized hlaid hp hscope hsection hd hkind] at hinit

/-- A name in the body of a plain routine has no other names under which it could be asserted. -/
theorem aliases_eq_nil : AllowList.aliases t p = [] := by
  rw [AllowList.aliases]
  simp only [List.filter_eq_nil_iff, List.mem_filterMap]
  rintro copy ⟨d, hd, -⟩
  obtain ⟨hdecl, hcopy⟩ := List.mem_filter.1 hd
  obtain ⟨declarations, hsections, hchild⟩ := List.mem_flatMap.1 hdecl
  obtain ⟨scope, hscope, hsection⟩ := List.mem_filterMap.1 hsections
  obtain ⟨hchild, hkind⟩ := List.mem_filter.1 hchild
  simp [h.scope_uninitialized hlaid hp hscope hsection hchild hkind] at hcopy

include hname

/-- What asserts a name in the body may stand anywhere in the body. -/
theorem assertionRegion?_eq : p.assertionRegion? = some body := by
  obtain ⟨between, hancestors, hbetween⟩ := h.toUnnestedRoutine.ancestors_eq hp
  obtain ⟨blocks, kind, hscopes, -⟩ := h.toUnnestedRoutine.scopes_eq hlaid hp
  have hlast : p.scopes.getLast? = some (Scope.ofContainer routine kind) := by
    rw [hscopes, List.getLast?_concat]
  have hwithin : p.ancestors.takeWhile (fun q => q.index != routine.index) = between := by
    rw [hancestors, List.takeWhile_append_of_pos]
    · simp
    · intro r hr
      have hlt := Place.index_lt_of_mem_descendants (hbetween r hr).1
      simp only [bne_iff_ne, ne_eq]
      omega
  have hnearest : (between.find? fun q => q.kind == .body || q.kind == .declareSection).filter
      (fun q => q.kind == .declareSection) = none := by
    rw [Option.filter_eq_none_iff]
    intro r hr
    have hmem := hbetween r (List.mem_of_find?_eq_some hr)
    rw [beq_iff_eq]
    intro hsection
    exact h.name_not_in_section hlaid hmem.1 hsection hmem.2 hname
  have hcontainer : (Scope.ofContainer routine kind).container = routine := rfl
  simp only [Place.assertionRegion?, hlast, Option.bind_eq_bind, Option.bind_some, hcontainer,
    hwithin, hnearest, h.toUnnestedRoutine.outermostBody?_eq hlaid hp]
  rfl

end Names

end PlainRoutine

end Tree

end PlsqlAudit
