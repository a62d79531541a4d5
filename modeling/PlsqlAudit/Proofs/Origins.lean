import PlsqlAudit.Flow.Search
import PlsqlAudit.Proofs.Places

/-!
# Where origins stand

The origins of a name are found by going up from it to the scopes around it, and
down again into their bodies and declarations.  Both ways stay in the tree, so
the origins of a name of a tree are names of the same tree (`Tree.origins_subset`).
This is what bounds a search: there are only so many names to be met.
-/

namespace PlsqlAudit

namespace Place

variable {p q c : Place}

/-- What is found as a child of a wanted kind is a child, and its kind is wanted. -/
theorem child?_spec (wanted : Kind → Bool) (h : p.child? wanted = some c) :
    c ∈ p.children ∧ wanted c.kind = true := by
  have hwanted := List.find?_some h
  exact ⟨List.mem_of_find?_eq_some h, hwanted⟩

/-- Only an `EXECUTE IMMEDIATE` statement has SQL that it executes. -/
theorem kind_of_executedSql? {sql : Place} (h : p.executedSql? = some sql) :
    p.kind = .executeImmediate := by
  by_contra hne
  simp [executedSql?, hne] at h

/-- An assignment has two parts: what is assigned to, and the value. -/
theorem assignment?_spec {target value : Place} (h : p.assignment? = some (target, value)) :
    p.kind = .assignment ∧ p.children = [target, value] := by
  unfold assignment? at h
  split at h
  case isTrue hkind =>
    split at h
    case h_1 hchildren =>
      obtain ⟨rfl, rfl⟩ := Prod.mk.inj (Option.some.inj h)
      exact ⟨hkind, hchildren⟩
    case h_2 => simp at h
  case isFalse => simp at h

/-- The initial value of a declaration is one of its parts. -/
theorem initializer?_mem_children (h : p.initializer? = some c) : c ∈ p.children := by
  unfold initializer? at h
  split at h
  · have htail := List.mem_of_mem_head? (Option.mem_def.2 h)
    exact (List.dropWhile_suffix _).subset (List.mem_of_mem_tail htail)
  · simp at h

/-- The descendants of wanted kinds are those of all descendants whose kind is wanted. -/
theorem mem_descendantsOf {wanted : Kind → Bool} :
    q ∈ p.descendantsOf wanted ↔ q ∈ p.descendants ∧ wanted q.kind = true := List.mem_filter

/-- What an expression reads are names in it that label no argument. -/
theorem reads_spec (h : q ∈ p.reads) :
    q ∈ p.subtree ∧ q.kind = .name ∧ q.isArgumentLabel = false := by
  unfold reads at h
  split at h
  case isTrue hkind =>
    split at h
    case isTrue => simp at h
    case isFalse hlabel =>
      obtain rfl := List.mem_singleton.1 h
      exact ⟨mem_subtree.2 (.inl rfl), hkind, by simpa using hlabel⟩
  case isFalse =>
    obtain ⟨hmem, hlabel⟩ := List.mem_filter.1 h
    obtain ⟨hdesc, hkind⟩ := mem_descendantsOf.1 hmem
    exact ⟨mem_subtree.2 (.inr hdesc), by simpa using hkind, by simpa using hlabel⟩

/-- The scopes met on the way up belong to containers met there. -/
theorem mem_scopesAmong {above : List Place} {scope : Scope} (h : scope ∈ scopesAmong above) :
    ∃ container ∈ above, ∃ kind, scope = Scope.ofContainer container kind := by
  induction above with
  | nil => simp [scopesAmong] at h
  | cons p above ih =>
    have later (h : scope ∈ scopesAmong above) :
        ∃ container ∈ p :: above, ∃ kind, scope = Scope.ofContainer container kind := by
      obtain ⟨container, hmem, hscope⟩ := ih h
      exact ⟨container, List.mem_cons_of_mem _ hmem, hscope⟩
    rw [scopesAmong] at h
    split at h
    case isTrue =>
      cases hof : ScopeKind.of? p.kind with
      | none => simp [hof] at h
      | some kind =>
        simp only [hof] at h
        rcases List.mem_cons.1 h with rfl | h
        · exact ⟨p, List.mem_cons_self, kind, rfl⟩
        · split at h
          · simp at h
          · exact later h
    case isFalse => exact later h

end Place

namespace Scope

variable {container child : Place} {kind : ScopeKind}

/-- The body of a scope is a body directly below the container of the scope. -/
theorem body_ofContainer (h : (ofContainer container kind).body = some child) :
    child ∈ container.children ∧ child.kind = .body := by
  obtain ⟨hmem, hkind⟩ := Place.child?_spec (· == .body) h
  exact ⟨hmem, by simpa using hkind⟩

/-- The declarations of a scope are a section directly below the container of the scope. -/
theorem declarations_ofContainer (h : (ofContainer container kind).declarations = some child) :
    child ∈ container.children ∧ child.kind = .declareSection := by
  obtain ⟨hmem, hkind⟩ := Place.child?_spec (· == .declareSection) h
  exact ⟨hmem, by simpa using hkind⟩

end Scope

/-- The outermost body in a chain is the body of one of its scopes. -/
theorem outermostBody?_spec {chain : List Scope} {body : Place}
    (h : outermostBody? chain = some body) : ∃ scope ∈ chain, scope.body = some body := by
  obtain ⟨scope, hscope, hbody⟩ := List.exists_of_findSome?_eq_some h
  exact ⟨scope, List.mem_reverse.1 hscope, hbody⟩

namespace Tree

variable {t : Tree} {name q body : Place}

/-- The values assigned to a key are the right sides of the assignments in the body whose target
has this key. -/
theorem mem_assignedValues {key : String} {value : Place} :
    value ∈ t.assignedValues body key ↔
      ∃ statement ∈ body.descendants, ∃ target,
        statement.assignment? = some (target, value) ∧ t.targetKey target = key := by
  rw [assignedValues, List.mem_filterMap]
  constructor
  · rintro ⟨statement, hstatement, h⟩
    obtain ⟨hdesc, _⟩ := Place.mem_descendantsOf.1 hstatement
    cases hassign : statement.assignment? with
    | none => simp [hassign] at h
    | some parts =>
      obtain ⟨target, found⟩ := parts
      simp only [hassign] at h
      split at h
      case isTrue hkey =>
        obtain rfl := Option.some.inj h
        exact ⟨statement, hdesc, target, hassign, by simpa using hkey⟩
      case isFalse => simp at h
  · rintro ⟨statement, hdesc, target, hassign, hkey⟩
    have hkind := (Place.assignment?_spec hassign).1
    refine ⟨statement, Place.mem_descendantsOf.2 ⟨hdesc, by simp [hkind]⟩, ?_⟩
    simp [hassign, hkey]

/-- What a value reads are names in it, the value itself included. -/
theorem valueReads_spec {value : Place} (h : q ∈ valueReads value) :
    q ∈ value.subtree ∧ q.kind = .name := by
  unfold valueReads at h
  split at h
  case isTrue hkind =>
    obtain rfl := List.mem_singleton.1 h
    exact ⟨Place.mem_subtree.2 (.inl rfl), hkind⟩
  case isFalse => exact ⟨(Place.reads_spec h).1, (Place.reads_spec h).2.1⟩

/-- A name that does not stand directly in an argument is no label. -/
theorem not_isArgumentLabel_of_parent {p : Place} (h : q.parent? = some p)
    (hkind : p.kind ≠ .argument) : q.isArgumentLabel = false := by
  simp [Place.isArgumentLabel, h, hkind]

/-- The initial value that counts for a key stands below a section of
declarations in the chain. -/
theorem declaredValue?_spec {chain : List Scope} {key : String} {value : Place}
    (h : t.declaredValue? chain key = some value) :
    ∃ scope ∈ chain, ∃ declarations, scope.declarations = some declarations ∧
      ∃ d ∈ declarations.children, d.kind.isDeclaration = true ∧ d.initializer? = some value := by
  obtain ⟨d, hfound, hvalue⟩ := Option.bind_eq_some_iff.1 h
  obtain ⟨declarations, hmem, hd⟩ := List.exists_of_findSome?_eq_some hfound
  obtain ⟨scope, hscope, hdecl⟩ := List.mem_filterMap.1 hmem
  obtain ⟨hchild, hkind⟩ := List.mem_filter.1 (List.mem_of_find?_eq_some hd)
  exact ⟨scope, hscope, declarations, hdecl, d, hchild, hkind, hvalue⟩

/-- A scope around a place of a tree has its container, its body and its
declarations in the tree. -/
theorem scope_places {p : Place} {scope : Scope} (hp : p ∈ t.places) (h : scope ∈ p.scopes) :
    scope.container ∈ t.places ∧ (∀ body, scope.body = some body → body ∈ t.places) ∧
      ∀ declarations, scope.declarations = some declarations → declarations ∈ t.places := by
  obtain ⟨container, hmem, kind, rfl⟩ := Place.mem_scopesAmong h
  have hcontainer := (ancestors_spec hp hmem).1
  refine ⟨hcontainer, ?_, ?_⟩
  · intro body hbody
    exact children_subset_places hcontainer (Scope.body_ofContainer hbody).1
  · intro declarations hdecl
    exact children_subset_places hcontainer (Scope.declarations_ofContainer hdecl).1

/-- Whatever is in the subtree of a place of a tree is a place of the tree. -/
theorem subtree_subset_places {p : Place} (hp : p ∈ t.places) : p.subtree ⊆ t.places := by
  intro q hq
  rcases Place.mem_subtree.1 hq with rfl | hq
  · exact hp
  · exact descendants_subset_places hp hq

/-- The names that an expression of a tree reads are names of the tree. -/
theorem reads_subset {expr : Place} (h : expr ∈ t.places) :
    expr.reads ⊆ t.placesOf (· == .name) := by
  intro q hq
  obtain ⟨hsub, hkind, _⟩ := Place.reads_spec hq
  exact mem_placesOf.2 ⟨subtree_subset_places h hsub, by simp [hkind]⟩

/-- The origins of a name of a tree are names of the tree. -/
theorem origins_subset (hname : name ∈ t.places) :
    t.origins name ⊆ t.placesOf (· == .name) := by
  intro q hq
  simp only [origins] at hq
  cases hbody : outermostBody? name.scopes with
  | none => simp [hbody] at hq
  | some body =>
    simp only [hbody] at hq
    obtain ⟨scope, hscope, hscopeBody⟩ := outermostBody?_spec hbody
    have hbodyIn : body ∈ t.places := (scope_places hname hscope).2.1 body hscopeBody
    split at hq
    · cases hvalue : t.declaredValue? name.scopes (t.targetKey name) with
      | none => simp [hvalue] at hq
      | some value =>
        obtain ⟨inner, hinner, declarations, hdecl, d, hd, _, hinit⟩ := declaredValue?_spec hvalue
        have hdIn := children_subset_places ((scope_places hname hinner).2.2 declarations hdecl) hd
        have hvalueIn := children_subset_places hdIn (Place.initializer?_mem_children hinit)
        exact reads_subset hvalueIn (by simpa [hvalue] using hq)
    · obtain ⟨value, hvalue, hread⟩ := List.mem_flatMap.1 hq
      obtain ⟨statement, hstatement, target, hassign, _⟩ := mem_assignedValues.1 hvalue
      have hstatementIn := descendants_subset_places hbodyIn hstatement
      have hvalueIn : value ∈ t.places :=
        children_subset_places hstatementIn (by simp [(Place.assignment?_spec hassign).2])
      obtain ⟨hsub, hkind⟩ := valueReads_spec hread
      exact mem_placesOf.2 ⟨subtree_subset_places hvalueIn hsub, by simp [hkind]⟩

/-- No origin of a name labels an argument. -/
theorem origins_not_label (hq : q ∈ t.origins name) : q.isArgumentLabel = false := by
  simp only [origins] at hq
  split at hq
  · simp at hq
  · split at hq
    · cases hvalue : t.declaredValue? name.scopes (t.targetKey name) with
      | none => simp [hvalue] at hq
      | some value => exact (Place.reads_spec (p := value) (by simpa [hvalue] using hq)).2.2
    · obtain ⟨value, hvalue, hread⟩ := List.mem_flatMap.1 hq
      unfold valueReads at hread
      split at hread
      · obtain rfl := List.mem_singleton.1 hread
        obtain ⟨statement, _, target, hassign, _⟩ := mem_assignedValues.1 hvalue
        obtain ⟨hkind, hchildren⟩ := Place.assignment?_spec hassign
        have hparent : q.parent? = some statement :=
          Place.parent?_of_mem_children (by simp [hchildren])
        exact not_isArgumentLabel_of_parent hparent (by simp [hkind])
      · exact (Place.reads_spec hread).2.2

end Tree

end PlsqlAudit
