import PlsqlAudit.Proofs.PlainNames
import PlsqlAudit.Proofs.SearchAccount

/-!
# Names that are never assigned

Where nothing is assigned to a name, its origins are what its initial value reads.  The
declaration that counts is the first one of the nearest section that has one, and it
counts even if it gives no value, so that an inner declaration hides the outer ones.

The declaration is looked for under the key that the name has as the target of an
assignment, while declarations are known by the keys of names.  For a plain name the
two keys are the same text, and the nearest declaration of the name is found.  For any
other name it is not, and the declaration of another name may be found in its place.
-/

namespace PlsqlAudit

namespace Tree

variable {t : Tree} {declarations d n body : Place} {chain : List Scope} {key : String}

/-- A variable or constant with the given key is declared here. -/
structure Introduces (t : Tree) (d : Place) (key : String) : Prop where
  kind : d.kind.isDeclaration = true
  named : ∃ name, d.definingName? = some name ∧ t.nameKey name = key

/-- The first declaration of the section that introduces the key. -/
def FirstIn (t : Tree) (declarations : Place) (key : String) (d : Place) : Prop :=
  t.Introduces d key ∧ ∃ earlier later, declarations.children = earlier ++ d :: later ∧
    ∀ e ∈ earlier, ¬ t.Introduces e key

/-- The declaration of the key that is the first in its section, where no section further
in introduces the key. -/
def NearestIn (t : Tree) (chain : List Scope) (key : String) (d : Place) : Prop :=
  ∃ inner scope outer declarations, chain = inner ++ scope :: outer ∧
    scope.declarations = some declarations ∧ t.FirstIn declarations key d ∧
    ∀ nearer ∈ inner, ∀ others, nearer.declarations = some others →
      ∀ e ∈ others.children, ¬ t.Introduces e key

/-! ### Looking up a declaration -/

/-- A declaration introduces a key exactly if it is of a form that declares and its name has this
key. -/
theorem introduces_iff : t.Introduces d key ↔
    (d.kind.isDeclaration = true ∧ (d.definingName?.any fun name => t.nameKey name == key) = true) := by
  rw [Option.any_eq_true]
  simp only [beq_iff_eq]
  exact ⟨fun h => ⟨h.kind, h.named⟩, fun h => ⟨h.1, h.2⟩⟩

/-- The declaration that is looked up is the first one in the section to introduce the key. -/
theorem declaration?_eq_some :
    t.declaration? declarations key = some d ↔ t.FirstIn declarations key d := by
  rw [declaration?, List.find?_filter, List.find?_eq_some_iff_append]
  simp only [Bool.not_eq_true', decide_eq_true_eq, decide_eq_false_iff_not, ← introduces_iff]
  rfl

/-- The look-up finds nothing exactly if no declaration of the section introduces the key. -/
theorem declaration?_eq_none :
    t.declaration? declarations key = none ↔ ∀ e ∈ declarations.children, ¬ t.Introduces e key := by
  rw [declaration?, List.find?_filter, List.find?_eq_none]
  simp only [decide_eq_true_eq, ← introduces_iff]

/-- The declaration that decides what a key starts out with. -/
def nearest? (t : Tree) (chain : List Scope) (key : String) : Option Place :=
  chain.findSome? fun scope => scope.declarations.bind fun d => t.declaration? d key

/-- The declared value is the initial value in the nearest declaration, if that one has any. -/
theorem declaredValue?_eq : t.declaredValue? chain key =
    (t.nearest? chain key).bind Place.initializer? := by
  have hsections : ((chain.filterMap (·.declarations)).findSome? fun d => t.declaration? d key) =
      t.nearest? chain key := by
    induction chain with
    | nil => rfl
    | cons scope chain ih =>
      rw [nearest?, List.findSome?_cons, List.filterMap_cons]
      cases hsection : scope.declarations with
      | none => exact ih
      | some declarations =>
        rw [List.findSome?_cons, ih]
        rfl
  rw [declaredValue?, hsections]

/-- The nearest declaration is found in the first section, from the inside, that has one for the
key. -/
theorem nearest?_eq_some : t.nearest? chain key = some d ↔ t.NearestIn chain key d := by
  rw [nearest?, List.findSome?_eq_some_iff]
  constructor
  · rintro ⟨inner, scope, outer, hchain, hfound, hinner⟩
    obtain ⟨declarations, hsection, hd⟩ := Option.bind_eq_some_iff.1 hfound
    refine ⟨inner, scope, outer, declarations, hchain, hsection, declaration?_eq_some.1 hd, ?_⟩
    intro nearer hnearer others hothers
    have hnone := hinner nearer hnearer
    rw [hothers, Option.bind_some] at hnone
    exact declaration?_eq_none.1 hnone
  · rintro ⟨inner, scope, outer, declarations, hchain, hsection, hd, hinner⟩
    refine ⟨inner, scope, outer, hchain, ?_, ?_⟩
    · rw [hsection, Option.bind_some]
      exact declaration?_eq_some.2 hd
    · intro nearer hnearer
      cases hothers : nearer.declarations with
      | none => rfl
      | some others => exact declaration?_eq_none.2 (hinner nearer hnearer others hothers)

/-! ### Origins -/

/-- What is read when a variable with the given key starts out: what the nearest
declaration of the key reads for its value, and nothing where there is none. -/
structure InitialReads (t : Tree) (chain : List Scope) (key : String) (reads : List Place) :
    Prop where
  declared : ∀ d, t.NearestIn chain key d → reads = (d.initializer?.map Place.reads).getD []
  undeclared : (∀ d, ¬ t.NearestIn chain key d) → reads = []

/-- A name to which nothing is assigned. -/
structure Unassigned (t : Tree) (n body : Place) : Prop where
  hasBody : outermostBody? n.scopes = some body
  free : ∀ statement ∈ body.descendants, ∀ target value,
    statement.assignment? = some (target, value) → t.targetKey target ≠ t.targetKey n

/-- The origins of a name that is never assigned are what its declared value reads. -/
theorem Unassigned.origins_eq (h : t.Unassigned n body) :
    t.origins n = ((t.declaredValue? n.scopes (t.targetKey n)).map Place.reads).getD [] := by
  have hnone : t.assignedValues body (t.targetKey n) = [] := by
    rw [List.eq_nil_iff_forall_not_mem]
    intro value hvalue
    obtain ⟨statement, hstatement, target, hassign, hkey⟩ := mem_assignedValues.1 hvalue
    exact h.free statement hstatement target value hassign hkey
  simp only [origins, h.hasBody, hnone]

/-- The origins of a name that is never assigned are the reads of its nearest declaration,
whichever of the cases it falls under. -/
theorem Unassigned.initialReads (h : t.Unassigned n body) :
    t.InitialReads n.scopes (t.targetKey n) (t.origins n) := by
  rw [h.origins_eq, declaredValue?_eq]
  constructor
  · intro d hd
    rw [nearest?_eq_some.2 hd, Option.bind_some]
  · intro hnone
    have hnearest : t.nearest? n.scopes (t.targetKey n) = none := by
      rw [Option.eq_none_iff_forall_ne_some]
      intro d hd
      exact hnone d (nearest?_eq_some.1 hd)
    rw [hnearest]
    rfl

/-- **A name that is not assigned has its initial value for an origin.**  The declaration
is found under the key that the name has as a target.  That is the key of the name itself
exactly when the name is plain; so the origins of a plain name are what the initial value in
its nearest declaration reads, and there are none if this declaration gives no value, or if
there is no declaration. -/
theorem origins_of_unassigned (hbody : outermostBody? n.scopes = some body)
    (hfree : ∀ statement ∈ body.descendants, ∀ target value,
      statement.assignment? = some (target, value) → t.targetKey target ≠ t.targetKey n) :
    (IsPlain (t.text n) → t.InitialReads n.scopes (t.nameKey n) (t.origins n)) ∧
      (t.nameKey n = t.targetKey n ↔ IsPlain (t.text n)) ∧
      t.InitialReads n.scopes (t.targetKey n) (t.origins n) := by
  have h : t.Unassigned n body := ⟨hbody, hfree⟩
  refine ⟨fun hplain => ?_, nameKey_eq_targetKey, h.initialReads⟩
  have hkey : t.nameKey n = t.targetKey n := nameKey_eq_targetKey.2 hplain
  rw [hkey]
  exact h.initialReads

/-- Decides whether nothing below `body` is assigned to a name. -/
def isFree (t : Tree) (body n : Place) : Bool :=
  body.descendants.all fun statement =>
    statement.assignment?.all fun parts => t.targetKey parts.1 != t.targetKey n

/-- The test for names that are never assigned says yes exactly if no assignment in the body has
the key of the name as its target. -/
theorem isFree_iff : t.isFree body n = true ↔ ∀ statement ∈ body.descendants, ∀ target value,
    statement.assignment? = some (target, value) → t.targetKey target ≠ t.targetKey n := by
  simp only [isFree, List.all_eq_true, Option.all_eq_true, bne_iff_ne, Prod.forall]

/-- Looks for a name to which nothing is assigned and that passes a test together with
the nearest declaration of its key. -/
def findsUnassigned (test : Tree → Place → Place → Bool) (t : Tree) : Bool :=
  (t.placesOf (· == .name)).any fun n =>
    (outermostBody? n.scopes).any (t.isFree · n) && (t.nearest? n.scopes (t.nameKey n)).any (test t n)

/-- A tree that passes the search for unassigned names has such a name with a nearest declaration,
and both pass the test. -/
theorem exists_of_findsUnassigned {test : Tree → Place → Place → Bool}
    (h : findsUnassigned test t = true) :
    ∃ n body d, n ∈ t.placesOf (· == .name) ∧ outermostBody? n.scopes = some body ∧
      (∀ statement ∈ body.descendants, ∀ target value,
        statement.assignment? = some (target, value) → t.targetKey target ≠ t.targetKey n) ∧
      t.NearestIn n.scopes (t.nameKey n) d ∧ test t n d = true := by
  simp only [findsUnassigned, List.any_eq_true, Option.any_eq_true, Bool.and_eq_true,
    isFree_iff] at h
  obtain ⟨n, hn, ⟨body, hbody, hfree⟩, d, hd, htest⟩ := h
  exact ⟨n, body, d, hn, hbody, hfree, nearest?_eq_some.1 hd, htest⟩

/-- A name inside a block whose own section declares another name: the section of the
routine decides. -/
theorem origins_of_unassigned_of_block : ∃ t n body,
    parse "CREATE PROCEDURE p(x CHAR) IS \"V\" CHAR := x; BEGIN DECLARE w CHAR; BEGIN w := v; END; END;"
      = .ok t ∧ n ∈ t.placesOf (· == .name) ∧ outermostBody? n.scopes = some body ∧
      (∀ statement ∈ body.descendants, ∀ target value,
        statement.assignment? = some (target, value) → t.targetKey target ≠ t.targetKey n) ∧
      t.text n = "v" ∧ (t.origins n).map t.text = ["x"] ∧ IsPlain (t.text n) ∧
      t.InitialReads n.scopes (t.nameKey n) (t.origins n) := by
  obtain ⟨t, hparse, hfound⟩ := exists_parse
    "CREATE PROCEDURE p(x CHAR) IS \"V\" CHAR := x; BEGIN DECLARE w CHAR; BEGIN w := v; END; END;"
    (findsUnassigned fun t n _ => t.text n == "v" && (t.origins n).map t.text == ["x"])
    (by decide +kernel)
  obtain ⟨n, body, d, hn, hbody, hfree, hd, htest⟩ := exists_of_findsUnassigned hfound
  obtain ⟨htext, horigins⟩ := Bool.and_eq_true_iff.1 htest
  rw [beq_iff_eq] at htext horigins
  have hplain : IsPlain (t.text n) := by
    rw [htext]
    exact nameKey_eq_targetKey.1 (by decide +kernel)
  exact ⟨t, n, body, hparse, hn, hbody, hfree, htext, horigins, hplain,
    (origins_of_unassigned hbody hfree).1 hplain⟩

/-- **A name with a blank in it is not resolved.**  Nothing is assigned to the quoted name, it
is declared with a parameter for its value, and it has no origins. -/
theorem quoted_blank_not_resolved : ∃ t n body d,
    parse "CREATE PROCEDURE p(x CHAR) IS \"a b\" CHAR := x; BEGIN EXECUTE IMMEDIATE \"a b\"; END;"
      = .ok t ∧ n ∈ t.placesOf (· == .name) ∧ outermostBody? n.scopes = some body ∧
      (∀ statement ∈ body.descendants, ∀ target value,
        statement.assignment? = some (target, value) → t.targetKey target ≠ t.targetKey n) ∧
      t.NearestIn n.scopes (t.nameKey n) d ∧
      t.origins n ≠ (d.initializer?.map Place.reads).getD [] := by
  obtain ⟨t, hparse, hfound⟩ := exists_parse
    "CREATE PROCEDURE p(x CHAR) IS \"a b\" CHAR := x; BEGIN EXECUTE IMMEDIATE \"a b\"; END;"
    (findsUnassigned fun t n d => (t.origins n).isEmpty &&
      !((d.initializer?.map Place.reads).getD []).isEmpty) (by decide +kernel)
  obtain ⟨n, body, d, hn, hbody, hfree, hd, htest⟩ := exists_of_findsUnassigned hfound
  obtain ⟨hempty, hreads⟩ := Bool.and_eq_true_iff.1 htest
  refine ⟨t, n, body, d, hparse, hn, hbody, hfree, hd, ?_⟩
  intro hsame
  rw [hsame] at hempty
  simp [hempty] at hreads

end Tree

end PlsqlAudit
