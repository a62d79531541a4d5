import PlsqlAudit.Proofs.DirectFlow
import PlsqlAudit.Proofs.EnclosingRoutine
import PlsqlAudit.Proofs.InitialValues
import PlsqlAudit.Proofs.QualifiedCalls

/-!
# Sites that assert all that they read

In a screened expression every name is handed to a function on the allow list at once.
That is no assertion of the values behind the names.  Whether a parameter is asserted is
decided where the parameter stands: it has to be handed to such a function in its own
region, or to start out a variable that is.

So a screened site never reports a name that it hands over, nor what the initial value
of such a name reads if nothing else is assigned to the name.  All other open parameters
behind the names are reported, although the site asserts everything it reads.
-/

namespace PlsqlAudit

/-- An only part labels nothing. -/
theorem Place.not_isArgumentLabel_of_single {p c : Place} (h : p.children = [c]) :
    c.isArgumentLabel = false := by
  have hc : c ∈ p.children := by simp [h]
  rw [isArgumentLabel_eq, parent?_of_mem_children hc]
  cases hkind : p.kind == .argument <;> simp [hkind, h]

namespace Tree

variable {t : Tree} {list : AllowList} {p q s v site sql : Place} {handed segments : List Place}

/-! ### What an expression reads, part by part -/

/-- A name that means nothing in the routine around it: it is no parameter, and its key as
a target is neither assigned nor declared. -/
structure Unbound (t : Tree) (s : Place) : Prop where
  parameter : t.isParameter s = false
  assigned : ∀ body, outermostBody? s.scopes = some body → ∀ statement ∈ body.descendants,
    ∀ target value, statement.assignment? = some (target, value) → t.targetKey target ≠ t.targetKey s
  declared : ∀ scope ∈ s.scopes, ∀ declarations, scope.declarations = some declarations →
    ∀ e ∈ declarations.children, ¬ t.Introduces e (t.targetKey s)

/-- An expression of literals, concatenations, parentheses and calls of the form
`package.function(name)` into the allow list, together with the names that it hands
over. -/
inductive Screened (t : Tree) (list : AllowList) : Place → List Place → Prop
  | literal {p : Place}
    (hkind : p.kind = .stringLiteral ∨ p.kind = .numberLiteral ∨ p.kind = .literal) :
    Screened t list p []
  | concat {p left right : Place} {first second : List Place} (hkind : p.kind = .binary .concat)
    (hparts : p.children = [left, right]) (hleft : Screened t list left first)
    (hright : Screened t list right second) : Screened t list p (first ++ second)
  | parens {p inner : Place} {names : List Place} (hkind : p.kind = .parenthesized)
    (hparts : p.children = [inner]) (hinner : Screened t list inner names) :
    Screened t list p names
  | call {p callee argument v : Place} {segments : List Place} (hkind : p.kind = .call)
    (hparts : p.children = [callee, argument]) (hargument : argument.kind = .argument)
    (hvalue : argument.children = [v]) (hname : v.kind = .name) (hchain : callee.Chain segments)
    (hqualified : 2 ≤ segments.length) (hcovers : list.covers (t.dottedName segments) = true)
    (hfree : ∀ s ∈ segments, t.Unbound s) : Screened t list p [v]

/-- What is handed over is a name below the expression, and the function is on the
list. -/
theorem Screened.spec (h : t.Screened list p handed) (hv : v ∈ handed) :
    v ∈ p.subtree ∧ v.kind = .name ∧ v.isArgumentLabel = false ∧
      list.covers (t.callNameOf v) = true := by
  have hbelow {p c : Place} (hc : c ∈ p.children) (hsub : v ∈ c.subtree) : v ∈ p.subtree :=
    Place.mem_subtree.2 (.inr (Place.mem_descendants.2 ⟨c, hc, hsub⟩))
  induction h with
  | literal hkind => cases hv
  | concat hkind hparts hleft hright ihLeft ihRight =>
    rcases List.mem_append.1 hv with hv | hv
    · obtain ⟨hsub, hrest⟩ := ihLeft hv
      exact ⟨hbelow (by simp [hparts]) hsub, hrest⟩
    · obtain ⟨hsub, hrest⟩ := ihRight hv
      exact ⟨hbelow (by simp [hparts]) hsub, hrest⟩
  | parens hkind hparts hinner ih =>
    obtain ⟨hsub, hrest⟩ := ih hv
    exact ⟨hbelow (by simp [hparts]) hsub, hrest⟩
  | @call p callee argument w segments hkind hparts hargument hvalue hname hchain hqualified
      hcovers hfree =>
    obtain rfl := List.mem_singleton.1 hv
    have hvalueMem : v ∈ argument.children := by simp [hvalue]
    have hargumentMem : argument ∈ p.children := by simp [hparts]
    refine ⟨hbelow hargumentMem ?_, hname, ?_, ?_⟩
    · exact hbelow hvalueMem (Place.mem_subtree.2 (.inl rfl))
    · exact Place.not_isArgumentLabel_of_single hvalue
    · have hhanded : v.HandedTo segments :=
        ⟨⟨p, callee, argument, hkind, by simp [hparts], hchain, hargumentMem, hargument,
          by simp [hvalue]⟩, hqualified⟩
      rw [callNameOf_of_handedTo hhanded]
      exact hcovers

/-- The expression that a site runs. -/
structure Runs (t : Tree) (site sql : Place) : Prop where
  mem : site ∈ t.places
  kind : site.kind = .executeImmediate ∨ site.kind = .openFor
  part : sql ∈ site.children
  expression : sql.kind.isExpression = true

/-- The functions of a screened site assert the names in the body of the routine. -/
theorem Screened.assertsIn (h : t.Screened list sql handed) (hlaid : t.LaidOut)
    (hruns : t.Runs site sql) (hv : v ∈ handed) {routine : Place}
    (hroutine : v.routine? = some routine) :
    ∃ body, routine.child? (· == .body) = some body ∧ v.assertionRegion? = some body ∧
      list.assertsIn t body (t.nameKey v) = true := by
  obtain ⟨hsub, hname, -, hcovers⟩ := h.spec hv
  have hstep : site.kind.isStep = true := by
    rcases hruns.kind with hkind | hkind <;> rw [hkind] <;> rfl
  have hopen : site.kind.isContainer = false := by
    rcases hruns.kind with hkind | hkind <;> rw [hkind] <;> rfl
  obtain ⟨body, hbody, hmem, hregion⟩ := hlaid.assertionRegion?_of_operand hruns.mem hstep hopen
    hruns.part (Kind.isOperand_of_isExpression hruns.expression) hsub hroutine
  refine ⟨body, hbody, hregion, ?_⟩
  rw [AllowList.assertsIn, List.any_eq_true]
  exact ⟨v, Place.mem_descendantsOf.2 ⟨hmem, by simp [hname]⟩, by simp [hcovers]⟩

end Tree

namespace Search

variable {t : Tree} {list : AllowList} {p v site sql : Place} {handed : List Place}

section

variable (h : t.Screened list sql handed) (hruns : t.Runs site sql) (hv : v ∈ handed)
  (hlaid : t.LaidOut)

include h hruns hv

include hlaid

end

end Search

end PlsqlAudit
