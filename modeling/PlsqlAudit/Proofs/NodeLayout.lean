import PlsqlAudit.Proofs.ProgramSpelling
import PlsqlAudit.Proofs.SearchAccount

/-!
# The parts of every construct are found

Every node of a program follows the layout of its kind (`Tree.LaidOut`), and the
functions that name the parts of a construct count on it: they answer `none` on
anything else.  So on a program an assignment always has its target and value, an
`EXECUTE IMMEDIATE` always has the expression it runs, and an `OPEN … FOR` lacks
one only where its query is written out.

Expressions hold expressions and arguments, and nothing else.  So whoever looks
for the names in an expression never enters another routine or block.
-/

namespace PlsqlAudit

namespace Kind

theorem isOperand_of_isExpression {kind : Kind} (h : kind.isExpression = true) :
    kind.isOperand = true := by
  simp [isOperand, h]

theorem not_isContainer_of_isOperand {kind : Kind} (h : kind.isOperand = true) :
    kind.isContainer = false := by
  cases kind <;> simp [isOperand, isExpression] at h <;> rfl

theorem not_isClause_of_isExpression {kind : Kind} (h : kind.isExpression = true) :
    kind.isClause = false := by
  cases kind <;> simp [isExpression] at h <;> rfl

/-- What stands inside an expression has nothing else inside it. -/
theorem Layout.isOperand {kind part : Kind} {parts : List Kind} (h : kind.Layout parts)
    (hkind : kind.isOperand = true) (hpart : part ∈ parts) : part.isOperand = true := by
  cases kind <;> simp [Kind.isOperand, isExpression] at hkind <;>
    simp only [Layout, AtMostOne] at h <;> grind [Kind.isOperand, isExpression]

end Kind

namespace Tree

variable {source : String} {t : Tree} {p q : Place}

/-- In an expression there are expressions and arguments only. -/
theorem LaidOut.isOperand (h : t.LaidOut) (hp : p ∈ t.places) (hkind : p.kind.isOperand = true)
    (hq : q ∈ p.descendants) : q.kind.isOperand = true := by
  induction p using Place.induction_below with
  | step p ih =>
    obtain ⟨c, hc, hqc⟩ := Place.mem_descendants.1 hq
    have hpart : c.kind.isOperand = true := (h p hp).isOperand hkind (List.mem_map_of_mem hc)
    rcases Place.mem_subtree.1 hqc with rfl | hqc
    · exact hpart
    · exact ih c hc (children_subset_places hp hc) hpart hqc

/-- The target and the value of an assignment are found. -/
theorem LaidOut.assignment?_eq_some (h : t.LaidOut) (hp : p ∈ t.places)
    (hkind : p.kind = .assignment) :
    ∃ target value, p.assignment? = some (target, value) ∧ p.children = [target, value] := by
  have hlayout := h p hp
  rw [hkind] at hlayout
  obtain ⟨targetKind, valueKind, hparts, -, -⟩ := hlayout
  obtain ⟨target, rest, hchildren, -, hrest⟩ := List.map_eq_cons_iff.1 hparts
  obtain ⟨value, others, rfl, -, hothers⟩ := List.map_eq_cons_iff.1 hrest
  obtain rfl := List.map_eq_nil_iff.1 hothers
  exact ⟨target, value, by simp [Place.assignment?, hkind, hchildren], hchildren⟩

/-- The expression that is executed is found: it is the first part. -/
theorem LaidOut.executedSql?_eq_some (h : t.LaidOut) (hp : p ∈ t.places)
    (hkind : p.kind = .executeImmediate) :
    ∃ sql, p.executedSql? = some sql ∧ p.children.head? = some sql ∧
      sql.kind.isExpression = true := by
  have hlayout := h p hp
  rw [hkind] at hlayout
  obtain ⟨sqlKind, clauses, hparts, hsql, -⟩ := hlayout
  obtain ⟨sql, rest, hchildren, rfl, -⟩ := List.map_eq_cons_iff.1 hparts
  have hclause := Kind.not_isClause_of_isExpression hsql
  exact ⟨sql, by simp [Place.executedSql?, hkind, hchildren, hclause], by simp [hchildren], hsql⟩

/-- What a cursor is opened for is its second part, and is found unless it is a
query that is written out. -/
theorem LaidOut.openedSql?_eq (h : t.LaidOut) (hp : p ∈ t.places) (hkind : p.kind = .openFor) :
    ∃ query, p.children[1]? = some query ∧ query.kind.isExpression = true ∧
      p.openedSql? = if query.kind = .staticQuery then none else some query := by
  have hlayout := h p hp
  rw [hkind] at hlayout
  obtain ⟨cursorKind, queryKind, clauses, hparts, -, hquery, -⟩ := hlayout
  obtain ⟨cursor, rest, hchildren, -, hrest⟩ := List.map_eq_cons_iff.1 hparts
  obtain ⟨query, others, rfl, rfl, -⟩ := List.map_eq_cons_iff.1 hrest
  have hclause := Kind.not_isClause_of_isExpression hquery
  refine ⟨query, by simp [hchildren], hquery, ?_⟩
  by_cases hstatic : query.kind = .staticQuery
  · simp [Place.openedSql?, hkind, hchildren, hstatic]
  · simp [Place.openedSql?, hkind, hchildren, hclause, hstatic]

/-- What the analyses count on. -/
structure PartsFound (t : Tree) : Prop where
  /-- Every node has the parts that the layout of its kind asks for, in order. -/
  layout : t.LaidOut
  /-- An assignment has its target and its value. -/
  assigned : ∀ p ∈ t.places, p.kind = .assignment →
    ∃ target value, p.assignment? = some (target, value) ∧ p.children = [target, value]
  /-- An `EXECUTE IMMEDIATE` has the expression it runs. -/
  executed : ∀ p ∈ t.places, p.kind = .executeImmediate →
    ∃ sql, p.executedSql? = some sql ∧ p.children.head? = some sql ∧ sql.kind.isExpression = true
  /-- An `OPEN … FOR` has the expression it runs, unless its query is written out. -/
  opened : ∀ p ∈ t.places, p.kind = .openFor →
    ∃ query, p.children[1]? = some query ∧ query.kind.isExpression = true ∧
      (p.openedSql? = none ↔ query.kind = .staticQuery) ∧
      ∀ sql, p.openedSql? = some sql → sql = query
  /-- No unit, routine or block stands inside an expression. -/
  closed : ∀ p ∈ t.places, p.kind.isExpression = true →
    ∀ q ∈ p.descendants, q.kind.isContainer = false

/-- **The parts of every construct of a program are found.**  Every node has the parts that
its kind is laid out with, so what is asked of an assignment, of a site of dynamic SQL or of
an expression has an answer at every place of a program. -/
theorem partsFound_of_parse (h : parse source = .ok t) : t.PartsFound := by
  have hlaid := laidOut_of_parse h
  constructor
  · exact hlaid
  · intro p hp hkind
    exact hlaid.assignment?_eq_some hp hkind
  · intro p hp hkind
    exact hlaid.executedSql?_eq_some hp hkind
  · intro p hp hkind
    obtain ⟨query, hquery, hexpression, hopened⟩ := hlaid.openedSql?_eq hp hkind
    refine ⟨query, hquery, hexpression, ?_⟩
    by_cases hstatic : query.kind = .staticQuery
    · simp [hopened, hstatic]
    · simp [hopened, hstatic, eq_comm]
  · intro p hp hkind q hq
    apply Kind.not_isContainer_of_isOperand
    exact hlaid.isOperand hp (Kind.isOperand_of_isExpression hkind) hq

/-- A cursor that is opened for a query, one that is opened for a call with a label,
and a text that is executed. -/
theorem partsFound_of_parse_of_cursor : ∃ t,
    parse "BEGIN OPEN c FOR SELECT 1; OPEN c FOR r.s(p => x); EXECUTE IMMEDIATE x USING y; END;" =
        .ok t ∧
      (t.placesOf (· == .openFor)).map (fun p => p.openedSql?.isSome) = [false, true] ∧
      (t.placesOf (· == .executeImmediate)).length = 1 ∧ t.PartsFound := by
  obtain ⟨t, hparse, htest⟩ := exists_parse
    "BEGIN OPEN c FOR SELECT 1; OPEN c FOR r.s(p => x); EXECUTE IMMEDIATE x USING y; END;"
    (fun t => (t.placesOf (· == .openFor)).map (fun p => p.openedSql?.isSome) == [false, true] &&
      (t.placesOf (· == .executeImmediate)).length == 1) (by decide +kernel)
  simp only [Bool.and_eq_true, beq_iff_eq] at htest
  exact ⟨t, hparse, htest.1, htest.2, partsFound_of_parse hparse⟩

end Tree

end PlsqlAudit
