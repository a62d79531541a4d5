import PlsqlAudit.Arena.Statement
import PlsqlAudit.Proofs.BuiltBodies

/-!
# Declarations and statements are built as they are read

A statement is put below the node it belongs to.  An assignment or a call is made of trees
that are there already; every other statement is made first and then filled.
-/

namespace PlsqlAudit.Build

open PlsqlAudit.Parser

variable {r : Rules} {a : Builders} {b b₀ b₁ b₂ : Builder} {node parent : NodeId}

/-! ### Declarations -/

/-- The declaration of a variable, built into an arena, hangs one node under its parent: the node
that the grammar gives. -/
theorem variableDeclaration_fills (h : RulesBuild r a) :
    Fills parent (fun n => [n]) (Grammar.variableDeclaration r) (variableDeclaration a parent) := by
  intro b
  refine .read fun name => .addChild fun node b₁ hopen => ?_
  refine .addLeaf (.refl b₁ node) fun _ b₂ h₂ => .read fun _ => ?_
  extract_lets rest valued' rest'
  have hrest (kind : Kind) (b₃ : Builder)
      (h₃ : b.Grown (some parent) [.mk kind name.span [.leaf .definingName name.span]] [node] b₃) :
      Follows b₃ (fun n _ b' => b.Filled parent [n] b') (rest kind) (rest' ()) := by
    refine .fill (dataType_fills .declaration) (.refl b₃ node) fun type b₄ h₄ => .read fun _ => ?_
    extract_lets valued
    have hvalued : Follows b₄ (fun n _ b' => b.Filled parent [n] b') (valued ()) (valued' ()) := by
      refine .fill (defaultValue_fills h) h₄ fun value b₅ h₅ => ?_
      exact .read fun finish => .closed (h₅.graft h₃) rfl
    exact .ite (fun _ => .read fun _ => hvalued) fun _ => hvalued
  have hnamed := h₂.graft hopen
  refine .ite (fun _ => .setKind ?_) fun _ => hrest _ b₂ hnamed
  exact hrest _ _ (hnamed.setKind .constantDeclaration)

/-- A declaration hangs one node under its parent, whichever of the kinds of declaration its first
words select. -/
theorem declaration_fills (h : RulesBuild r a) :
    Fills parent (fun n => [n]) (Grammar.declaration r) (declaration a parent) := by
  intro b
  refine .read fun s => .ite (fun _ => routine_fills h _ _ b) fun _ => ?_
  refine .ite (fun _ => routine_fills h _ _ b) fun _ => ?_
  refine .ite (fun _ => skipped_fills _ b) fun _ => ?_
  exact .ite (fun _ => variableDeclaration_fills h b) fun _ => .unexpected _

/-! ### Statements with statements inside -/

/-- An assignment or a call hangs one node under its parent, made only when its target has been
read. -/
theorem simpleStatement_fills (h : RulesBuild r a) :
    Fills parent (fun n => [n]) (Grammar.simpleStatement r) (simpleStatement a parent) := by
  intro b
  refine .read fun start => (postfixed_builds h b).bind fun n target b₁ h₁ => .read fun _ => ?_
  extract_lets rest rest'
  have hrest (kind : Kind) (parts : List Node) (node : NodeId) (b₂ : Builder)
      (h₂ : b.Grown (some parent) [.mk kind start parts] [node] b₂) :
      Follows b₂ (fun n _ b' => b.Filled parent [n] b') (rest (kind, parts)) (rest' node) :=
    .read fun finish => .closed h₂ rfl
  refine .ite (fun _ => ?_) fun _ => .gatherChild h₁ (hrest _ _)
  refine (h.expression b₁).bind fun m value b₂ h₂ => ?_
  exact .gatherChild (h₁.trans h₂) (hrest _ _)

/-- A condition with its statements fills the node it belongs to: the condition is attached first,
then the statements in their order. -/
theorem guarded_fills (h : RulesBuild r a) :
    Fills node id (Grammar.guarded r) (guarded a node) := by
  intro b
  refine .fill (h.expression.under node) (.refl b node) fun condition b₁ h₁ => .read fun _ => ?_
  exact ((statements_fills h _) b₁).map fun list _ b₂ h₂ => h₁.trans h₂

/-- A further branch of an `IF` statement fills the same node as the branches in front of it. -/
theorem ifBranch_fills (h : RulesBuild r a) :
    Fills node id (Grammar.ifBranch r) (ifBranch a node) := fun b =>
  .read fun _ => .ite (fun _ => guarded_fills h b) fun _ => .read fun _ => statements_fills h _ b

/-- An `IF` statement hangs one node under its parent, filled with its conditions and statements
while they are read. -/
theorem ifStatement_fills (h : RulesBuild r a) :
    Fills parent (fun n => [n]) (Grammar.ifStatement r) (ifStatement a parent) := by
  intro b
  refine .read fun start => .addChild fun node b₁ hopen => ?_
  refine .fill (guarded_fills h) (.refl b₁ node) fun first b₂ h₂ => ?_
  refine (Follows.each _ (ifBranch_fills h)).bind fun others _ b₃ h₃ => ?_
  refine .read fun _ => .read fun _ => .read fun finish => ?_
  refine .closed ((h₂.trans h₃.2).graft hopen) ?_
  simp

/-- A choice of a `CASE` statement fills the node of the statement with the choice and with what is
done then. -/
theorem choiceBranch_fills (h : RulesBuild r a) :
    Fills node id (Grammar.choiceBranch r) (choiceBranch a node) := by
  intro b
  refine .read fun _ => .fill (h.expression.under node) (.refl b node) fun choice b₁ h₁ => ?_
  exact .read fun _ => ((statements_fills h _) b₁).map fun list _ b₂ h₂ => h₁.trans h₂

/-- A `CASE` statement hangs one node under its parent, with the selector as its first child if
there is one. -/
theorem caseStatement_fills (h : RulesBuild r a) :
    Fills parent (fun n => [n]) (Grammar.caseStatement r) (caseStatement a parent) := by
  intro b
  refine .read fun start => .addChild fun node b₁ hopen => .read fun s => ?_
  refine .fillUnless (fun _ => h.expression.under node) (fun _ => rfl) (.refl b₁ node)
    fun selector b₂ h₂ => ?_
  refine (Follows.each _ (choiceBranch_fills h)).bind fun branches _ b₃ h₃ => .read fun _ => ?_
  extract_lets rest rest'
  have hrest (otherwise : List Node) (b₄ : Builder)
      (h₄ : b₁.Filled node (selector ++ branches.flatten ++ otherwise) b₄) :
      Follows b₄ (fun n _ b' => b.Filled parent [n] b') (rest otherwise) (rest' ()) :=
    .read fun _ => .read fun _ => .read fun _ => .read fun finish => .closed (h₄.graft hopen) rfl
  have hbranches : b₁.Filled node (selector ++ branches.flatten) b₃ := by
    simpa using h₂.trans h₃.2
  refine .ite (fun _ => ?_) fun _ => hrest [] b₃ (by simpa using hbranches)
  exact .fill (statements_fills h _) hbranches fun otherwise b₄ h₄ => hrest otherwise b₄ h₄

/-- Each of the loops hangs one node under its parent, with what bounds the loop in front of its
statements. -/
theorem loopStatement_fills (h : RulesBuild r a) :
    Fills parent (fun n => [n]) (Grammar.loopStatement r) (loopStatement a parent) := by
  intro b
  refine .read fun start => .addChild fun node b₁ hopen => .read fun _ => ?_
  extract_lets rest rest'
  have hlooped (condition : List Node) (b₂ : Builder) (h₂ : b₁.Filled node condition b₂) :
      Follows b₂ (fun n _ b' => b.Filled parent [n] b')
        (do
          let _ ← expectWord "loop"
          let list ← Grammar.statements r ["end"]
          let _ ← expectWord "end"
          let _ ← expectWord "loop"
          eatEndLabel
          let finish ← expect .semicolon ";"
          return .mk .loopStatement (start.cover finish.span) (condition ++ list))
        (rest' ()) := by
    refine .read fun _ => .fill (statements_fills h _) h₂ fun list b₃ h₃ => ?_
    refine .read fun _ => .read fun _ => .read fun _ => .read fun finish => ?_
    exact .closed (h₃.graft hopen) rfl
  refine .ite (fun _ => ?_) fun _ => ?_
  · exact .fill (h.expression.under node) (.refl b₁ node) fun n b₂ h₂ => hlooped [n] b₂ h₂
  · have hbare := hlooped [] b₁ (.refl b₁ node)
    rw [pure_bind]
    simp only [rest, List.isEmpty_nil, if_true]
    exact .read fun _ => .ite (fun _ => .read fun _ => hbare) fun _ => hbare

/-- A `FORALL` statement hangs one node under its parent, and the repeated statement below this
node. -/
theorem forallStatement_fills (h : RulesBuild r a) :
    Fills parent (fun n => [n]) (Grammar.forallStatement r) (forallStatement a parent) := by
  intro b
  refine .read fun start => .addChild fun node b₁ hopen => .read fun _ => ?_
  refine .fill (h.statement node) (.refl b₁ node) fun inner b₂ h₂ => ?_
  exact .read fun last => .closed (h₂.graft hopen) rfl

/-! ### Statements that run dynamic SQL -/

/-- A bind argument hangs its expression under the clause, with the words of its mode left out. -/
theorem bindArgument_fills (h : RulesBuild r a) :
    Fills node (fun n => [n]) (Grammar.bindArgument r) (bindArgument a node) := fun b =>
  .read fun _ => .read fun _ => (h.expression.under node) b

/-- A `USING` clause hangs one node under the statement, filled with the arguments as they come. -/
theorem usingClause_fills (h : RulesBuild r a) :
    Fills parent (fun n => [n]) (Grammar.usingClause r) (usingClause a parent) := by
  intro b
  refine .read fun start => .addChild fun node b₁ hopen => ?_
  refine .fill (.listed (bindArgument_fills h)) (.refl b₁ node) fun binds b₂ h₂ => ?_
  refine .read fun last => .closed (h₂.graft hopen) ?_
  simp

/-- An `INTO` clause hangs one leaf under the statement: the names it lists are not kept. -/
theorem intoClause_fills :
    Fills parent (fun n => [n]) Grammar.intoClause (intoClause parent) := by
  intro b
  refine .read fun start => .addChild fun node b₁ hopen => .read fun _ => ?_
  exact .read fun last => .closed hopen rfl

/-- A clause of a dynamic statement hangs one node under the statement, whichever word it starts
with. -/
theorem executeClause_fills (h : RulesBuild r a) :
    Fills node (fun n => [n]) (Grammar.executeClause r) (executeClause a node) := fun b =>
  .read fun _ => .ite (fun _ => usingClause_fills h b) fun _ => intoClause_fills b

/-- An `EXECUTE IMMEDIATE` statement hangs one node under its parent: the operand first, and each
clause behind it. -/
theorem executeImmediate_fills (h : RulesBuild r a) :
    Fills parent (fun n => [n]) (Grammar.executeImmediate r) (executeImmediate a parent) := by
  intro b
  refine .read fun start => .read fun _ => .addChild fun node b₁ hopen => ?_
  refine .fill (h.expression.under node) (.refl b₁ node) fun sql b₂ h₂ => ?_
  refine (Follows.each _ (executeClause_fills h)).bind fun clauses _ b₃ h₃ => ?_
  refine .read fun finish => .closed ((h₂.trans h₃.2).graft hopen) ?_
  simp

/-- The query behind `OPEN … FOR` hangs one node under the statement, be it a static query or an
expression. -/
theorem openedQuery_fills (h : RulesBuild r a) :
    Fills node (fun n => [n]) (Grammar.openedQuery r) (openedQuery a node) := by
  intro b
  refine .read fun s => .ite (fun _ => ?_) fun _ => (h.expression.under node) b
  exact .read fun _ => .addChild fun query b₁ hopen => .read fun last => .closed hopen rfl

/-- An `OPEN` statement hangs one node under its parent, with the cursor and the query below it. -/
theorem openStatement_fills (h : RulesBuild r a) :
    Fills parent (fun n => [n]) (Grammar.openStatement r) (openStatement a parent) := by
  intro b
  refine .read fun s => .ite (fun _ => skipped_fills _ b) fun _ => ?_
  refine .read fun start => .addChild fun node b₁ hopen => ?_
  refine .fill ((postfixed_builds h).under node) (.refl b₁ node) fun cursor b₂ h₂ => ?_
  refine .read fun _ => .fill (openedQuery_fills h) h₂ fun query b₃ h₃ => .read fun s => ?_
  refine .fillIf (fun _ => usingClause_fills h) (fun _ => rfl) h₃ fun clause b₄ h₄ => ?_
  exact .read fun finish => .closed (h₄.graft hopen) rfl

/-! ### Other statements -/

/-- A `RETURN` statement hangs one node under its parent, with the returned expression below it if
there is one. -/
theorem returnStatement_fills (h : RulesBuild r a) :
    Fills parent (fun n => [n]) (Grammar.returnStatement r) (returnStatement a parent) := by
  intro b
  refine .read fun start => .addChild fun node b₁ hopen => .read fun s => ?_
  refine .fillUnless (fun _ => h.expression.under node) (fun _ => rfl) (.refl b₁ node)
    fun value b₂ h₂ => ?_
  exact .read fun finish => .closed (h₂.graft hopen) rfl

/-- A `NULL` statement hangs one leaf under its parent. -/
theorem nullStatement_fills :
    Fills parent (fun n => [n]) Grammar.nullStatement (nullStatement parent) := fun _ =>
  .read fun _ => .addChild fun _ _ hopen => .read fun _ => .closed hopen rfl

/-- The statement that a word starts hangs one node under its parent, whichever rule the word
selects. -/
theorem wordStatement_fills (h : RulesBuild r a) (word : String) (s : Stream) :
    Fills parent (fun n => [n]) (Grammar.wordStatement r word s)
      (wordStatement a word s parent) := by
  intro b
  refine .ite (fun _ => block_fills h b) fun _ => ?_
  refine .ite (fun _ => ifStatement_fills h b) fun _ => ?_
  refine .ite (fun _ => caseStatement_fills h b) fun _ => ?_
  refine .ite (fun _ => loopStatement_fills h b) fun _ => ?_
  refine .ite (fun _ => forallStatement_fills h b) fun _ => ?_
  refine .ite (fun _ => executeImmediate_fills h b) fun _ => ?_
  refine .ite (fun _ => openStatement_fills h b) fun _ => ?_
  refine .ite (fun _ => returnStatement_fills h b) fun _ => ?_
  refine .ite (fun _ => skipped_fills _ b) fun _ => ?_
  refine .ite (fun _ => nullStatement_fills b) fun _ => ?_
  refine .ite (fun _ => skipped_fills _ b) fun _ => ?_
  exact .ite (fun _ => skipped_fills _ b) fun _ => simpleStatement_fills h b

/-- A statement hangs one node under its parent, or none at all where a label or a lone semicolon
was read. -/
theorem statement_fills (h : RulesBuild r a) :
    Fills parent Option.toList (Grammar.statement r) (statement a parent) := by
  intro b
  refine .read fun s => ?_
  cases s.kind
  case labelOpen =>
    exact .ite (fun _ => (block_fills h).some b) fun _ => Fills.none _ b
  case semicolon => exact .read fun _ => .pure (.refl b parent)
  case word => exact (wordStatement_fills h _ s).some b
  all_goals exact (simpleStatement_fills h).some b

end PlsqlAudit.Build
