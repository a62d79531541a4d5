import PlsqlAudit.Proofs.Building

/-!
# Expressions are built as they are read

Every reader that builds an expression makes the tree that its counterpart answers with, as
a tree of its own.  An operand that has been built stays detached until its operator is
made, so what has grown is carried along from the time before the operand.
-/

namespace PlsqlAudit.Build

open PlsqlAudit.Parser

/-- The readers `a` build what the rules `r` read. -/
structure RulesBuild (r : Rules) (a : Builders) : Prop where
  expression : Builds r.expression a.expression
  negation : Builds r.negation a.negation
  signed : Builds r.signed a.signed
  statement : ∀ node, Fills node Option.toList r.statement (a.statement node)
  declaration : ∀ node, Fills node (fun n => [n]) r.declaration (a.declaration node)

variable {r : Rules} {a : Builders} {b b₀ b₁ b₂ : Builder} {node lhs rhs : NodeId}

/-! ### Operators between operands -/

/-- Two operands that were built one after the other, joined by an operator, make the node that the
grammar makes of their nodes. -/
theorem binary_follows {l n : Node} (op : BinaryOp) (hl : b₀.Grown none [l] [lhs] b₁)
    (hn : b₁.Grown none [n] [rhs] b₂) :
    Follows b₂ (fun n id b' => b₀.Grown none [n] [id] b') (pure (Grammar.binary op l n))
      (binary op lhs rhs) := by
  have hboth := hl.trans hn
  refine .spanOf (.spanOf (.gather hboth fun hsmall => ?_))
  rw [hboth.span_head hsmall, hboth.span_last hsmall]
  rfl

/-- An operand that was built, with an operator in front of it, makes the node that the grammar
makes of its node. -/
theorem unary_follows {n : Node} (op : UnaryOp) (start : Span) (hn : b₀.Grown none [n] [rhs] b₂) :
    Follows b₂ (fun n id b' => b₀.Grown none [n] [id] b') (pure (Grammar.unary op start n))
      (unary op start rhs) := by
  refine .spanOf (.gather hn fun hsmall => ?_)
  rw [hn.span_head hsmall]
  rfl

/-- A chain of operators is built from the left: the node made so far becomes the left operand of
the next one. -/
theorem chain_builds {operand : Parser Node} {operand' : Build NodeId}
    (h : Builds operand operand') (operator? : Stream → Option BinaryOp) :
    Builds (Grammar.chain operand operator?) (chain operand' operator?) := by
  intro b
  refine (h b).bind fun first id b₁ h₁ => ?_
  refine .repeatedly (fun l lhs b₂ h₂ => .read fun s => ?_) h₁
  cases operator? s with
  | none => exact .pure h₂
  | some op =>
    refine .read fun _ => (h b₂).bind fun n rhs b₃ h₃ => ?_
    exact .work (binary_follows op h₂ h₃) fun _ _ h₄ => .pure h₄

/-! ### Primary expressions -/

/-- A date or an interval is one leaf, from its word to its last field. -/
theorem datedLiteral_builds : Builds Grammar.datedLiteral datedLiteral := fun b =>
  .read fun _ => .read fun _ => .read fun _ => .read fun _ => .leaf b _ _

/-- A list in parentheses is made when it opens, and its elements are attached while they are read.
A subquery is a leaf. -/
theorem parenthesized_builds (h : RulesBuild r a) :
    Builds (Grammar.parenthesized r) (parenthesized a) := by
  intro b
  refine .read fun opening => .read fun s => .ite (fun _ => ?_) fun _ => ?_
  · exact .read fun _ => .read fun closing => .leaf b _ _
  · refine .add fun node b₁ hopen => ?_
    refine .fill (.listed (h.expression.under node)) (.refl b₁ node) fun items b₂ h₂ => ?_
    refine .read fun closing => .close (.pure ?_)
    simpa using (h₂.graft hopen).close closing.span

/-- A branch of a `CASE` expression fills the node of the expression with its choice and its
result, in this order. -/
theorem caseBranch_fills (h : RulesBuild r a) :
    Fills node id (Grammar.caseBranch r) (caseBranch a node) := by
  intro b
  refine .read fun _ => .fill (h.expression.under node) (.refl b node) fun choice b₁ h₁ => ?_
  refine .read fun _ => ((h.expression.under node) b₁).map fun result _ b₂ h₂ => ?_
  exact h₁.trans h₂

/-- A `CASE` expression is made at its first word, and filled with the selector, the branches and
the `ELSE` part that it has. -/
theorem caseExpression_builds (h : RulesBuild r a) :
    Builds (Grammar.caseExpression r) (caseExpression a) := by
  intro b
  refine .read fun start => .add fun node b₁ hopen => .read fun s => ?_
  refine .fillUnless (fun _ => h.expression.under node) (fun _ => rfl) (.refl b₁ node)
    fun selector b₂ h₂ => ?_
  refine (Follows.each _ (caseBranch_fills h)).bind fun branches _ b₃ h₃ => ?_
  refine .read fun _ => .fillIf (fun _ => h.expression.under node) (fun _ => rfl) (h₂.trans h₃.2)
    fun otherwise b₄ h₄ => ?_
  refine .read fun finish => .close (.pure ?_)
  simpa using (h₄.graft hopen).close finish.span

/-- A primary expression is built as its first token says: a leaf for most tokens, and a list or a
`CASE` expression with parts of their own. -/
theorem primary_builds (h : RulesBuild r a) : Builds (Grammar.primary r) (primary a) := by
  intro b
  refine .read fun s => ?_
  have hleaf (kind : Kind) : Follows b (fun n id b' => b.Grown none [n] [id] b')
      (do
        let _ ← bump
        return Node.leaf kind s.peek.span)
      (do
        let _ ← read bump
        add kind s.peek.span) := .read fun _ => .leaf b _ _
  dsimp only
  cases s.peek.kind
  case string => exact hleaf _
  case number => exact hleaf _
  case bindVar => exact hleaf _
  case quotedIdent => exact hleaf _
  case lParen => exact parenthesized_builds h b
  case word =>
    refine .ite (fun _ => hleaf _) fun _ => ?_
    refine .ite (fun _ => caseExpression_builds h b) fun _ => ?_
    refine .ite (fun _ => datedLiteral_builds b) fun _ => ?_
    refine .ite (fun _ => ?_) fun _ => hleaf _
    exact .read fun _ => .read fun name => .leaf b _ _
  all_goals exact .unexpected "expression"

/-! ### What follows a primary expression -/

/-- An argument hangs one node under its call, with its label in front of its value if it has
one. -/
theorem argument_fills (h : RulesBuild r a) :
    Fills node (fun n => [n]) (Grammar.argument r) (argument a node) := by
  intro b
  refine .read fun s => .addChild fun part b₁ hopen => ?_
  extract_lets rest tail' rest'
  have hrest (label : List Node) (b₂ : Builder) (h₂ : b₁.Filled part label b₂) :
      Follows b₂ (fun n _ b' => b.Filled node [n] b') (rest label) (rest' ()) := by
    refine .read fun _ => .read fun s => ?_
    extract_lets tail
    have htail (value : Node) (b₃ : Builder) (h₃ : b₁.Filled part (label ++ [value]) b₃) :
        Follows b₃ (fun n _ b' => b.Filled node [n] b') (tail value) (tail' ()) :=
      .read fun _ => .read fun last => .closed (h₃.graft hopen) rfl
    refine .ite (fun _ => ?_) fun _ => ?_
    · exact .read fun star => .addLeaf h₂ fun _ b₃ h₃ => htail _ b₃ h₃
    · exact .fill (h.expression.under part) h₂ htail
  refine .ite (fun _ => ?_) fun _ => hrest [] b₁ (.refl b₁ part)
  refine .read fun name => .read fun _ => ?_
  exact .addLeaf (.refl b₁ part) fun _ b₂ h₂ => hrest _ b₂ h₂

/-- A call is made around its callee, which was built before; the arguments are attached behind the
callee. -/
theorem call_follows (h : RulesBuild r a) {callee : NodeId} {n : Node}
    (hn : b₀.Grown none [n] [callee] b) :
    Follows b (fun n id b' => b₀.Grown none [n] [id] b') (Grammar.call r n) (call a callee) := by
  have hmade : Follows b (fun n id b' => b₀.Grown none [n] [id] b')
      (pure (.mk .call n.span [n])) (gather .call (b.span callee) [callee]) :=
    .gather hn fun hsmall => by rw [hn.span_head hsmall]
  refine .read fun _ => .spanOf (.work hmade fun node b₁ h₁ => .read fun closed => ?_)
  extract_lets rest rest'
  have hrest (arguments : List Node) (b₂ : Builder) (h₂ : b₁.Filled node arguments b₂) :
      Follows b₂ (fun n id b' => b₀.Grown none [n] [id] b') (rest arguments) (rest' ()) :=
    .read fun last => .close (.pure ((h₂.graft h₁).close last))
  refine .ite (fun _ => hrest [] b₁ (.refl b₁ node)) fun _ => ?_
  refine .fill (.listed (argument_fills h)) (.refl b₁ node) fun arguments b₂ h₂ => ?_
  refine .read fun _ => hrest arguments b₂ ?_
  simpa using h₂

/-- An expression with what follows it is built from the expression. -/
theorem suffix_follows (h : RulesBuild r a) {expr : NodeId} {n : Node}
    (hn : b₀.Grown none [n] [expr] b) :
    Follows b (Follows.Next (fun n id b' => b₀.Grown none [n] [id] b') n expr)
      (Grammar.suffix r n) (suffix a expr) := by
  refine .read fun s => ?_
  dsimp only
  cases s.kind
  case dot =>
    refine .ite (fun _ => ?_) fun _ => .pure hn
    refine .read fun _ => .read fun member => ?_
    refine .work (.leaf b .name member.span) fun name b₁ h₁ => .spanOf ?_
    have hboth := hn.trans h₁
    have hmade : Follows b₁ (fun n id b' => b₀.Grown none [n] [id] b')
        (pure (.mk .memberAccess (n.span.cover member.span) [n, .leaf .name member.span]))
        (gather .memberAccess ((b₁.span expr).cover member.span) [expr, name]) :=
      .gather hboth fun hsmall => by
        rw [hboth.span_head hsmall]
        rfl
    exact .work hmade fun _ _ h₂ => .pure h₂
  case percent =>
    refine .ite (fun _ => ?_) fun _ => .pure hn
    refine .read fun _ => .read fun name => .spanOf ?_
    have hmade : Follows b (fun n id b' => b₀.Grown none [n] [id] b')
        (pure (.mk .attribute (n.span.cover name.span) [n]))
        (gather .attribute ((b.span expr).cover name.span) [expr]) :=
      .gather hn fun hsmall => by rw [hn.span_head hsmall]
    exact .work hmade fun _ _ h₁ => .pure h₁
  case atSign =>
    refine .ite (fun _ => ?_) fun _ => .pure hn
    refine .read fun _ => .read fun link => .spanOf (.close (.pure ?_))
    exact hn.stretch link.span
  case lParen => exact (call_follows h hn).bind fun _ _ _ h₁ => .pure h₁
  all_goals exact .pure hn

/-- A primary expression is built with all that follows it, each suffix taking over the node made
so far. -/
theorem postfixed_builds (h : RulesBuild r a) : Builds (Grammar.postfixed r) (postfixed a) := by
  intro b
  refine (primary_builds h b).bind fun first id b₁ h₁ => ?_
  exact .repeatedly (fun _ _ _ hn => suffix_follows h hn) h₁

/-! ### Signs and levels -/

/-- A sign is put around the operand that is built behind it; without a sign the operand itself is
built. -/
theorem signed_builds (h : RulesBuild r a) : Builds (Grammar.signed r) (signed a) := by
  intro b
  refine .read fun s => ?_
  cases Grammar.sign? s with
  | none => exact postfixed_builds h b
  | some op =>
    refine .read fun start => (h.signed b).bind fun operand id b₁ h₁ => ?_
    exact unary_follows op start.span h₁

/-- The three levels of arithmetic are built, each as a chain over the next tighter one. -/
theorem additive_builds (h : RulesBuild r a) : Builds (Grammar.additive r) (additive a) :=
  chain_builds (chain_builds (chain_builds (signed_builds h) _) _) _

/-! ### Comparisons -/

/-- The right side of a comparison is built behind its left side, and the node is made around both.
Only an `ESCAPE` is attached when the node is there already. -/
theorem comparisonOf_follows (h : RulesBuild r a) (op : BinaryOp) {l : Node}
    (hl : b₀.Grown none [l] [lhs] b) :
    Follows b (fun n id b' => b₀.Grown none [n] [id] b') (Grammar.comparisonOf r op l)
      (comparisonOf a op lhs) := by
  have hplain (op : BinaryOp) : Follows b (fun n id b' => b₀.Grown none [n] [id] b')
      (do
        let rhs ← Grammar.additive r
        return Grammar.binary op l rhs)
      (do
        let rhs ← additive a
        binary op lhs rhs) :=
    (additive_builds h b).bind fun _ _ _ h₁ => binary_follows op hl h₁
  cases op
  case between =>
    refine (additive_builds h b).bind fun low lo b₁ h₁ => .read fun _ => ?_
    refine (additive_builds h b₁).bind fun high hi b₂ h₂ => .spanOf (.spanOf ?_)
    have hall := (hl.trans h₁).trans h₂
    refine .gather hall fun hsmall => ?_
    rw [hall.span_head hsmall, hall.span_last hsmall]
    rfl
  case member => exact (primary_builds h b).bind fun _ _ _ h₁ => binary_follows .member hl h₁
  case like =>
    refine (additive_builds h b).bind fun pattern id b₁ h₁ => ?_
    refine .work (binary_follows .like hl h₁) fun node b₂ h₂ => .read fun _ => ?_
    refine .ite (fun _ => ?_) fun _ => .pure h₂
    refine (additive_builds h b₂).bind fun escape id b₃ h₃ => .attach (.spanOf (.close (.pure ?_)))
    refine ((h₂.graft (h₃.attach node)).close _).of_eq fun hsmall => ?_
    rw [Builder.close, Builder.size_update, List.foldl_cons, List.foldl_nil, Builder.size_attach]
      at hsmall
    rw [Builder.span_attach, h₃.span_head hsmall]
    rfl
  all_goals exact hplain _

/-- A test for `NULL` makes one node around its operand. -/
theorem nullTest_follows {n : Node} {operand : NodeId} (hn : b₀.Grown none [n] [operand] b) :
    Follows b (fun n id b' => b₀.Grown none [n] [id] b') (Grammar.nullTest n)
      (nullTest operand) := by
  refine .read fun _ => .read fun negated => .read fun null => .spanOf ?_
  exact .gather hn fun hsmall => by rw [hn.span_head hsmall]

/-- A comparison is built, also where a `NOT` in front of its operator puts one more node around
it. -/
theorem comparison_builds (h : RulesBuild r a) : Builds (Grammar.comparison r) (comparison a) := by
  intro b
  refine (additive_builds h b).bind fun l lhs b₁ h₁ => .spanOf (.read fun s => ?_)
  refine .ite (fun _ => nullTest_follows h₁) fun _ => .read fun s => ?_
  extract_lets negated rest rest'
  have hrest : Follows b₁ (fun n id b' => b.Grown none [n] [id] b') (rest ()) (rest' ()) := by
    refine .read fun s => ?_
    cases Grammar.comparison? s with
    | none => exact .pure h₁
    | some op =>
      refine .read fun _ => (comparisonOf_follows h op h₁).bind_of_le fun n node b₂ hle h₂ => ?_
      by_cases hneg : negated = true
      · rw [if_pos hneg, if_pos hneg]
        refine .spanOf (.gather h₂ fun hsmall => ?_)
        rw [h₂.span_head hsmall, h₁.span_head (hle.trans hsmall)]
        rfl
      · rw [if_neg hneg, if_neg hneg]
        exact .pure h₂
  exact .ite (fun _ => .read fun _ => hrest) fun _ => hrest

/-- A `NOT` is put around the operand that is built behind it, and otherwise a comparison is
built. -/
theorem negation_builds (h : RulesBuild r a) : Builds (Grammar.negation r) (negation a) := by
  intro b
  refine .read fun s => .ite (fun _ => ?_) fun _ => comparison_builds h b
  refine .read fun start => (h.negation b).bind fun operand id b₁ h₁ => ?_
  exact unary_follows .not start.span h₁

/-- An expression is built: the arena grows by detached nodes, of which the last top shows the tree
that the grammar gives. -/
theorem expression_builds (h : RulesBuild r a) : Builds (Grammar.expression r) (expression a) :=
  chain_builds (chain_builds (negation_builds h) _) _

end PlsqlAudit.Build
