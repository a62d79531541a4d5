import PlsqlAudit.Grammar.Expression
import PlsqlAudit.Proofs.Following

/-!
# Expressions in a longer text

Every rule for expressions does the same in a longer text as long as its own text
has tokens left.  The rules for the phrases inside are assumed to do so where
fewer tokens are left than their depth (`Embedding.RulesFollow`); a rule reads a
token before it turns to them.
-/

namespace PlsqlAudit

open PlsqlAudit.Grammar PlsqlAudit.Parser

namespace Embedding

/-- The rules `r'` do in the longer text what `r` does in the text, where fewer
than `depth` tokens are left. -/
structure RulesFollow (E : Embedding) (depth : Nat) (r r' : Rules) : Prop where
  expression : ∀ s, E.Inner s → s.rest.length < depth →
    E.Follows false 1 s (r.expression s) (r'.expression (E.lift s))
  negation : ∀ s, E.Inner s → s.rest.length < depth →
    E.Follows false 1 s (r.negation s) (r'.negation (E.lift s))
  signed : ∀ s, E.Inner s → s.rest.length < depth →
    E.Follows false 1 s (r.signed s) (r'.signed (E.lift s))
  statement : ∀ s, E.Inner s → s.rest.length < depth →
    E.Follows false 1 s (r.statement s) (r'.statement (E.lift s))
  declaration : ∀ s, E.Inner s → s.rest.length < depth →
    E.Follows false 1 s (r.declaration s) (r'.declaration (E.lift s))

variable {E : Embedding} {depth : Nat} {r r' : Rules} {s : Stream}

/-! ### What is asked at a place -/

/-- A binary expression spans its two operands. -/
@[simp] theorem span_binary (op : BinaryOp) (lhs rhs : Node) :
    (binary op lhs rhs).span = lhs.span.cover rhs.span := rfl

/-- The node of a binary operator is moved by moving its operands, since its span is made of
theirs. -/
@[simp] theorem move_binary (op : BinaryOp) (lhs rhs : Node) :
    E.move (binary op lhs rhs) = binary op (E.move lhs) (E.move rhs) := by
  simp [binary]

/-- The node of an operator on one operand is moved by moving the operand and the place where the
operator stands. -/
@[simp] theorem move_unary (op : UnaryOp) (start : Span) (operand : Node) :
    E.move (unary op start operand) = unary op (E.move start) (E.move operand) := by
  simp [unary]

@[simp] theorem move_stretch (n : Node) (last : Span) :
    E.move (n.stretch last) = (E.move n).stretch (E.move last) := by
  simp [Node.stretch]

/-- Whether a query begins is asked alike in both texts. -/
theorem atQuery_lift (hs : E.Inner s) : atQuery (E.lift s) = atQuery s := by
  rw [atQuery, atQuery, atWord_lift hs, atWord_lift hs]

/-- The sign in front is the same in both texts, or there is none in either. -/
theorem sign?_lift (hs : E.Inner s) : sign? (E.lift s) = sign? s := by
  rw [sign?, sign?, atWord_lift hs]
  cases kind_lift hs with
  | inl hsame => rw [hsame]
  | inr hend => rw [hend.1, hend.2]

/-- Whether a power follows is asked alike in both texts, for its operator is never a slash. -/
theorem power?_lift (hs : E.Inner s) : power? (E.lift s) = power? s := by
  rw [power?, power?]
  cases kind_lift hs with
  | inl hsame => rw [hsame]
  | inr hend => rw [hend.1, hend.2]

/-- A slash divides, unless the text has ended in front of it. -/
theorem multiplicative?_lift (hs : E.Inner s) (hopen : E.Open s) :
    multiplicative? (E.lift s) = multiplicative? s := by
  rw [multiplicative?, multiplicative?, atWord_lift hs, kind_lift_of_open hs hopen]

/-- The additive operator in front is the same in both texts, or there is none in either. -/
theorem additive?_lift (hs : E.Inner s) : additive? (E.lift s) = additive? s := by
  rw [additive?, additive?]
  cases kind_lift hs with
  | inl hsame => rw [hsame]
  | inr hend => rw [hend.1, hend.2]

/-- The comparison in front is the same in both texts, or there is none in either. -/
theorem comparison?_lift (hs : E.Inner s) : comparison? (E.lift s) = comparison? s := by
  rw [comparison?, comparison?, atWord_lift hs, atWord_lift hs, atWord_lift hs]
  cases kind_lift hs with
  | inl hsame => rw [hsame]
  | inr hend => rw [hend.1, hend.2]

/-- Whether `AND` stands in front is asked alike in both texts. -/
theorem and?_lift (hs : E.Inner s) : and? (E.lift s) = and? s := by
  rw [and?, and?, atWord_lift hs]

/-- Whether `OR` stands in front is asked alike in both texts. -/
theorem or?_lift (hs : E.Inner s) : or? (E.lift s) = or? s := by
  rw [or?, or?, atWord_lift hs]

/-- Whether a `NOT` belongs to the comparison after it is asked alike in both texts, since no text
ends with `NOT`. -/
theorem atNegatedComparison_lift (hs : E.Inner s) :
    atNegatedComparison (E.lift s) = atNegatedComparison s := by
  rw [atNegatedComparison, atNegatedComparison, atWord_lift hs]
  cases hat : s.atWord "not" with
  | false => rw [Bool.false_and, Bool.false_and]
  | true =>
    have hkind := Stream.kind_of_atWord hat
    rw [atWordAt_one_lift hs hkind, atWordAt_one_lift hs hkind, atWordAt_one_lift hs hkind]

/-! ### Operators between operands -/

/-- One round of a chain of operands. -/
def chainStep (operand : Parser Node) (operator? : Stream → Option BinaryOp) (lhs : Node) :
    Parser (Option Node) := do
  match operator? (← get) with
  | none => return none
  | some op =>
    let _ ← bump
    let rhs ← operand
    return some (binary op lhs rhs)

/-- A chain of operands is its first operand and then a loop, each round of which reads an operator
and an operand. -/
theorem chain_eq_loop (operand : Parser Node) (operator? : Stream → Option BinaryOp) :
    chain operand operator? = (operand >>= loop (chainStep operand operator?)) := rfl

/-- A round of a chain goes on only if it has read an operator and an operand. -/
theorem chainStep_goes {operand operand' : Parser Node} {operator? : Stream → Option BinaryOp}
    {limit : Nat} (hoperand : ∀ s, E.Inner s → s.rest.length ≤ limit →
      E.Follows false 1 s (operand s) (operand' (E.lift s))) :
    E.Goes limit (chainStep operand operator?) := by
  intro lhs s next s₁ hs hlen h
  rw [chainStep, get_bind] at h
  cases hop : operator? s with
  | none =>
    simp only [hop] at h
    cases (pure_ok.1 h).1
  | some op =>
    simp only [hop, bump_bind] at h
    obtain ⟨rhs, s₂, hrhs, h⟩ := bind_ok.1 h
    obtain ⟨-, rfl⟩ := pure_ok.1 h
    have hadvance := s.length_advance_le
    have hless := ((hoperand s.advance hs.advance (by omega)).ok rhs s₂ hrhs).2.1
    omega

/-- A chain of operands that follow, with operators that are the same in both texts, follows as a
whole. -/
theorem chain_follows {operand operand' : Parser Node} {operator? : Stream → Option BinaryOp}
    {limit : Nat} (hoperator : ∀ s, E.Inner s → E.Open s → operator? (E.lift s) = operator? s)
    (hoperand : ∀ s, E.Inner s → s.rest.length ≤ limit →
      E.Follows false 1 s (operand s) (operand' (E.lift s)))
    (hs : E.Inner s) (hlen : s.rest.length ≤ limit) :
    E.Follows false 1 s (chain operand operator? s) (chain operand' operator? (E.lift s)) := by
  rw [chain_eq_loop, chain_eq_loop]
  refine .bind (hoperand s hs hlen) fun first s₁ hs₁ hlen₁ => ?_
  refine loop_follows false (fun lhs s hs (hlen : s.rest.length ≤ limit) => ?_)
    (chainStep_goes hoperand) first hs₁ (by omega)
  rw [chainStep, chainStep, get_bind, get_bind]
  have hend : E.Follows false 0 s ((pure none : Parser (Option Node)) s)
      ((pure none : Parser (Option Node)) (E.lift s)) := .pure hs (by simp)
  have hmore (op : BinaryOp) : E.Follows false 0 s
      ((do
        let _ ← bump
        let rhs ← operand
        return some (binary op lhs rhs)) s)
      ((do
        let _ ← bump
        let rhs ← operand'
        return some (binary op (E.move lhs) rhs)) (E.lift s)) := by
    refine .bind (bump_follows_of_any hs) fun _ s₂ hs₂ hlen₂ => ?_
    refine .bind (hoperand s₂ hs₂ (by omega)) fun rhs s₃ hs₃ _ => ?_
    exact .pure hs₃ (by simp)
  by_cases hopen : E.Open s
  · rw [hoperator s hs hopen]
    cases operator? s with
    | none => exact hend
    | some op => exact hmore op
  · cases operator? s with
    | none => exact hend.of_not_open hopen
    | some op => exact (hmore op).of_not_open hopen

/-! ### Primary expressions -/

/-- A literal of a date or an interval is read alike in both texts, with the words after it. -/
theorem datedLiteral_follows (hs : E.Inner s) (hkind : s.kind ≠ .eof) :
    E.Follows false 1 s (datedLiteral s) (datedLiteral (E.lift s)) := by
  refine .bind (bump_follows hs hkind) fun word s₁ hs₁ _ => ?_
  refine .bind (bump_follows_of_any hs₁) fun value s₂ hs₂ _ => ?_
  refine .bind (advanceWords_follows hs₂ intervalWords) fun _ s₃ hs₃ _ => ?_
  refine .bind (lastSpan_follows hs₃) fun last s₄ hs₄ _ => ?_
  exact .pure hs₄ (by simp)

/-- What stands in parentheses is read or skipped alike in both texts. -/
theorem parenthesized_follows (hr : E.RulesFollow depth r r') (hs : E.Inner s)
    (hlen : s.rest.length ≤ depth) (hkind : s.kind ≠ .eof) :
    E.Follows false 1 s (parenthesized r s) (parenthesized r' (E.lift s)) := by
  refine .bind (bump_follows hs hkind) fun opening s₁ hs₁ hlen₁ => ?_
  refine .branch (atQuery_lift hs₁) (fun _ => ?_) fun _ => ?_
  · refine .bind (skipUntil_follows hs₁ fun u hu _ => atKind_lift hu .rParen rfl) fun _ s₂ hs₂ _ => ?_
    refine .bind (expect_follows hs₂ .rParen ")" rfl) fun closing s₃ hs₃ _ => ?_
    exact .pure hs₃ (by simp)
  · have hitem (u : Stream) (hu : E.Inner u) (hlen : u.rest.length ≤ s₁.rest.length) :=
      hr.expression u hu (by omega)
    refine .bind (separated_follows hitem hs₁ (Nat.le_refl _)) fun items s₂ hs₂ _ => ?_
    refine .bind (expect_follows hs₂ .rParen ")" rfl) fun closing s₃ hs₃ _ => ?_
    exact .pure hs₃ (by simp)

/-- A branch of a `CASE` expression is read alike in both texts. -/
theorem caseBranch_follows (hr : E.RulesFollow depth r r') (hs : E.Inner s)
    (hlen : s.rest.length ≤ depth) (hkind : s.kind ≠ .eof) :
    E.Follows false 1 s (caseBranch r s) (caseBranch r' (E.lift s)) := by
  refine .bind (bump_follows hs hkind) fun _ s₁ hs₁ hlen₁ => ?_
  refine .bind (hr.expression s₁ hs₁ (by omega)) fun choice s₂ hs₂ hlen₂ => ?_
  refine .bind (expectWord_follows hs₂ "then") fun _ s₃ hs₃ hlen₃ => ?_
  refine .bind (hr.expression s₃ hs₃ (by omega)) fun result s₄ hs₄ _ => ?_
  exact .pure hs₄ (by simp)

/-- A `CASE` expression is read alike in both texts, with its selector, its branches and what
stands after `ELSE`. -/
theorem caseExpression_follows (hr : E.RulesFollow depth r r') (hs : E.Inner s)
    (hlen : s.rest.length ≤ depth) (hkind : s.kind ≠ .eof) :
    E.Follows false 1 s (caseExpression r s) (caseExpression r' (E.lift s)) := by
  refine .bind (bump_follows hs hkind) fun start s₁ hs₁ hlen₁ => ?_
  refine .listUnless hs₁ (atWord_lift hs₁ "when") (fun _ => hr.expression s₁ hs₁ (by omega))
    fun selector s₂ hs₂ hlen₂ => ?_
  have hbranch (u : Stream) (hu : E.Inner u) (hlen : u.rest.length ≤ s₂.rest.length)
      (hwhen : u.atWord "when" = true) :=
    caseBranch_follows hr hu (by omega) (Stream.ne_eof_of_atWord hwhen)
  refine .bind (many_follows (fun u hu _ => atWord_lift hu "when") hbranch hs₂ (Nat.le_refl _))
    fun branches s₃ hs₃ hlen₃ => ?_
  refine .bind (eatWord_follows hs₃ "else") fun read s₄ hs₄ hlen₄ => ?_
  refine .listIf hs₄ rfl (fun _ => hr.expression s₄ hs₄ (by omega)) fun otherwise s₅ hs₅ _ => ?_
  refine .bind (expectWord_follows hs₅ "end") fun finish s₆ hs₆ _ => ?_
  exact .pure hs₆ (by simp)

/-- An expression without operators is read alike in both texts, or the same token is reported in
both. -/
theorem primary_follows (hr : E.RulesFollow depth r r') (hs : E.Inner s)
    (hlen : s.rest.length ≤ depth) :
    E.Follows false 1 s (primary r s) (primary r' (E.lift s)) := by
  unfold primary
  simp only [get_bind]
  by_cases hkind : s.kind = .eof
  · have hpeek : s.peek.kind = .eof := hkind
    rw [hpeek]
    have hlift : (E.lift s).peek.kind = .eof ∨ (E.lift s).peek.kind = .slash := by
      exact (kind_lift hs).imp (·.trans hkind) And.left
    cases hlift with
    | inl heof =>
      rw [heof]
      exact unexpected_follows hs "expression"
    | inr hslash =>
      rw [hslash]
      exact unexpected_follows hs "expression"
  · have hopen := hs.open_of_kind hkind
    have hleaf (kind : Kind) : E.Follows false 1 s
        ((do
          let _ ← bump
          return Node.leaf kind s.peek.span : Parser Node) s)
        ((do
          let _ ← bump
          return Node.leaf kind (E.lift s).peek.span : Parser Node) (E.lift s)) := by
      refine .bind (bump_follows hs hkind) fun _ s₁ hs₁ _ => .pure hs₁ ?_
      rw [peekSpan_move hs hopen, move_leaf]
    have hsame : (E.lift s).peek.kind = s.peek.kind := kind_lift_of_open hs hopen
    rw [hsame]
    cases hpeek : s.peek.kind
    case string => exact hleaf _
    case number => exact hleaf _
    case bindVar => exact hleaf _
    case quotedIdent => exact hleaf _
    case lParen => exact parenthesized_follows hr hs hlen hkind
    case word =>
      have hnext : (E.lift s).peekAt 1 = E.token (s.peekAt 1) :=
        peekAt_one_lift hs hkind (by simp [Stream.kind, hpeek])
      refine .branch (atAnyWord_lift hs _) (fun _ => hleaf _) fun _ => ?_
      refine .branch (atWord_lift hs _) (fun _ => caseExpression_follows hr hs hlen hkind) fun _ => ?_
      refine .branch ?_ (fun _ => datedLiteral_follows hs hkind) fun _ => ?_
      · rw [hnext]
        exact congrArg (· && _) (atAnyWord_lift hs _)
      refine .branch ?_ (fun _ => ?_) fun _ => hleaf _
      · rw [hnext]
        exact congrArg (· && _) (atWord_lift hs _)
      · refine .bind (bump_follows hs hkind) fun _ s₁ hs₁ _ => ?_
        refine .bind (bump_follows_of_any hs₁) fun name s₂ hs₂ _ => ?_
        exact .pure hs₂ (by simp)
    all_goals exact unexpected_follows hs "expression"

/-! ### What follows a primary expression -/

/-- The label of an argument, and what follows. -/
theorem argumentLabel_follows {f f' : List Node → Parser Node} (hs : E.Inner s)
    (hf : ∀ label s₁, E.Inner s₁ → s₁.rest.length ≤ s.rest.length →
      E.Follows false 0 s₁ (f label s₁) (f' (E.move label) (E.lift s₁))) :
    E.Follows false 0 s
      ((if s.atIdentifier && (s.peekAt 1).kind == TokenKind.arrow then do
          let name ← bump
          let _ ← bump
          let label ← pure [Node.leaf .name name.span]
          f label
        else do
          let label ← pure []
          f label) s)
      ((if (E.lift s).atIdentifier && ((E.lift s).peekAt 1).kind == TokenKind.arrow then do
          let name ← bump
          let _ ← bump
          let label ← pure [Node.leaf .name name.span]
          f' label
        else do
          let label ← pure []
          f' label) (E.lift s)) := by
  refine .branch (atNamed_lift hs .arrow) (fun _ => ?_) fun _ => hf [] s hs (Nat.le_refl _)
  refine .bind (bump_follows_of_any hs) fun name s₁ hs₁ hlen₁ => ?_
  refine .bind (bump_follows_of_any hs₁) fun _ s₂ hs₂ hlen₂ => ?_
  exact hf [Node.leaf .name name.span] s₂ hs₂ (by omega)

/-- An argument is read alike in both texts: its label, its value, and what is skipped behind the
value. -/
theorem argument_follows (hr : E.RulesFollow depth r r') (hs : E.Inner s)
    (hlen : s.rest.length < depth) :
    E.Follows false 0 s (argument r s) (argument r' (E.lift s)) := by
  unfold argument
  rw [get_bind, get_bind]
  have hspan : E.Open s → (E.lift s).peek.span = E.move s.peek.span := peekSpan_move hs
  generalize (E.lift s).peek.span = start at hspan
  refine argumentLabel_follows hs fun label s₁ hs₁ hlen₁ => ?_
  extract_lets rest rest'
  have hrest (value : Node) (s₂ : Stream) (hs₂ : E.Inner s₂)
      (hlen₂ : s₂.rest.length ≤ s₁.rest.length) :
      E.Follows false 0 s₂ (rest value s₂) (rest' (E.move value) (E.lift s₂)) := by
    refine .bind (skipUntil_follows hs₂ fun u hu _ => ?_) fun _ s₃ hs₃ hlen₃ => ?_
    · rw [atKind_lift hu .comma rfl, atKind_lift hu .rParen rfl]
    refine .bind (lastSpan_follows hs₃) fun last s₄ hs₄ hlen₄ => ?_
    refine .answer hs₄ fun hend => ?_
    rw [hspan ((hend.resolve_left (by simp)).of_le (by omega))]
    simp
  refine .bind (eatWord_follows hs₁ "distinct") fun _ s₂ hs₂ hlen₂ => ?_
  refine .branch (atKind_lift hs₂ .star rfl) (fun _ => ?_) fun _ => ?_
  · refine .bind (bump_follows_of_any hs₂) fun star s₃ hs₃ hlen₃ => ?_
    exact hrest (Node.leaf .literal star.span) s₃ hs₃ (by omega)
  · refine .bind (hr.expression s₂ hs₂ (by omega))
      fun value s₃ hs₃ hlen₃ => ?_
    exact hrest value s₃ hs₃ (by omega)

/-- The arguments of a call are read alike in both texts, and the node of the call is moved with
its callee. -/
theorem call_follows (hr : E.RulesFollow depth r r') (hs : E.Inner s)
    (hlen : s.rest.length ≤ depth) (hkind : s.kind ≠ .eof) (callee : Node) :
    E.Follows false 1 s (call r callee s) (call r' (E.move callee) (E.lift s)) := by
  refine .bind (bump_follows hs hkind) fun _ s₁ hs₁ hlen₁ => ?_
  extract_lets rest rest'
  have hrest (arguments : List Node) (u : Stream) (hu : E.Inner u) :
      E.Follows false 0 u (rest arguments u) (rest' (E.move arguments) (E.lift u)) :=
    .bind (lastSpan_follows hu) fun last u₁ hu₁ _ => .pure hu₁ (by simp)
  refine .bind (eat_follows hs₁ .rParen rfl) fun closed s₂ hs₂ hlen₂ => ?_
  refine .branch rfl (fun _ => hrest [] s₂ hs₂) fun _ => ?_
  have hitem (u : Stream) (hu : E.Inner u) (hle : u.rest.length ≤ s₂.rest.length) :=
    argument_follows hr hu (by omega)
  refine .bind (separated_follows hitem hs₂ (Nat.le_refl _)) fun arguments s₃ hs₃ _ => ?_
  refine .bind (expect_follows hs₃ .rParen ")" rfl) fun _ s₄ hs₄ _ => ?_
  exact hrest arguments s₄ hs₄

/-- What binds to an expression from behind is the same in both texts: a member, an attribute, a
link, arguments or nothing. -/
theorem suffix_follows (hr : E.RulesFollow depth r r') (hs : E.Inner s)
    (hlen : s.rest.length ≤ depth) (expr : Node) :
    E.Follows false 0 s (suffix r expr s) (suffix r' (E.move expr) (E.lift s)) := by
  unfold suffix
  simp only [get_bind]
  by_cases hkind : s.kind = .eof
  · rw [hkind]
    have hlift : (E.lift s).kind = .eof ∨ (E.lift s).kind = .slash :=
      (kind_lift hs).imp (·.trans hkind) And.left
    cases hlift with
    | inl heof =>
      rw [heof]
      exact .pure hs (by simp)
    | inr hslash =>
      rw [hslash]
      exact .pure hs (by simp)
  · rw [kind_lift_of_open hs (hs.open_of_kind hkind)]
    have hpair (b : Bool) (make make' : Token → Node)
        (hmake : ∀ t, make' (E.move t) = E.move (make t)) : E.Follows false 0 s
        ((if b then do
            let _ ← bump
            let last ← bump
            return some (make last)
          else return none : Parser (Option Node)) s)
        ((if b then do
            let _ ← bump
            let last ← bump
            return some (make' last)
          else return none : Parser (Option Node)) (E.lift s)) := by
      refine .branch rfl (fun _ => ?_) fun _ => .pure hs (by simp)
      refine .bind (bump_follows_of_any hs) fun _ s₁ hs₁ _ => ?_
      refine .bind (bump_follows_of_any hs₁) fun last s₂ hs₂ _ => ?_
      exact .pure hs₂ (by simp [hmake])
    have hnext (hne : s.kind ≠ .semicolon) :
        ((E.lift s).peekAt 1).kind = (s.peekAt 1).kind := by
      rw [peekAt_one_lift hs hkind hne]
      rfl
    cases hpeek : s.kind
    case dot =>
      rw [hnext (by simp [hpeek])]
      exact hpair _ _ _ fun t => by simp
    case percent =>
      rw [hnext (by simp [hpeek])]
      exact hpair _ _ _ fun t => by simp
    case atSign =>
      rw [hnext (by simp [hpeek])]
      exact hpair _ _ _ fun t => by simp
    case lParen =>
      refine .bind (call_follows hr hs hlen hkind expr) fun node s₁ hs₁ _ => ?_
      exact .pure hs₁ (by simp)
    all_goals exact .pure hs (by simp)

/-- What binds to an expression from behind has tokens of its own, so a round that goes on has read
some. -/
theorem suffix_goes (hr : E.RulesFollow depth r r') : E.Goes depth (suffix r) := by
  intro expr s next s₁ hs hlen h
  rw [suffix, get_bind] at h
  have hpair {b : Bool} {make : Token → Node} (hkind : s.kind ≠ .eof)
      (h : (if b then do
          let _ ← bump
          let last ← bump
          return some (make last)
        else return none : Parser (Option Node)) s = .ok (some next, s₁)) :
      s₁.rest.length < s.rest.length := by
    cases b with
    | false => cases (pure_ok.1 h).1
    | true =>
      have hrun : (do
          let _ ← bump
          let last ← bump
          return some (make last) : Parser (Option Node)) s = .ok (some next, s₁) := h
      rw [bump_bind, bump_bind] at hrun
      obtain ⟨-, rfl⟩ := pure_ok.1 hrun
      have hfirst := hs.length_advance hkind
      have hsecond := s.advance.length_advance_le
      omega
  cases hkind : s.kind
  case dot =>
    rw [hkind] at h
    exact hpair (by simp [hkind]) h
  case percent =>
    rw [hkind] at h
    exact hpair (by simp [hkind]) h
  case atSign =>
    rw [hkind] at h
    exact hpair (by simp [hkind]) h
  case lParen =>
    rw [hkind] at h
    obtain ⟨node, s₂, hcall, h⟩ := bind_ok.1 h
    obtain ⟨-, rfl⟩ := pure_ok.1 h
    have hless := ((call_follows hr hs hlen (by simp [hkind]) expr).ok node s₂ hcall).2.1
    omega
  all_goals
    rw [hkind] at h
    cases (pure_ok.1 h).1

/-- An expression with all that binds to it from behind is read alike in both texts. -/
theorem postfixed_follows (hr : E.RulesFollow depth r r') (hs : E.Inner s)
    (hlen : s.rest.length ≤ depth) :
    E.Follows false 1 s (postfixed r s) (postfixed r' (E.lift s)) := by
  refine .bind (primary_follows hr hs hlen) fun expr s₁ hs₁ hlen₁ => ?_
  exact loop_follows false (fun expr u hu hle => suffix_follows hr hu hle expr) (suffix_goes hr) expr
    hs₁ (by omega)

/-! ### The levels of operators -/

/-- An expression with signs in front is read alike in both texts. -/
theorem signed_follows (hr : E.RulesFollow depth r r') (hs : E.Inner s)
    (hlen : s.rest.length ≤ depth) :
    E.Follows false 1 s (signed r s) (signed r' (E.lift s)) := by
  rw [signed, signed, get_bind, get_bind, sign?_lift hs]
  cases hsign : sign? s with
  | none => exact postfixed_follows hr hs hlen
  | some op =>
    have hkind : s.kind ≠ .eof := by
      intro heof
      simp [sign?, heof] at hsign
    refine .bind (bump_follows hs hkind) fun start s₁ hs₁ hlen₁ => ?_
    refine .bind (hr.signed s₁ hs₁ (by omega)) fun operand s₂ hs₂ _ => ?_
    exact .pure hs₂ (by simp)

/-- Operands of the level of powers are read alike in both texts. -/
theorem powers_follows (hr : E.RulesFollow depth r r') (hs : E.Inner s)
    (hlen : s.rest.length ≤ depth) :
    E.Follows false 1 s (chain (signed r) power? s) (chain (signed r') power? (E.lift s)) :=
  chain_follows (fun _ hu _ => power?_lift hu) (fun _ hu hle => signed_follows hr hu hle) hs hlen

/-- Operands of the multiplicative level are read alike in both texts; a slash that stops the inner
text is not taken as a division. -/
theorem factors_follows (hr : E.RulesFollow depth r r') (hs : E.Inner s)
    (hlen : s.rest.length ≤ depth) :
    E.Follows false 1 s (chain (chain (signed r) power?) multiplicative? s)
      (chain (chain (signed r') power?) multiplicative? (E.lift s)) :=
  chain_follows (fun _ hu hopen => multiplicative?_lift hu hopen)
    (fun _ hu hle => powers_follows hr hu hle) hs hlen

/-- An expression of the additive level is read alike in both texts. -/
theorem additive_follows (hr : E.RulesFollow depth r r') (hs : E.Inner s)
    (hlen : s.rest.length ≤ depth) :
    E.Follows false 1 s (additive r s) (additive r' (E.lift s)) :=
  chain_follows (fun _ hu _ => additive?_lift hu) (fun _ hu hle => factors_follows hr hu hle) hs hlen

/-- The right side of a comparison is read alike in both texts, whichever comparison it is. -/
theorem comparisonOf_follows (hr : E.RulesFollow depth r r') (hs : E.Inner s)
    (hlen : s.rest.length ≤ depth) (op : BinaryOp) (lhs : Node) :
    E.Follows false 0 s (comparisonOf r op lhs s) (comparisonOf r' op (E.move lhs) (E.lift s)) := by
  have hoperand (u : Stream) (hu : E.Inner u) (hle : u.rest.length ≤ s.rest.length) :=
    additive_follows hr hu (by omega)
  have hother (op : BinaryOp) : E.Follows false 0 s
      ((additive r >>= fun rhs => pure (binary op lhs rhs)) s)
      ((additive r' >>= fun rhs => pure (binary op (E.move lhs) rhs)) (E.lift s)) :=
    .bind (hoperand s hs (Nat.le_refl _)) fun rhs s₁ hs₁ _ => .pure hs₁ (by simp)
  cases op
  case between =>
    refine .bind (hoperand s hs (Nat.le_refl _)) fun low s₁ hs₁ hlen₁ => ?_
    refine .bind (expectWord_follows hs₁ "and") fun _ s₂ hs₂ hlen₂ => ?_
    refine .bind (hoperand s₂ hs₂ (by omega)) fun high s₃ hs₃ _ => ?_
    exact .pure hs₃ (by simp)
  case member =>
    refine .bind (primary_follows hr hs hlen) fun list s₁ hs₁ _ => ?_
    exact .pure hs₁ (by simp)
  case like =>
    refine .bind (hoperand s hs (Nat.le_refl _)) fun pattern s₁ hs₁ hlen₁ => ?_
    refine .bind (eatWord_follows hs₁ "escape") fun read s₂ hs₂ hlen₂ => ?_
    refine .branch rfl (fun _ => ?_) fun _ => .pure hs₂ (by simp)
    refine .bind (hoperand s₂ hs₂ (by omega)) fun escape s₃ hs₃ _ => ?_
    exact .pure hs₃ (by simp)
  all_goals exact hother _

/-- A test for null is read alike in both texts. -/
theorem nullTest_follows (hs : E.Inner s) (operand : Node) :
    E.Follows false 0 s (nullTest operand s) (nullTest (E.move operand) (E.lift s)) := by
  refine .bind (bump_follows_of_any hs) fun _ s₁ hs₁ _ => ?_
  refine .bind (eatWord_follows hs₁ "not") fun negated s₂ hs₂ _ => ?_
  refine .bind (expectWord_follows hs₂ "null") fun null s₃ hs₃ _ => ?_
  exact .pure hs₃ (by cases negated <;> simp)

/-- A comparison is read alike in both texts, with the `NOT` that may belong to it. -/
theorem comparison_follows (hr : E.RulesFollow depth r r') (hs : E.Inner s)
    (hlen : s.rest.length ≤ depth) :
    E.Follows false 1 s (comparison r s) (comparison r' (E.lift s)) := by
  refine .bind (additive_follows hr hs hlen) fun lhs s₁ hs₁ hlen₁ => ?_
  refine .branch (atWord_lift hs₁ "is") (fun _ => nullTest_follows hs₁ lhs) fun _ => ?_
  rw [get_bind, get_bind, atNegatedComparison_lift hs₁]
  refine .when hs₁ rfl (fun _ => bump_follows_of_any hs₁) fun s₂ hs₂ hlen₂ => ?_
  simp only [get_bind, comparison?_lift hs₂]
  cases comparison? s₂ with
  | none => exact .pure hs₂ (by simp)
  | some op =>
    refine .bind (bump_follows_of_any hs₂) fun _ s₃ hs₃ hlen₃ => ?_
    refine .bind (comparisonOf_follows hr hs₃ (by omega) op lhs) fun node s₄ hs₄ _ => ?_
    refine .pure hs₄ ?_
    cases atNegatedComparison s₁ <;> simp

/-- An expression with `NOT` in front, or a comparison, is read alike in both texts. -/
theorem negation_follows (hr : E.RulesFollow depth r r') (hs : E.Inner s)
    (hlen : s.rest.length ≤ depth) :
    E.Follows false 1 s (negation r s) (negation r' (E.lift s)) := by
  refine .branch (atWord_lift hs "not") (fun hnot => ?_) fun _ => comparison_follows hr hs hlen
  refine .bind (bump_follows hs (Stream.ne_eof_of_atWord hnot)) fun start s₁ hs₁ hlen₁ => ?_
  refine .bind (hr.negation s₁ hs₁ (by omega)) fun operand s₂ hs₂ _ => ?_
  exact .pure hs₂ (by simp)

/-- Expressions with `AND` between them are read alike in both texts. -/
theorem conjuncts_follows (hr : E.RulesFollow depth r r') (hs : E.Inner s)
    (hlen : s.rest.length ≤ depth) :
    E.Follows false 1 s (chain (negation r) and? s) (chain (negation r') and? (E.lift s)) :=
  chain_follows (fun _ hu _ => and?_lift hu) (fun _ hu hle => negation_follows hr hu hle) hs hlen

/-- An expression is read alike in both texts, from the loosest level down. -/
theorem expression_follows (hr : E.RulesFollow depth r r') (hs : E.Inner s)
    (hlen : s.rest.length ≤ depth) :
    E.Follows false 1 s (expression r s) (expression r' (E.lift s)) :=
  chain_follows (fun _ hu _ => or?_lift hu) (fun _ hu hle => conjuncts_follows hr hu hle) hs hlen

end Embedding

end PlsqlAudit
