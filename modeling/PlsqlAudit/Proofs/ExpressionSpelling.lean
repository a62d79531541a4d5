import PlsqlAudit.Proofs.WordedPhrases

/-!
# Expressions are spelled by what is read

Each level of operators gives an expression that the tokens it read spell.  What
follows an operand is read after it, so an expression that starts with an operand
is made from that operand and the tokens after it (`Worded.grow`); every other
expression is made from all the tokens that were read.

The tokens between the parts are those that the grammar asks for, so each of them is
no identifier or one of the words that the expression is written with.
-/

namespace PlsqlAudit

/-- The readers for phrases inside phrases give what the tokens spell. -/
structure Rules.Spell (r : Rules) : Prop where
  worded : r.expression.Gives Worded
  negation : r.negation.Gives Worded
  signed : r.signed.Gives Worded
  statement : r.statement.Gives fun used n => Phrases Kind.isStatement used n.toList
  declaration : r.declaration.Gives (Phrase Kind.isDeclared)

/-- An expression inside another phrase is spelled by its tokens, also if nothing is said about the
words that are skipped. -/
theorem Rules.Spell.expression {r : Rules} (h : r.Spell) :
    r.expression.Gives (Phrase Kind.isExpression) := h.worded.mono fun _ _ => Worded.phrase

/-- An expression inside another one is written with the words that its surroundings allow, `NEW`
in front of a name being one of them. -/
theorem Rules.Spell.wordings {r : Rules} (h : r.Spell) {words : List String}
    (hnew : "new" ∈ words) : r.expression.Gives fun u n => Wordings Kind.isExpression words u [n] :=
  h.worded.mono fun _ _ hworded => .one hworded hnew

namespace Grammar

open PlsqlAudit.Parser

variable {r : Rules} {s s₀ s' : Stream} {u v : List Token} {lhs rhs n : Node}

/-- The node of an operator between two operands accounts for both of them and for the words of the
operator. -/
theorem binary_worded (op : BinaryOp) (hlhs : Worded u lhs) (hrhs : Worded v rhs) {w : List Token}
    (hw : ∀ token ∈ w, token.Writes (Kind.binary op).words) (ho : Ordered (u ++ (w ++ v))) :
    Worded (u ++ (w ++ v)) (binary op lhs rhs) := by
  obtain ⟨last, hlast, hstop⟩ := hrhs.phrase.stop_eq
  have hinner : Spells (w ++ v) [rhs] := (Spells.skips w).append hrhs.spells
  have haccounted : Accounted (Placed (.binary op) [lhs, rhs]) (w ++ v) :=
    (Accounted.words hw).append (hrhs.placed (by simp) List.mem_cons_self)
  refine hlhs.grow hinner haccounted ho ?_ hstop ?_ (by simp) rfl
  · rw [← List.append_assoc]
    exact hlast _
  · simp [Kind.Layout, hlhs.kind, hrhs.kind]

/-- The node of an operator with a second operand on the right side, after a word. -/
theorem ternary_worded (op : BinaryOp) {first second : Node} {v₁ v₂ w : List Token} {word : Token}
    (hlhs : Worded u lhs) (hfirst : Worded v₁ first) (hsecond : Worded v₂ second)
    (hw : ∀ token ∈ w, token.Writes (Kind.binary op).words)
    (hword : word.Writes (Kind.binary op).words)
    (ho : Ordered (u ++ (w ++ (v₁ ++ ([word] ++ v₂))))) :
    Worded (u ++ (w ++ (v₁ ++ ([word] ++ v₂))))
      (.mk (.binary op) (lhs.span.cover second.span) [lhs, first, second]) := by
  obtain ⟨last, hlast, hstop⟩ := hsecond.phrase.stop_eq
  have hinner : Spells (w ++ (v₁ ++ ([word] ++ v₂))) [first, second] :=
    (Spells.skips w).append (hfirst.spells.append
      ((Spells.skips [word]).append hsecond.spells))
  have haccounted : Accounted (Placed (.binary op) [lhs, first, second])
      (w ++ (v₁ ++ ([word] ++ v₂))) :=
    (Accounted.words hw).append ((hfirst.placed (by simp) List.mem_cons_self).append
      ((Accounted.words hword.single).append (hsecond.placed (by simp) List.mem_cons_self)))
  refine hlhs.grow hinner haccounted ho ?_ hstop ?_ (by simp) rfl
  · simpa using hlast (u ++ w ++ v₁ ++ [word])
  · simp [Kind.Layout, hlhs.kind, hfirst.kind, hsecond.kind]

/-- The node of an operator in front of an operand. -/
theorem unary_worded (op : UnaryOp) {start : Token} (hstart : start.Writes (Kind.unary op).words)
    (hrhs : Worded v rhs) (ho : Ordered (start :: v)) :
    Worded (start :: v) (unary op start.span rhs) := by
  obtain ⟨last, hlast, hstop⟩ := hrhs.phrase.stop_eq
  have haccounted : Accounted (Placed (.unary op) [rhs]) ([start] ++ v) :=
    (Accounted.words hstart.single).append (hrhs.placed (by simp) List.mem_cons_self)
  refine .ofTakes (.operand ⟨_, rfl, hrhs.kind⟩ (by simp) ?_ ?_ haccounted) ho rfl
  · exact (Spans.single start).cover ho ⟨v, rfl⟩ (hlast [start]) hstop
  · exact .skip start hrhs.spells

/-- A chain of operands is spelled by its tokens if each operand is, and if each operator is a
token that its node is written with. -/
theorem chain_gives {operand : Parser Node} {operator? : Stream → Option BinaryOp}
    (hoperand : operand.Gives Worded)
    (hoperator : ∀ s op, operator? s = some op →
      s.kind ≠ .eof ∧ s.peek.Writes (Kind.binary op).words) :
    (chain operand operator?).Gives Worded := by
  rintro s n s' hs - h
  obtain ⟨first, s₁, u, hread, hfirst, h⟩ := hoperand.first hs h
  have hloop := loop_extends Worded ?_ hfirst hs hread h
  · obtain ⟨v, hread₁, hv⟩ := hloop
    exact ⟨u ++ v, hread₁, hv⟩
  · intro u lhs hlhs s₀ s next s' hs hread h
    rw [get_bind] at h
    cases hop : operator? s with
    | none =>
      simp only [hop] at h
      obtain ⟨rfl, rfl⟩ := pure_ok.1 h
      exact ⟨[], by simpa using hread, by simpa using hlhs⟩
    | some op =>
      simp only [hop, bump_bind] at h
      obtain ⟨hat, hwrites⟩ := hoperator s op hop
      obtain ⟨rhs, s₂, v, hread₂, hrhs, h⟩ := hoperand.bind hs (hread.bump hs hat) h
      obtain ⟨rfl, rfl⟩ := pure_ok.1 h
      rw [List.append_assoc] at hread₂
      exact ⟨_, hread₂, binary_worded op hlhs hrhs hwrites.single (hread₂.ordered hs)⟩

/-! ### Primary expressions -/

/-- A node for the next token reads this token and has its span. -/
theorem leaf_gives {kind : Kind} (hs : s.Sound) (hat : s.kind ≠ .eof)
    (h : (do let _ ← bump; return Node.leaf kind s.peek.span : Parser Node) s = .ok (n, s')) :
    s.Reads [s.peek] s' ∧ n = .leaf kind s.peek.span := by
  rw [bump_bind] at h
  obtain ⟨rfl, rfl⟩ := pure_ok.1 h
  exact ⟨Stream.reads_advance hs hat, rfl⟩

/-- A literal of a date or an interval takes its word, its text and the words that follow the
text. -/
theorem datedLiteral_gives :
    datedLiteral.GivesAt (fun s => s.peek.isAnyWord ["date", "timestamp", "interval"] = true ∧
      (s.peekAt 1).kind = .string) Worded := by
  rintro s n s' hs ⟨hword, hstring⟩ h
  rw [datedLiteral, bump_bind, bump_bind, modify_bind, lastSpan_bind] at h
  rw [← Stream.peek_advance] at hstring
  have hread := (Stream.reads_advance hs (Stream.ne_eof_of_atAnyWord hword)).bump hs
    (by simp [Stream.kind, hstring])
  obtain ⟨v, hskip, hfields⟩ := Stream.reads_anyWords intervalWords s.advance.advance
  have hread' := hread.trans hskip
  obtain ⟨rfl, rfl⟩ := pure_ok.1 h
  have hspan : Spans ([s.peek] ++ [s.advance.peek]) (s.peek.span.cover s.advance.peek.span) :=
    Spans.ofTokens (hread.ordered hs) rfl
  refine ⟨_, hread', .ofTakes (.literal (hspan.coverLast hs hread' ⟨v, rfl⟩) ?_)
    (hread'.ordered hs) rfl⟩
  refine List.forall_mem_append.2 ⟨List.forall_mem_append.2 ⟨?_, ?_⟩, fun token htoken => ?_⟩
  · exact (Token.writes_of_isAnyWord hword (by decide)).single
  · exact (Token.writes_of_kind hstring rfl).single
  · exact Token.writes_of_isAnyWord (hfields token htoken) (List.subset_append_right _ _)

/-- What stands in parentheses takes all tokens from the first parenthesis to the last, as a list
or as a query that is skipped. -/
theorem parenthesized_gives (hr : r.Spell) :
    (parenthesized r).GivesAt (·.kind = .lParen) Worded := by
  rintro s n s' hs hat h
  rw [parenthesized, bump_bind, get_bind] at h
  have hread := Stream.reads_advance hs (by simp [hat])
  split at h
  · rw [skipUntil_bind] at h
    obtain ⟨v, hskip⟩ := Stream.reads_skipUntil (·.atKind .rParen) s.advance
    obtain ⟨closing, s₂, w, hread₂, ⟨rfl, -⟩, h⟩ :=
      (expect_gives (by simp) ")").bind hs (hread.trans hskip) h
    obtain ⟨rfl, rfl⟩ := pure_ok.1 h
    refine ⟨_, hread₂, .ofTakes (.query ?_) (hread₂.ordered hs) rfl⟩
    exact Spans.ofTokens (hread₂.ordered hs) rfl
  · have hitem := hr.wordings (show "new" ∈ Kind.parenthesized.words by decide)
    obtain ⟨items, s₁, v, hread₁, ⟨hitems, hne⟩, h⟩ := (separated_wordings hitem).bind hs hread h
    obtain ⟨closing, s₂, w, hread₂, ⟨rfl, hclosing⟩, h⟩ :=
      (expect_gives (by simp) ")").bind hs hread₁ h
    obtain ⟨rfl, rfl⟩ := pure_ok.1 h
    have hparts := ((Wordings.none (Token.writes_of_kind hat rfl).single).append hitems).skip
      (Token.writes_of_kind hclosing rfl).single
    refine ⟨_, hread₂, .ofTakes (.operand ⟨by simpa using hne, hparts.phrases.mapKinds⟩ (by simp)
      ?_ hparts.phrases.spells hparts.placed) (hread₂.ordered hs) rfl⟩
    exact Spans.ofTokens (hread₂.ordered hs) rfl

/-- A branch of a `CASE` expression is spelled by its choice and its result, with `WHEN` and `THEN`
in front of them. -/
theorem caseBranch_gives (hr : r.Spell) :
    (caseBranch r).GivesAt (·.atWord "when" = true)
      (Wordings Kind.isExpression Kind.caseExpression.words) := by
  rintro s ns s' hs hat h
  rw [caseBranch, bump_bind] at h
  have hread := Stream.reads_advance hs (Stream.ne_eof_of_atWord hat)
  obtain ⟨choice, s₁, v, hread₁, hchoice, h⟩ := hr.worded.bind hs hread h
  obtain ⟨then_, s₂, w, hread₂, ⟨rfl, hthen⟩, h⟩ := (expectWord_gives "then").bind hs hread₁ h
  obtain ⟨result, s₃, x, hread₃, hresult, h⟩ := hr.worded.bind hs hread₂ h
  obtain ⟨rfl, rfl⟩ := pure_ok.1 h
  refine ⟨_, hread₃, ?_⟩
  have hwhen := Token.writes_of_isWord hat (show "when" ∈ Kind.caseExpression.words by decide)
  have hthen := Token.writes_of_isWord hthen (show "then" ∈ Kind.caseExpression.words by decide)
  have hfront := ((Wordings.none hwhen.single).append (.one hchoice List.mem_cons_self)).skip
    hthen.single
  simpa using hfront.append (.one hresult List.mem_cons_self)

/-- A `CASE` expression takes all tokens from `CASE` to `END`, and between its parts stand only the
words it is written with. -/
theorem caseExpression_gives (hr : r.Spell) :
    (caseExpression r).GivesAt (·.atWord "case" = true) Worded := by
  rintro s n s' hs hat h
  rw [caseExpression, bump_bind, get_bind] at h
  have hitem := hr.wordings (show "new" ∈ Kind.caseExpression.words by decide)
  have hread := Stream.reads_advance hs (Stream.ne_eof_of_atWord hat)
  obtain ⟨selector, s₁, v₁, hread₁, hselector, h⟩ := unless_wordings hitem hs hread h
  obtain ⟨branches, s₂, v₂, hread₂, hbranches, h⟩ :=
    (many_flatten_wordings (caseBranch_gives hr)).bind hs hread₁ h
  obtain ⟨read, s₃, v₃, hread₃, helse, h⟩ := (eatWord_gives "else").bind hs hread₂ h
  obtain ⟨otherwise, s₄, v₄, hread₄, hotherwise, h⟩ := when_wordings hitem hs hread₃ h
  obtain ⟨finish, s₅, w, hread₅, ⟨rfl, hend⟩, h⟩ := (expectWord_gives "end").bind hs hread₄ h
  obtain ⟨rfl, rfl⟩ := pure_ok.1 h
  have hcase := Token.writes_of_isWord hat (show "case" ∈ Kind.caseExpression.words by decide)
  have hend := Token.writes_of_isWord hend (show "end" ∈ Kind.caseExpression.words by decide)
  have hparts := (((((Wordings.none hcase.single).append hselector).append hbranches).skip
    (writes_of_eaten helse (by decide))).append hotherwise).skip hend.single
  refine ⟨_, hread₅, .ofTakes (.operand hparts.phrases.mapKinds (by simp) ?_ hparts.phrases.spells
    hparts.placed) (hread₅.ordered hs) rfl⟩
  exact Spans.ofTokens (hread₅.ordered hs) rfl

/-- A literal of one token that is no word has no identifier to account for. -/
theorem literal_worded {kind : Kind} {token : Token} (hlayout : kind.Layout [])
    (hname : kind ≠ .name) (hkind : kind.isExpression = true)
    (htoken : token.kind.isIdentifier = false) : Worded [token] (.leaf kind token.span) :=
  .ofTakes (.operand hlayout hname (Spans.single _) (Spells.skips _)
    (.other token htoken .nil)) (List.pairwise_singleton _ _) hkind

/-- An expression without operators is spelled by its tokens: at most the word `NEW` is skipped in
front of a name. -/
theorem primary_gives (hr : r.Spell) : (primary r).Gives Worded := by
  rintro s n s' hs - h
  rw [primary, get_bind] at h
  have literal (kind : Kind) (hlayout : kind.Layout []) (hname : kind ≠ .name)
      (hkind : kind.isExpression = true) (hat : s.kind ≠ .eof)
      (hother : s.peek.kind.isIdentifier = false)
      (h : (do let _ ← bump; return Node.leaf kind s.peek.span : Parser Node) s = .ok (n, s')) :
      ∃ used, s.Reads used s' ∧ Worded used n := by
    obtain ⟨hread, rfl⟩ := leaf_gives hs hat h
    exact ⟨_, hread, literal_worded hlayout hname hkind hother⟩
  have name (hat : s.peek.kind.isIdentifier = true)
      (h : (do let _ ← bump; return Node.leaf .name s.peek.span : Parser Node) s = .ok (n, s')) :
      ∃ used, s.Reads used s' ∧ Worded used n := by
    obtain ⟨hread, rfl⟩ := leaf_gives hs (Stream.ne_eof_of_isIdentifier hat) h
    exact ⟨_, hread, .ofTakes (.name hat) (hread.ordered hs) rfl⟩
  cases hkind : s.peek.kind with
  | string =>
    simp only [hkind] at h
    exact literal .stringLiteral rfl (by simp) rfl (by simp [Stream.kind, hkind])
      (by simp [hkind, TokenKind.isIdentifier]) h
  | number =>
    simp only [hkind] at h
    exact literal .numberLiteral rfl (by simp) rfl (by simp [Stream.kind, hkind])
      (by simp [hkind, TokenKind.isIdentifier]) h
  | bindVar =>
    simp only [hkind] at h
    exact literal .bindVariable rfl (by simp) rfl (by simp [Stream.kind, hkind])
      (by simp [hkind, TokenKind.isIdentifier]) h
  | quotedIdent =>
    simp only [hkind] at h
    exact name (by simp [hkind, TokenKind.isIdentifier]) h
  | lParen =>
    simp only [hkind] at h
    exact parenthesized_gives hr hs hkind h
  | word =>
    simp only [hkind] at h
    have hat : s.kind ≠ .eof := by simp [Stream.kind, hkind]
    have hident : s.peek.kind.isIdentifier = true := by simp [hkind, TokenKind.isIdentifier]
    split at h
    case isTrue hliteral =>
      obtain ⟨hread, rfl⟩ := leaf_gives hs hat h
      have hwords := Token.writes_of_isAnyWord hliteral
        (show _ ⊆ Kind.literal.words by decide)
      exact ⟨_, hread, .ofTakes (.literal (Spans.single _) hwords.single) (hread.ordered hs) rfl⟩
    split at h
    case isTrue hcase =>
      exact caseExpression_gives hr hs hcase h
    split at h
    case isTrue hdated =>
      rw [Bool.and_eq_true, beq_iff_eq] at hdated
      exact datedLiteral_gives hs hdated h
    split at h
    case isTrue hnew =>
      rw [Bool.and_eq_true, ← Stream.peek_advance] at hnew
      rw [bump_bind, bump_bind] at h
      obtain ⟨rfl, rfl⟩ := pure_ok.1 h
      have hread := (Stream.reads_advance hs hat).bump hs (Stream.ne_eof_of_isIdentifier hnew.2)
      exact ⟨_, hread, hread.ordered hs, rfl, [s.peek], _, rfl, by simpa using hnew.1,
        .name hnew.2⟩
    case isFalse => exact name hident h
  | _ =>
    simp only [hkind] at h
    exact absurd h not_unexpected_ok

/-! ### What follows an operand -/

/-- The label of an argument is a name of its own, with the arrow behind it; without a label
nothing is read. -/
theorem label_wordings {β : Type} {f : List Node → Parser β} {b : β} (hs : s.Sound)
    (h : (if s.atIdentifier && (s.peekAt 1).kind == .arrow then
        bump >>= fun name => bump >>= fun _ => pure [Node.leaf .name name.span] >>= f
      else pure [] >>= f) s = .ok (b, s')) :
    ∃ ns s₁ v, s.Reads v s₁ ∧ (Wordings (· == .name) [] v ns ∧ ns.length ≤ 1) ∧
      f ns s₁ = .ok (b, s') := by
  split at h
  case isTrue hat =>
    rw [Bool.and_eq_true, ← Stream.peek_advance, beq_iff_eq] at hat
    rw [bump_bind, bump_bind] at h
    have hread := (Stream.reads_advance hs (Stream.ne_eof_of_isIdentifier hat.1)).bump hs
      (by simp [Stream.kind, hat.2])
    have hname : Wordings (· == .name) [] [s.peek] [.leaf .name s.peek.span] :=
      ⟨⟨(Takes.name hat.1).spells, by simp [Node.leaf, Node.kind]⟩,
        .passes _ (.inr ⟨_, List.mem_cons_self, Nat.le_refl _, Nat.le_refl _⟩) .nil⟩
    exact ⟨_, _, _, hread, ⟨hname.skip (Token.writes_of_kind hat.2 rfl).single, by simp⟩, h⟩
  case isFalse => exact ⟨[], s, [], .refl s, ⟨.none (by simp), by simp⟩, h⟩

/-- The value of an argument: a star, or an expression. -/
theorem value_worded {β : Type} {f : Node → Parser β} {b : β} (hr : r.Spell) (hs : s₀.Sound)
    (hread : s₀.Reads u s)
    (h : (if s.atKind .star then bump >>= fun star => pure (Node.leaf .literal star.span) >>= f
      else r.expression >>= f) s = .ok (b, s')) :
    ∃ n s₁ v, s₀.Reads (u ++ v) s₁ ∧ Worded v n ∧ f n s₁ = .ok (b, s') := by
  split at h
  case isTrue hat =>
    rw [bump_bind] at h
    have hread₁ := hread.bump hs (by simp [Stream.kind_of_atKind hat])
    have hstar : s.peek.Writes Kind.literal.words :=
      Token.writes_of_kind (Stream.kind_of_atKind hat) rfl
    refine ⟨_, _, _, hread₁, ?_, h⟩
    exact .ofTakes (.literal (Spans.single _) hstar.single) (List.pairwise_singleton _ _) rfl
  case isFalse => exact hr.worded.bind hs hread h

/-- What follows the value inside an argument is skipped there, and so every identifier in it has
its place. -/
theorem tail_placed {label : List Node} {value : Node} {x : List Token} (hvalue : Worded v value)
    (ho : Ordered (v ++ x)) : Accounted (Placed .argument (label ++ [value])) x := by
  obtain ⟨last, hlast, hstop⟩ := hvalue.phrase.stop_eq
  have hmem : last ∈ v := List.mem_of_getLast? (by simpa using hlast [])
  refine .of_forall fun token htoken => .inr (.behind value rfl (by simp) ?_)
  rw [hstop]
  exact (List.pairwise_append.1 ho).2.2 last hmem token htoken

/-- An argument is spelled by its tokens: a label, a value, and what is skipped behind the
value. -/
theorem argument_gives (hr : r.Spell) :
    (argument r).Gives fun used n => Wordings (· == .argument) [] used [n] := by
  rintro s n s' hs - h
  rw [argument, get_bind] at h
  obtain ⟨label, s₁, u, hread, ⟨hlabel, hlength⟩, h⟩ := label_wordings hs h
  obtain ⟨read, s₂, v, hread₁, hdistinct, h⟩ := (eatWord_gives "distinct").bind hs hread h
  rw [get_bind] at h
  obtain ⟨value, s₃, w, hread₂, hvalue, h⟩ := value_worded hr hs hread₁ h
  beta_reduce at h
  rw [skipUntil_bind, lastSpan_bind] at h
  obtain ⟨x, hskip⟩ := Stream.reads_skipUntil (fun s => s.atKind .comma || s.atKind .rParen) s₃
  have hread₃ := hread₂.trans hskip
  obtain ⟨rfl, rfl⟩ := pure_ok.1 h
  have ho := hread₃.ordered hs
  have hinner := ((hlabel.phrases.spells.append (Spells.skips v)).append
    hvalue.spells).append (Spells.skips x)
  have hfront : Accounted (Placed .argument (label ++ [value])) u :=
    hlabel.accounted.mono fun _ hamong => .among (hamong.mono (by simp) (by simp))
  have hwhole : Ordered (w ++ x) := by
    rw [List.append_assoc] at ho
    exact (List.pairwise_append.1 ho).2.1
  have haccounted := ((hfront.append (.words (writes_of_eaten hdistinct (by decide)))).append
    (hvalue.placed (by simp) List.mem_cons_self)).append (tail_placed hvalue hwhole)
  have hspans := Spans.toLast hs hread₃ (hread₃.head?_eq (by simp [hvalue.phrase.ne_nil]))
  refine ⟨_, hread₃, .one (.ofTakes (.operand ?_ (by simp) hspans (by simpa using hinner)
    haccounted) rfl), .of_forall fun token htoken => .inr (.inr ?_)⟩
  · exact ⟨label.map Node.kind, value.kind, by simp, hvalue.kind,
      hlabel.phrases.atMostOne hlength⟩
  · exact ⟨_, List.mem_cons_self, hspans.bounds ho htoken⟩

/-- The arguments of a call are read after what is called, and the node accounts for both. -/
theorem call_extends (hr : r.Spell) (hcallee : Worded u lhs) (hs : s₀.Sound)
    (hread : s₀.Reads u s) (hat : s.kind = .lParen) (h : call r lhs s = .ok (n, s')) :
    ∃ v, s₀.Reads (u ++ v) s' ∧ Worded (u ++ v) n := by
  have finish {v : List Token} {arguments : List Node} {s₁ : Stream}
      (hread : s₀.Reads (u ++ v) s₁) (hargs : Wordings (· == .argument) [] v arguments)
      (h : (lastSpan >>= fun last => pure (.mk .call (lhs.span.cover last) (lhs :: arguments)))
        s₁ = .ok (n, s')) :
      ∃ v, s₀.Reads (u ++ v) s' ∧ Worded (u ++ v) n := by
    rw [lastSpan_bind] at h
    obtain ⟨rfl, rfl⟩ := pure_ok.1 h
    have haccounted : Accounted (Placed .call (lhs :: arguments)) v :=
      hargs.accounted.mono fun _ hamong =>
        .among (hamong.mono (by simp) (List.subset_cons_self _ _))
    refine ⟨v, hread, hcallee.growLast hargs.phrases.spells haccounted hs hread ?_ (by simp) rfl⟩
    exact ⟨_, _, rfl, hcallee.kind, by simpa using hargs.phrases.kinds⟩
  rw [call, bump_bind] at h
  have hopening : Wordings (· == .argument) [] [s.peek] [] :=
    .none (Token.writes_of_kind hat rfl).single
  have hread₁ := hread.bump hs (by simp [hat])
  obtain ⟨read, s₁, v, hread₂, hclosed, h⟩ := (eat_gives (by simp)).bind hs hread₁ h
  rcases hclosed with ⟨rfl, closing, rfl, hclosing⟩ | ⟨rfl, rfl⟩
  · rw [if_pos rfl, pure_bind_run] at h
    exact finish (by simpa using hread₂)
      (hopening.skip (Token.writes_of_kind hclosing rfl).single) h
  · rw [if_neg (by simp)] at h
    obtain ⟨arguments, s₂, w, hread₃, ⟨hargs, -⟩, h⟩ :=
      (separated_wordings (argument_gives hr)).bind hs hread₂ h
    obtain ⟨closing, s₃, x, hread₄, ⟨rfl, hclosing⟩, h⟩ :=
      (expect_gives (by simp) ")").bind hs hread₃ h
    have hall := (hopening.append hargs).skip (Token.writes_of_kind hclosing rfl).single
    exact finish (by simpa using hread₄) (by simpa using hall) h

/-- What binds to an operand from behind makes a longer expression of it, spelled by the tokens of
both. -/
theorem suffix_extends (hr : r.Spell) (hlhs : Worded u lhs) :
    (suffix r lhs).Extends u fun v next => Worded v (next.getD lhs) := by
  intro s₀ s next s' hs hread h
  rw [suffix, get_bind] at h
  have stay (h : (pure none : Parser (Option Node)) s = .ok (next, s')) :
      ∃ v, s₀.Reads (u ++ v) s' ∧ Worded (u ++ v) (next.getD lhs) := by
    obtain ⟨rfl, rfl⟩ := pure_ok.1 h
    exact ⟨[], by simpa using hread, by simpa using hlhs⟩
  have two (hkind : s.kind ≠ .eof) (hnext : (s.peekAt 1).kind ≠ .eof) :
      s₀.Reads (u ++ [s.peek, s.advance.peek]) s.advance.advance := by
    simpa using (hread.bump hs hkind).bump hs (by simpa [Stream.kind, Stream.peek_advance])
  cases hkind : s.kind with
  | dot =>
    simp only [hkind] at h
    split at h
    case isTrue hnext =>
      have hread₂ := two (by simp [hkind]) (Stream.ne_eof_of_isIdentifier hnext)
      rw [bump_bind, bump_bind] at h
      obtain ⟨rfl, rfl⟩ := pure_ok.1 h
      rw [← Stream.peek_advance] at hnext
      exact ⟨_, hread₂, hlhs.withMember hkind hnext (hread₂.ordered hs)⟩
    case isFalse => exact stay h
  | percent =>
    simp only [hkind] at h
    split at h
    case isTrue hnext =>
      have hread₂ := two (by simp [hkind]) (by simp [beq_iff_eq.1 hnext])
      rw [bump_bind, bump_bind] at h
      obtain ⟨rfl, rfl⟩ := pure_ok.1 h
      exact ⟨_, hread₂, hlhs.withAttribute hkind (hread₂.ordered hs)⟩
    case isFalse => exact stay h
  | atSign =>
    simp only [hkind] at h
    split at h
    case isTrue hnext =>
      have hread₂ := two (by simp [hkind]) (by simp [beq_iff_eq.1 hnext])
      rw [bump_bind, bump_bind] at h
      obtain ⟨rfl, rfl⟩ := pure_ok.1 h
      exact ⟨_, hread₂, hlhs.withLink hkind (hread₂.ordered hs)⟩
    case isFalse => exact stay h
  | lParen =>
    simp only [hkind] at h
    obtain ⟨node, s₁, hcall, h⟩ := bind_ok.1 h
    obtain ⟨rfl, rfl⟩ := pure_ok.1 h
    exact call_extends hr hlhs hs hread hkind hcall
  | _ =>
    simp only [hkind] at h
    exact stay h

/-- An operand with all that binds to it from behind is spelled by its tokens. -/
theorem postfixed_gives (hr : r.Spell) : (postfixed r).Gives Worded := by
  rintro s n s' hs - h
  obtain ⟨first, s₁, u, hread, hfirst, h⟩ := (primary_gives hr).first hs h
  obtain ⟨v, hread₁, hv⟩ := loop_extends Worded (fun _ _ => suffix_extends hr) hfirst hs hread h
  exact ⟨u ++ v, hread₁, hv⟩

/-! ### Operators -/

section Operators

variable {words : List String} {kind : TokenKind} {op : BinaryOp}

/-- A token of a kind that is no identifier may be skipped in any expression. -/
theorem writes_of_atKind (h : s.kind = kind) (hend : kind ≠ .eof)
    (hkind : kind.isIdentifier = false) : s.kind ≠ .eof ∧ s.peek.Writes words :=
  ⟨h ▸ hend, Token.writes_of_kind h hkind⟩

/-- A word may be skipped in an expression that is written with it. -/
theorem writes_of_atWord {word : String} (h : s.atWord word = true) (hword : word ∈ words) :
    s.kind ≠ .eof ∧ s.peek.Writes words :=
  ⟨Stream.ne_eof_of_atWord h, Token.writes_of_isWord h hword⟩

/-- The token of a sign is one that the node of the sign is written with. -/
theorem writes_of_sign? {op : UnaryOp} (h : sign? s = some op) :
    s.kind ≠ .eof ∧ s.peek.Writes (Kind.unary op).words := by
  rw [sign?] at h
  cases hkind : s.kind with
  | minus | plus => exact hkind ▸ writes_of_atKind hkind (by simp) rfl
  | word =>
    simp only [hkind, Option.ite_none_right_eq_some, Option.some.injEq] at h
    obtain ⟨hat, rfl⟩ := h
    exact hkind ▸ writes_of_atWord hat (by decide)
  | _ => simp [hkind] at h

/-- The token of the power is one that its node is written with. -/
theorem writes_of_power? (h : power? s = some op) :
    s.kind ≠ .eof ∧ s.peek.Writes (Kind.binary op).words := by
  rw [power?] at h
  cases hkind : s.kind with
  | power => exact hkind ▸ writes_of_atKind hkind (by simp) rfl
  | _ => simp [hkind] at h

/-- The token of a multiplicative operator is one that its node is written with, `MOD` included. -/
theorem writes_of_multiplicative? (h : multiplicative? s = some op) :
    s.kind ≠ .eof ∧ s.peek.Writes (Kind.binary op).words := by
  rw [multiplicative?] at h
  cases hkind : s.kind with
  | star | slash => exact hkind ▸ writes_of_atKind hkind (by simp) rfl
  | word =>
    simp only [hkind, Option.ite_none_right_eq_some, Option.some.injEq] at h
    obtain ⟨hat, rfl⟩ := h
    exact hkind ▸ writes_of_atWord hat (by decide)
  | _ => simp [hkind] at h

/-- The token of an additive operator is one that its node is written with. -/
theorem writes_of_additive? (h : additive? s = some op) :
    s.kind ≠ .eof ∧ s.peek.Writes (Kind.binary op).words := by
  rw [additive?] at h
  cases hkind : s.kind with
  | plus | minus | concat => exact hkind ▸ writes_of_atKind hkind (by simp) rfl
  | _ => simp [hkind] at h

/-- The token of a comparison is one that its node is written with, be it a sign or a word. -/
theorem writes_of_comparison? (h : comparison? s = some op) :
    s.kind ≠ .eof ∧ s.peek.Writes (Kind.binary op).words := by
  rw [comparison?] at h
  cases hkind : s.kind with
  | eq | notEq | lt | gt | ltEq | gtEq => exact hkind ▸ writes_of_atKind hkind (by simp) rfl
  | word =>
    simp only [hkind] at h
    split at h
    · obtain rfl := Option.some.inj h
      exact hkind ▸ writes_of_atWord ‹_› (by decide)
    split at h
    · obtain rfl := Option.some.inj h
      exact hkind ▸ writes_of_atWord ‹_› (by decide)
    · rw [Option.ite_none_right_eq_some, Option.some.injEq] at h
      obtain ⟨hat, rfl⟩ := h
      exact hkind ▸ writes_of_atWord hat (by decide)
  | _ => simp [hkind] at h

/-- A `NOT` is read only where a comparison follows it that is written with one. -/
theorem comparison?_of_negated (h : atNegatedComparison s = true) :
    ∃ op, comparison? s.advance = some op ∧ s.kind ≠ .eof ∧
      s.peek.Writes (Kind.binary op).words := by
  simp only [atNegatedComparison, Bool.and_eq_true, Bool.or_eq_true, ← Stream.atWord_advance] at h
  suffices hop : ∃ op, comparison? s.advance = some op ∧ "not" ∈ (Kind.binary op).words by
    obtain ⟨op, hop, hnot⟩ := hop
    exact ⟨op, hop, writes_of_atWord h.1 hnot⟩
  rcases h.2 with (hat | hat) | hat <;>
  · simp only [comparison?, Stream.kind_of_atWord hat, hat, if_true]
    repeat' split
    all_goals exact ⟨_, rfl, by decide⟩

end Operators

/-- An expression with signs in front is spelled by its tokens, signs included. -/
theorem signed_gives (hr : r.Spell) : (signed r).Gives Worded := by
  rintro s n s' hs - h
  rw [signed, get_bind] at h
  cases hsign : sign? s with
  | none =>
    simp only [hsign] at h
    exact postfixed_gives hr hs trivial h
  | some op =>
    obtain ⟨hat, hwrites⟩ := writes_of_sign? hsign
    simp only [hsign, bump_bind] at h
    obtain ⟨operand, s₁, v, hread, hoperand, h⟩ :=
      hr.signed.bind hs (Stream.reads_advance hs hat) h
    obtain ⟨rfl, rfl⟩ := pure_ok.1 h
    exact ⟨_, hread, unary_worded op hwrites hoperand (hread.ordered hs)⟩

/-- Powers are spelled by their tokens, operand by operand. -/
theorem powers_gives (hr : r.Spell) : (chain (signed r) power?).Gives Worded :=
  chain_gives (signed_gives hr) fun _ _ => writes_of_power?

/-- Products and quotients are spelled by their tokens, factor by factor. -/
theorem factors_gives (hr : r.Spell) :
    (chain (chain (signed r) power?) multiplicative?).Gives Worded :=
  chain_gives (powers_gives hr) fun _ _ => writes_of_multiplicative?

/-- An expression of the additive level is spelled by its tokens. -/
theorem additive_gives (hr : r.Spell) : (additive r).Gives Worded :=
  chain_gives (factors_gives hr) fun _ _ => writes_of_additive?

/-- A single operand on the right side of a comparison, after its left side and the
tokens `w`.  The node starts where its left side does. -/
theorem plainOf_extends {p : Parser Node} {w : List Token} (op : BinaryOp) (hp : p.Gives Worded)
    (hlhs : Worded u lhs) (hw : ∀ token ∈ w, token.Writes (Kind.binary op).words)
    (hs : s₀.Sound) (hread : s₀.Reads (u ++ w) s)
    (h : (p >>= fun rhs => pure (binary op lhs rhs)) s = .ok (n, s')) :
    ∃ v, s₀.Reads (u ++ v) s' ∧ Worded (u ++ v) n ∧ ∃ b, n.span = lhs.span.cover b := by
  obtain ⟨rhs, s₁, v, hread₁, hrhs, h⟩ := hp.bind hs hread h
  obtain ⟨rfl, rfl⟩ := pure_ok.1 h
  rw [List.append_assoc] at hread₁
  exact ⟨_, hread₁, binary_worded op hlhs hrhs hw (hread₁.ordered hs), _, rfl⟩

/-- The right side of a comparison, after its left side and the tokens `w`. -/
theorem comparisonOf_extends (hr : r.Spell) {op : BinaryOp} {w : List Token}
    (hlhs : Worded u lhs) (hw : ∀ token ∈ w, token.Writes (Kind.binary op).words)
    (hs : s₀.Sound) (hread : s₀.Reads (u ++ w) s) (h : comparisonOf r op lhs s = .ok (n, s')) :
    ∃ v, s₀.Reads (u ++ v) s' ∧ Worded (u ++ v) n ∧ ∃ b, n.span = lhs.span.cover b := by
  cases op with
  | between =>
    simp only [comparisonOf] at h
    obtain ⟨low, s₁, v₁, hread₁, hlow, h⟩ := (additive_gives hr).bind hs hread h
    obtain ⟨and_, s₂, v₂, hread₂, ⟨rfl, hand⟩, h⟩ := (expectWord_gives "and").bind hs hread₁ h
    obtain ⟨high, s₃, v₃, hread₃, hhigh, h⟩ := (additive_gives hr).bind hs hread₂ h
    obtain ⟨rfl, rfl⟩ := pure_ok.1 h
    simp only [List.append_assoc] at hread₃
    exact ⟨_, hread₃, ternary_worded .between hlhs hlow hhigh hw
      (Token.writes_of_isWord hand (by decide)) (hread₃.ordered hs), _, rfl⟩
  | member => exact plainOf_extends .member (primary_gives hr) hlhs hw hs hread h
  | like =>
    simp only [comparisonOf] at h
    obtain ⟨pattern, s₁, v₁, hread₁, hpattern, h⟩ := (additive_gives hr).bind hs hread h
    obtain ⟨read, s₂, v₂, hread₂, hescape, h⟩ := (eatWord_gives "escape").bind hs hread₁ h
    rcases hescape with ⟨rfl, word, rfl, hword⟩ | ⟨rfl, rfl⟩
    · rw [if_pos rfl] at h
      obtain ⟨escape, s₃, v₃, hread₃, hescape, h⟩ := (additive_gives hr).bind hs hread₂ h
      obtain ⟨rfl, rfl⟩ := pure_ok.1 h
      simp only [List.append_assoc] at hread₃
      have ho := hread₃.ordered hs
      have hescaped : Phrase Kind.isExpression ([word] ++ v₃) escape := hescape.phrase.skip [word]
      have hle : pattern.span.stop ≤ escape.span.stop :=
        hpattern.phrase.stop_le hescaped
          (List.pairwise_append.1 (List.pairwise_append.1 ho).2.1).2.1
      have hspan : (binary .like lhs pattern).span.cover escape.span =
          lhs.span.cover escape.span := Span.cover_cover hle
      rw [hspan]
      exact ⟨_, hread₃, ternary_worded .like hlhs hpattern hescape hw
        (Token.writes_of_isWord hword (by decide)) ho, _, rfl⟩
    · rw [if_neg (by simp)] at h
      obtain ⟨rfl, rfl⟩ := pure_ok.1 h
      simp only [List.append_assoc, List.append_nil] at hread₂
      exact ⟨_, hread₂, binary_worded .like hlhs hpattern hw (hread₂.ordered hs), _, rfl⟩
  | _ => exact plainOf_extends _ (additive_gives hr) hlhs hw hs hread h

/-- A test for null makes a longer expression of its operand, spelled by the tokens of both. -/
theorem nullTest_extends (hlhs : Worded u lhs) (hs : s₀.Sound) (hread : s₀.Reads u s)
    (hat : s.atWord "is" = true) (h : nullTest lhs s = .ok (n, s')) :
    ∃ v, s₀.Reads (u ++ v) s' ∧ Worded (u ++ v) n := by
  rw [nullTest, bump_bind] at h
  have hread₁ := hread.bump hs (Stream.ne_eof_of_atWord hat)
  obtain ⟨negated, s₁, v, hread₂, hnot, h⟩ := (eatWord_gives "not").bind hs hread₁ h
  obtain ⟨null, s₂, w, hread₃, ⟨rfl, hnull⟩, h⟩ := (expectWord_gives "null").bind hs hread₂ h
  obtain ⟨rfl, rfl⟩ := pure_ok.1 h
  simp only [List.append_assoc] at hread₃
  have haccounted : Accounted (Placed (.unary (if negated then .isNotNull else .isNull)) [lhs])
      ([s.peek] ++ (v ++ [null])) := by
    refine .words (List.forall_mem_append.2 ⟨?_, List.forall_mem_append.2 ⟨?_, ?_⟩⟩)
    · exact (Token.writes_of_isWord hat (by cases negated <;> decide)).single
    · rcases hnot with ⟨rfl, not_, rfl, hnot⟩ | ⟨rfl, rfl⟩
      · exact (Token.writes_of_isWord hnot (by decide)).single
      · simp
    · exact (Token.writes_of_isWord hnull (by cases negated <;> decide)).single
  exact ⟨_, hread₃, hlhs.grow (Spells.skips _) haccounted (hread₃.ordered hs)
    (by simp [List.getLast?_cons]) rfl ⟨_, rfl, hlhs.kind⟩ (by simp) rfl⟩

/-- The operator of a comparison and its right side, after the tokens `w`. -/
theorem operator_extends {negated : Prop} [Decidable negated] {op : BinaryOp} {w : List Token}
    (hr : r.Spell) (hlhs : Worded u lhs) (hw : ∀ token ∈ w, token.Writes (Kind.binary op).words)
    (hs : s₀.Sound) (hread : s₀.Reads (u ++ w) s) (hop : comparison? s = some op)
    (h : (bump >>= fun _ => comparisonOf r op lhs >>= fun node =>
      pure (if negated then unary .not lhs.span node else node)) s = .ok (n, s')) :
    ∃ used, s₀.Reads used s' ∧ Worded used n := by
  obtain ⟨hat, hwrites⟩ := writes_of_comparison? hop
  rw [bump_bind] at h
  obtain ⟨node, s₁, hnode, h⟩ := bind_ok.1 h
  have hread₁ := hread.bump hs hat
  rw [List.append_assoc] at hread₁
  have hall := List.forall_mem_append.2 ⟨hw, hwrites.single⟩
  obtain ⟨v, hv, hworded, b, hb⟩ := comparisonOf_extends hr hlhs hall hs hread₁ hnode
  obtain ⟨rfl, rfl⟩ := pure_ok.1 h
  refine ⟨_, hv, ?_⟩
  split
  · have hspan : lhs.span.cover node.span = node.span := by
      rw [hb, Span.cover_self_cover]
    rw [unary, hspan]
    exact hworded.wrap .not
  · exact hworded

/-- A comparison is spelled by its tokens.  `NOT` is a word of one of the two tests only, so where
it was read in front of a comparison a node of its own is made for it. -/
theorem comparison_gives (hr : r.Spell) : (comparison r).Gives Worded := by
  rintro s n s' hs - h
  obtain ⟨lhs, s₁, u, hread, hlhs, h⟩ := (additive_gives hr).first hs h
  rw [get_bind] at h
  split at h
  case isTrue his =>
    obtain ⟨v, hv, hworded⟩ := nullTest_extends hlhs hs hread his h
    exact ⟨_, hv, hworded⟩
  rw [get_bind] at h
  cases hnegated : atNegatedComparison s₁ with
  | false =>
    rw [hnegated, if_neg (by simp)] at h
    beta_reduce at h
    rw [get_bind] at h
    cases hop : comparison? s₁ with
    | none =>
      simp only [hop] at h
      obtain ⟨rfl, rfl⟩ := pure_ok.1 h
      exact ⟨u, hread, hlhs⟩
    | some op =>
      simp only [hop] at h
      rw [← List.append_nil u] at hread
      exact operator_extends hr hlhs (by simp) hs hread hop h
  | true =>
    obtain ⟨op, hop, hnot, hwrites⟩ := comparison?_of_negated hnegated
    rw [hnegated, if_pos rfl, bump_bind] at h
    beta_reduce at h
    rw [get_bind] at h
    simp only [hop] at h
    exact operator_extends hr hlhs hwrites.single hs (hread.bump hs hnot) hop h

/-- An expression with `NOT` in front is spelled by its tokens, the `NOT` included. -/
theorem negation_gives (hr : r.Spell) : (negation r).Gives Worded := by
  rintro s n s' hs - h
  rw [negation, get_bind] at h
  split at h
  case isTrue hnot =>
    rw [bump_bind] at h
    obtain ⟨operand, s₁, v, hread, hoperand, h⟩ :=
      hr.negation.bind hs (Stream.reads_advance hs (Stream.ne_eof_of_atWord hnot)) h
    obtain ⟨rfl, rfl⟩ := pure_ok.1 h
    exact ⟨_, hread, unary_worded .not (Token.writes_of_isWord hnot (by decide)) hoperand
      (hread.ordered hs)⟩
  case isFalse => exact comparison_gives hr hs trivial h

/-- Expressions with `AND` between them are spelled by their tokens. -/
theorem conjuncts_gives (hr : r.Spell) : (chain (negation r) and?).Gives Worded := by
  refine chain_gives (negation_gives hr) ?_
  intro s op hop
  rw [and?, Option.ite_none_right_eq_some, Option.some.injEq] at hop
  obtain ⟨hat, rfl⟩ := hop
  exact writes_of_atWord hat (by decide)

/-- An expression is spelled by its tokens, from the loosest level down. -/
theorem expression_gives (hr : r.Spell) : (expression r).Gives Worded := by
  refine chain_gives (conjuncts_gives hr) ?_
  intro s op hop
  rw [or?, Option.ite_none_right_eq_some, Option.some.injEq] at hop
  obtain ⟨hat, rfl⟩ := hop
  exact writes_of_atWord hat (by decide)

end Grammar

end PlsqlAudit
