import PlsqlAudit.Grammar.Statement
import PlsqlAudit.Proofs.EmbeddedBodies

/-!
# Statements in a longer text

A statement looks ahead by up to three tokens, and an `OPEN` by as many as the
name of its cursor has.  None of these looks leaves the text where others follow
it: in front of what it finds there stand only tokens that are not semicolons,
and the text ends with one.  A label whose parts are not there is an error in any
case.
-/

namespace PlsqlAudit

open PlsqlAudit.Grammar PlsqlAudit.Parser

namespace Embedding

variable {E : Embedding} {depth : Nat} {r r' : Rules} {s : Stream}

/-- An assignment or a call read in the inner text is read again, part by part, in the text around
it. -/
theorem simpleStatement_follows (hr : E.RulesFollow depth r r') (hs : E.Inner s)
    (hlen : s.rest.length ≤ depth) :
    E.Follows false 1 s (simpleStatement r s) (simpleStatement r' (E.lift s)) := by
  refine .bind (peekSpan_follows hs) fun start s₁ hs₁ hlen₁ => ?_
  refine .bind (postfixed_follows hr hs₁ (by omega)) fun target s₂ hs₂ hlen₂ => ?_
  extract_lets rest rest'
  have hrest (parts : Kind × List Node) (u : Stream) (hu : E.Inner u) :
      E.Follows false 0 u (rest parts u) (rest' (E.move parts) (E.lift u)) :=
    .bind (expect_follows hu .semicolon ";" rfl) fun finish u₁ hu₁ _ => .pure hu₁ (by simp)
  refine .bind (eat_follows hs₂ .assign rfl) fun read s₃ hs₃ hlen₃ => ?_
  refine .branch rfl (fun _ => ?_) fun _ => hrest (.callStatement, [target]) s₃ hs₃
  refine .bind (hr.expression s₃ hs₃ (by omega)) fun value s₄ hs₄ _ => ?_
  exact hrest (.assignment, [target, value]) s₄ hs₄

/-! ### Control structures -/

/-- A condition with the statements it guards is read alike in both texts. -/
theorem guarded_follows (hr : E.RulesFollow depth r r') (hs : E.Inner s)
    (hlen : s.rest.length < depth) :
    E.Follows false 0 s (guarded r s) (guarded r' (E.lift s)) := by
  refine .bind (hr.expression s hs hlen) fun condition s₁ hs₁ hlen₁ => ?_
  refine .bind (expectWord_follows hs₁ "then") fun _ s₂ hs₂ hlen₂ => ?_
  refine .bind (statements_follows hr hs₂ (by omega) _) fun list s₃ hs₃ _ => ?_
  exact .pure hs₃ (by simp)

/-- A branch of an `IF` statement is read alike in both texts, where its word stands in the inner
one. -/
theorem ifBranch_follows (hr : E.RulesFollow depth r r') (hs : E.Inner s)
    (hlen : s.rest.length < depth) (hat : s.atAnyWord ["elsif", "else"] = true) :
    E.Follows false 1 s (ifBranch r s) (ifBranch r' (E.lift s)) := by
  have hadvance := s.length_advance_le
  refine .eatWord hs "elsif" (fun _ => guarded_follows hr hs.advance (by omega)) fun hnot => ?_
  refine .eatWord hs "else" (fun _ => statements_follows hr hs.advance (by omega) _) fun hnot' => ?_
  simp only [Stream.atAnyWord, Stream.atWord, Token.isAnyWord, Token.isWord, Bool.and_eq_true,
    Bool.and_eq_false_iff, List.contains_cons, List.contains_nil, Bool.or_false] at hat hnot hnot'
  simp_all

/-- An `IF` statement is read alike in both texts: its condition, its branches, and the words that
close it. -/
theorem ifStatement_follows (hr : E.RulesFollow depth r r') (hs : E.Inner s)
    (hlen : s.rest.length ≤ depth) (hkind : s.kind ≠ .eof) :
    E.Follows false 1 s (ifStatement r s) (ifStatement r' (E.lift s)) := by
  refine .bind (bump_follows hs hkind) fun start s₁ hs₁ hlen₁ => ?_
  refine .bind (guarded_follows hr hs₁ (by omega)) fun first s₂ hs₂ hlen₂ => ?_
  have hbranch (u : Stream) (hu : E.Inner u) (hle : u.rest.length ≤ s₂.rest.length)
      (hat : u.atAnyWord ["elsif", "else"] = true) := ifBranch_follows hr hu (by omega) hat
  refine .bind (many_follows (fun u hu _ => atAnyWord_lift hu _) hbranch hs₂ (Nat.le_refl _))
    fun others s₃ hs₃ _ => ?_
  refine .bind (expectWord_follows hs₃ "end") fun _ s₄ hs₄ _ => ?_
  refine .bind (expectWord_follows hs₄ "if") fun _ s₅ hs₅ _ => ?_
  refine .bind (expect_follows hs₅ .semicolon ";" rfl) fun finish s₆ hs₆ _ => ?_
  exact .pure hs₆ (by simp)

/-- A choice of a `CASE` statement is read alike in both texts, with the statements that belong to
it. -/
theorem choiceBranch_follows (hr : E.RulesFollow depth r r') (hs : E.Inner s)
    (hlen : s.rest.length < depth) :
    E.Follows false 1 s (choiceBranch r s) (choiceBranch r' (E.lift s)) := by
  refine .bind (bump_follows_of_any hs) fun _ s₁ hs₁ hlen₁ => ?_
  refine .bind (hr.expression s₁ hs₁ (by omega)) fun choice s₂ hs₂ hlen₂ => ?_
  refine .bind (expectWord_follows hs₂ "then") fun _ s₃ hs₃ hlen₃ => ?_
  refine .bind (statements_follows hr hs₃ (by omega) _) fun list s₄ hs₄ _ => ?_
  exact .pure hs₄ (by simp)

/-- A `CASE` statement is read alike in both texts, whether or not it has a selector and an `ELSE`
part. -/
theorem caseStatement_follows (hr : E.RulesFollow depth r r') (hs : E.Inner s)
    (hlen : s.rest.length ≤ depth) (hkind : s.kind ≠ .eof) :
    E.Follows false 1 s (caseStatement r s) (caseStatement r' (E.lift s)) := by
  refine .bind (bump_follows hs hkind) fun start s₁ hs₁ hlen₁ => ?_
  refine .listUnless hs₁ (atWord_lift hs₁ "when") (fun _ => hr.expression s₁ hs₁ (by omega))
    fun selector s₂ hs₂ hlen₂ => ?_
  have hbranch (u : Stream) (hu : E.Inner u) (hle : u.rest.length ≤ s₂.rest.length)
      (_ : u.atWord "when" = true) := choiceBranch_follows hr hu (by omega)
  refine .bind (many_follows (fun u hu _ => atWord_lift hu "when") hbranch hs₂ (Nat.le_refl _))
    fun branches s₃ hs₃ hlen₃ => ?_
  refine .bind (eatWord_follows hs₃ "else") fun read s₄ hs₄ hlen₄ => ?_
  refine .either rfl (fun _ => statements_follows hr hs₄ (by omega) _) (fun _ => .pure hs₄ (by simp))
    fun otherwise s₅ hs₅ _ => ?_
  refine .bind (expectWord_follows hs₅ "end") fun _ s₆ hs₆ _ => ?_
  refine .bind (expectWord_follows hs₆ "case") fun _ s₇ hs₇ _ => ?_
  refine .bind (eatEndLabel_follows hs₇) fun _ s₈ hs₈ _ => ?_
  refine .bind (expect_follows hs₈ .semicolon ";" rfl) fun finish s₉ hs₉ _ => ?_
  exact .pure hs₉ (by simp)

/-- Each of the loops (plain, `WHILE` and `FOR`) is read alike in both texts up to the `END LOOP`
behind it. -/
theorem loopStatement_follows (hr : E.RulesFollow depth r r') (hs : E.Inner s)
    (hlen : s.rest.length ≤ depth) :
    E.Follows false 1 s (loopStatement r s) (loopStatement r' (E.lift s)) := by
  refine .bind (peekSpan_follows hs) fun start s₁ hs₁ hlen₁ => ?_
  refine .bindRun (eatWord_follows hs₁ "while") fun read s₂ hs₂ hlen₂ hrun => ?_
  have hcondition (hread : read = true) :
      E.Follows false 1 s₂ (r.expression s₂) (r'.expression (E.lift s₂)) := by
    subst hread
    have hread := length_of_eatWord hs₁ hrun
    exact hr.expression s₂ hs₂ (by omega)
  refine .listIf hs₂ rfl hcondition fun condition s₃ hs₃ hlen₃ => ?_
  beta_reduce
  extract_lets rest rest'
  have hrest (u : Stream) (hu : E.Inner u) (hle : u.rest.length ≤ s₃.rest.length) :
      E.Follows false 1 u (rest () u) (rest' () (E.lift u)) := by
    refine .bind (expectWord_follows hu "loop") fun _ s₄ hs₄ hlen₄ => ?_
    refine .bind (statements_follows hr hs₄ (by omega) _) fun list s₅ hs₅ _ => ?_
    refine .bind (expectWord_follows hs₅ "end") fun _ s₆ hs₆ _ => ?_
    refine .bind (expectWord_follows hs₆ "loop") fun _ s₇ hs₇ _ => ?_
    refine .bind (eatEndLabel_follows hs₇) fun _ s₈ hs₈ _ => ?_
    refine .bind (expect_follows hs₈ .semicolon ";" rfl) fun finish s₉ hs₉ _ => ?_
    exact .pure hs₉ (by simp)
  refine .branch (isEmpty_move condition) (fun _ => ?_) fun _ => hrest s₃ hs₃ (Nat.le_refl _)
  refine .bind (eatWord_follows hs₃ "for") fun read s₄ hs₄ hlen₄ => ?_
  refine .branch rfl (fun _ => ?_) fun _ => hrest s₄ hs₄ hlen₄
  refine .bind (skipUntil_follows hs₄ fun u hu _ => atWord_lift hu "loop") fun _ s₅ hs₅ hlen₅ => ?_
  exact hrest s₅ hs₅ (by omega)

/-- A `FORALL` statement is read alike in both texts, with the statement that it repeats. -/
theorem forallStatement_follows (hr : E.RulesFollow depth r r') (hs : E.Inner s)
    (hlen : s.rest.length ≤ depth) (hkind : s.kind ≠ .eof) :
    E.Follows false 1 s (forallStatement r s) (forallStatement r' (E.lift s)) := by
  refine .bind (bump_follows hs hkind) fun start s₁ hs₁ hlen₁ => ?_
  refine .bind (skipUntil_follows hs₁ fun u hu _ => atAnyWord_lift hu _) fun _ s₂ hs₂ hlen₂ => ?_
  refine .bind (hr.statement s₂ hs₂ (by omega)) fun inner s₃ hs₃ _ => ?_
  refine .bind (lastSpan_follows hs₃) fun last s₄ hs₄ _ => ?_
  exact .pure hs₄ (by simp)

/-! ### Dynamic statements -/

/-- A bind argument is read alike in both texts, with or without the mode in front of it. -/
theorem bindArgument_follows (hr : E.RulesFollow depth r r') (hs : E.Inner s)
    (hlen : s.rest.length < depth) :
    E.Follows false 1 s (bindArgument r s) (bindArgument r' (E.lift s)) := by
  refine .bind (eatWord_follows hs "in") fun _ s₁ hs₁ hlen₁ => ?_
  refine .bind (eatWord_follows hs₁ "out") fun _ s₂ hs₂ hlen₂ => ?_
  exact hr.expression s₂ hs₂ (by omega)

/-- A `USING` clause is read alike in both texts, one argument after the other. -/
theorem usingClause_follows (hr : E.RulesFollow depth r r') (hs : E.Inner s)
    (hlen : s.rest.length < depth) (hkind : s.kind ≠ .eof) :
    E.Follows false 1 s (usingClause r s) (usingClause r' (E.lift s)) := by
  refine .bind (bump_follows hs hkind) fun start s₁ hs₁ hlen₁ => ?_
  have hitem (u : Stream) (hu : E.Inner u) (hle : u.rest.length ≤ s₁.rest.length) :=
    bindArgument_follows hr hu (by omega)
  refine .bind (separated_follows hitem hs₁ (Nat.le_refl _)) fun binds s₂ hs₂ _ => ?_
  refine .bind (lastSpan_follows hs₂) fun last s₃ hs₃ _ => ?_
  exact .pure hs₃ (by simp)

/-- An `INTO` clause is read alike in both texts; what it lists is skipped up to the next clause. -/
theorem intoClause_follows (hs : E.Inner s) (hkind : s.kind ≠ .eof) :
    E.Follows false 1 s (intoClause s) (intoClause (E.lift s)) := by
  refine .bind (bump_follows hs hkind) fun start s₁ hs₁ _ => ?_
  refine .bind (skipUntil_follows hs₁ fun u hu _ => ?_) fun _ s₂ hs₂ _ => ?_
  · rw [atKind_lift hu .semicolon rfl, atAnyWord_lift hu]
  refine .bind (lastSpan_follows hs₂) fun last s₃ hs₃ _ => ?_
  exact .pure hs₃ (by simp)

/-- A clause behind `EXECUTE IMMEDIATE` is read alike in both texts, whichever of the words it
starts with. -/
theorem executeClause_follows (hr : E.RulesFollow depth r r') (hs : E.Inner s)
    (hlen : s.rest.length < depth) (hkind : s.kind ≠ .eof) :
    E.Follows false 1 s (executeClause r s) (executeClause r' (E.lift s)) :=
  .branch (atWord_lift hs "using") (fun _ => usingClause_follows hr hs hlen hkind)
    fun _ => intoClause_follows hs hkind

/-- An `EXECUTE IMMEDIATE` statement is read alike in both texts: its operand first, then all of
its clauses. -/
theorem executeImmediate_follows (hr : E.RulesFollow depth r r') (hs : E.Inner s)
    (hlen : s.rest.length ≤ depth) (hkind : s.kind ≠ .eof) :
    E.Follows false 1 s (executeImmediate r s) (executeImmediate r' (E.lift s)) := by
  refine .bind (bump_follows hs hkind) fun start s₁ hs₁ hlen₁ => ?_
  refine .bind (bump_follows_of_any hs₁) fun _ s₂ hs₂ hlen₂ => ?_
  refine .bind (hr.expression s₂ hs₂ (by omega)) fun sql s₃ hs₃ hlen₃ => ?_
  have hclause (u : Stream) (hu : E.Inner u) (hle : u.rest.length ≤ s₃.rest.length)
      (hat : u.atAnyWord ["into", "bulk", "returning", "return", "using"] = true) :=
    executeClause_follows hr hu (by omega) (Stream.ne_eof_of_atAnyWord hat)
  refine .bind (many_follows (fun u hu _ => atAnyWord_lift hu _) hclause hs₃ (Nat.le_refl _))
    fun clauses s₄ hs₄ _ => ?_
  refine .bind (expect_follows hs₄ .semicolon ";" rfl) fun finish s₅ hs₅ _ => ?_
  exact .pure hs₅ (by simp)

/-- The members of a dotted name end before the last semicolon of a text. -/
theorem dropMembers_lift {tokens : List Token} (hslash : ∀ t ∈ E.tail.head?, t.kind = .slash)
    (hends : E.tail ≠ [] → ∀ t ∈ tokens.getLast?, t.kind = .semicolon) :
    dropMembers (tokens.map E.token ++ E.tail) = (dropMembers tokens).map E.token ++ E.tail := by
  have hstop (t : Token) (ht : t.kind ≠ .dot) (more : List Token) :
      dropMembers (t :: more) = t :: more := by
    cases more with
    | nil => rfl
    | cons u more => simp [dropMembers, ht]
  fun_induction dropMembers tokens with
  | case1 dot member rest hmember ih =>
    have hmember' : ((E.token dot).kind == .dot && (E.token member).kind.isIdentifier) = true :=
      hmember
    rw [List.map_cons, List.map_cons, List.cons_append, List.cons_append, dropMembers,
      if_pos hmember']
    refine ih fun htail t ht => hends htail t ?_
    rw [List.getLast?_cons, List.getLast?_cons, Option.mem_def.1 ht]
    rfl
  | case2 dot member rest hmember =>
    have hmember' : ¬ ((E.token dot).kind == .dot && (E.token member).kind.isIdentifier) = true :=
      hmember
    rw [List.map_cons, List.map_cons, List.cons_append, List.cons_append, dropMembers,
      if_neg hmember']
  | case3 tokens hshort =>
    cases htail : E.tail with
    | nil =>
      cases tokens with
      | nil => rfl
      | cons t rest =>
        cases rest with
        | nil => rfl
        | cons u rest => exact absurd rfl (hshort t u rest)
    | cons slash more =>
      have hkind := hslash slash (by simp [htail])
      cases tokens with
      | nil => exact hstop slash (by simp [hkind]) more
      | cons t rest =>
        cases rest with
        | nil =>
          have ht : t.kind = .semicolon := hends (by simp [htail]) t (by simp)
          exact hstop (E.token t) (by simp [token, ht]) (slash :: more)
        | cons u rest => exact absurd rfl (hshort t u rest)

/-- What is left behind a dotted name ends where the tokens end. -/
theorem getLast?_dropMembers {tokens : List Token} {t : Token} (hlast : tokens.getLast? = some t)
    (ht : t.kind = .semicolon) : (dropMembers tokens).getLast? = some t := by
  fun_induction dropMembers tokens with
  | case1 dot member rest hmember ih =>
    cases hrest : rest.getLast? with
    | some u =>
      apply ih
      simpa [List.getLast?_cons, hrest] using hlast
    | none =>
      have hmember : member.kind.isIdentifier = true := (Bool.and_eq_true_iff.1 hmember).2
      obtain rfl : member = t := by simpa [List.getLast?_cons, hrest] using hlast
      simp [ht, TokenKind.isIdentifier] at hmember
  | case2 dot member rest hmember => exact hlast
  | case3 tokens hshort => exact hlast

/-- What is left behind the members of a dotted name is part of what was there before. -/
theorem mem_of_mem_dropMembers {tokens : List Token} {t : Token} (h : t ∈ dropMembers tokens) :
    t ∈ tokens := by
  fun_induction dropMembers tokens with
  | case1 dot member rest hmember ih => exact List.mem_cons_of_mem _ (List.mem_cons_of_mem _ (ih h))
  | case2 dot member rest hmember => exact h
  | case3 tokens hshort => exact h

/-- The token behind a dotted name is the same in both texts. -/
theorem headD_dropMembers_lift {tokens : List Token} (hE : E.Lawful)
    (hends : E.tail ≠ [] → ∃ t, tokens.getLast? = some t ∧ t.kind = .semicolon) :
    (dropMembers (tokens.map E.token ++ E.tail)).headD E.outerEof =
      E.token ((dropMembers tokens).headD E.eof) := by
  rw [dropMembers_lift hE.slash]
  · cases hdrop : dropMembers tokens with
    | cons t rest => rfl
    | nil =>
      by_cases htail : E.tail = []
      · simp [htail, hE.outerEof htail]
      · obtain ⟨t, hlast, ht⟩ := hends htail
        have hlast := getLast?_dropMembers hlast ht
        simp [hdrop] at hlast
  · intro htail t ht
    obtain ⟨u, hlast, hu⟩ := hends htail
    obtain rfl : u = t := by simpa [hlast] using ht
    exact hu

/-- Behind a token that is no semicolon, the semicolon at the end is still to
come. -/
theorem exists_getLast?_of_cons {t : Token} {rest : List Token}
    (hends : ∀ u ∈ (t :: rest).getLast?, u.kind = .semicolon) (ht : t.kind ≠ .semicolon) :
    ∃ u, rest.getLast? = some u ∧ u.kind = .semicolon := by
  cases hlast : rest.getLast? with
  | none => exact absurd (hends t (by simp [List.getLast?_cons, hlast])) ht
  | some u => exact ⟨u, rfl, hends u (by simp [List.getLast?_cons, hlast])⟩

/-- Whether an `OPEN` statement has a query behind its cursor is seen alike in both texts, although
the look ahead goes over a name of any length. -/
theorem atOpenFor_lift (hs : E.Inner s) (hkind : s.kind = .word) :
    atOpenFor (E.lift s) = atOpenFor s := by
  obtain ⟨rest, hrest⟩ := hs.exists_cons (by simp [hkind])
  have hends : E.tail ≠ [] → ∃ u, rest.getLast? = some u ∧ u.kind = .semicolon := by
    intro htail
    have hlast := hs.ends htail
    rw [hrest] at hlast
    exact exists_getLast?_of_cons hlast (by simp [show s.peek.kind = .word from hkind])
  cases rest with
  | nil =>
    have htail : E.tail = [] := by
      by_contra htail
      obtain ⟨u, hu, -⟩ := hends htail
      simp at hu
    simp [atOpenFor, lift, hrest, htail]
  | cons cursor rest =>
    have hhere : atOpenFor s = ((cursor.kind.isIdentifier || cursor.kind == .bindVar) &&
        ((dropMembers rest).headD s.eof).isWord "for") := by
      rw [atOpenFor, hrest]
    have hthere : atOpenFor (E.lift s) = ((cursor.kind.isIdentifier || cursor.kind == .bindVar) &&
        ((dropMembers (rest.map E.token ++ E.tail)).headD E.outerEof).isWord "for") := by
      simp only [atOpenFor, lift, hrest, List.map_cons, List.cons_append]
      rfl
    rw [hhere, hthere]
    cases hcursor : cursor.kind.isIdentifier || cursor.kind == .bindVar with
    | false => rw [Bool.false_and, Bool.false_and]
    | true =>
      have hne : cursor.kind ≠ .semicolon := by
        intro hsemicolon
        simp [hsemicolon, TokenKind.isIdentifier] at hcursor
      have hends' (htail : E.tail ≠ []) : ∃ u, rest.getLast? = some u ∧ u.kind = .semicolon := by
        obtain ⟨u, hlast, hu⟩ := hends htail
        refine exists_getLast?_of_cons (fun v hv => ?_) hne
        obtain rfl : u = v := by simpa [hlast] using hv
        exact hu
      rw [headD_dropMembers_lift hs.lawful hends', hs.eof]
      refine congrArg (_ && ·) (isWord_token (fun hword => hs.known _ ?_) "for")
      rw [hrest]
      refine List.mem_cons_of_mem _ (List.mem_cons_of_mem _ (mem_of_mem_dropMembers ?_))
      cases hdrop : dropMembers rest with
      | nil =>
        rw [hdrop] at hword
        have heof := hs.lawful.ends
        simp [heof] at hword
      | cons t more => simp

/-- The query that a cursor is opened for is read alike in both texts, be it static or computed. -/
theorem openedQuery_follows (hr : E.RulesFollow depth r r') (hs : E.Inner s)
    (hlen : s.rest.length < depth) :
    E.Follows false 0 s (openedQuery r s) (openedQuery r' (E.lift s)) := by
  have hquery : (atQuery (E.lift s) || ((E.lift s).atKind .lParen &&
      ((E.lift s).atWordAt 1 "select" || (E.lift s).atWordAt 1 "with"))) =
      (atQuery s || (s.atKind .lParen && (s.atWordAt 1 "select" || s.atWordAt 1 "with"))) := by
    rw [atQuery_lift hs, atKind_lift hs .lParen rfl]
    cases hat : s.atKind .lParen with
    | false => rw [Bool.false_and, Bool.false_and]
    | true =>
      have hkind := Stream.kind_of_atKind hat
      have hnext := peekAt_one_lift hs (by simp [hkind]) (by simp [hkind])
      rw [isWord_peekAt hs hnext, isWord_peekAt hs hnext]
  unfold openedQuery
  rw [get_bind, get_bind]
  refine .branch hquery (fun _ => ?_) fun _ => (hr.expression s hs hlen).uncounted
  refine .bind (skipUntil_follows hs fun u hu _ => ?_) fun _ s₁ hs₁ hlen₁ => ?_
  · rw [atKind_lift hu .semicolon rfl, atWord_lift hu]
  refine .bind (lastSpan_follows hs₁) fun last s₂ hs₂ hlen₂ => ?_
  refine .answer hs₂ fun hend => ?_
  rw [peekSpan_move hs ((hend.resolve_left (by simp)).of_le (by omega)), move_leaf, move_cover]

/-- An `OPEN` statement is read alike in both texts, since both agree on whether a query
follows. -/
theorem openStatement_follows (hr : E.RulesFollow depth r r') (hs : E.Inner s)
    (hlen : s.rest.length ≤ depth) (hkind : s.kind = .word) :
    E.Follows false 1 s (openStatement r s) (openStatement r' (E.lift s)) := by
  have hne : s.kind ≠ .eof := by simp [hkind]
  refine .branch ?_ (fun _ => skipped_follows hs hne _) fun _ => ?_
  · rw [atOpenFor_lift hs hkind]
  refine .bind (bump_follows hs hne) fun start s₁ hs₁ hlen₁ => ?_
  refine .bind (postfixed_follows hr hs₁ (by omega)) fun cursor s₂ hs₂ hlen₂ => ?_
  refine .bind (expectWord_follows hs₂ "for") fun _ s₃ hs₃ hlen₃ => ?_
  refine .bind (openedQuery_follows hr hs₃ (by omega)) fun query s₄ hs₄ hlen₄ => ?_
  have hclause (hat : s₄.atWord "using" = true) :=
    usingClause_follows hr hs₄ (by omega) (Stream.ne_eof_of_atWord hat)
  refine .listIf hs₄ (atWord_lift hs₄ "using") hclause fun clause s₅ hs₅ _ => ?_
  refine .bind (expect_follows hs₅ .semicolon ";" rfl) fun finish s₆ hs₆ _ => ?_
  exact .pure hs₆ (by simp)

/-! ### All statements -/

/-- A `RETURN` statement is read alike in both texts, with or without its expression. -/
theorem returnStatement_follows (hr : E.RulesFollow depth r r') (hs : E.Inner s)
    (hlen : s.rest.length ≤ depth) (hkind : s.kind ≠ .eof) :
    E.Follows false 1 s (returnStatement r s) (returnStatement r' (E.lift s)) := by
  refine .bind (bump_follows hs hkind) fun start s₁ hs₁ hlen₁ => ?_
  refine .listUnless hs₁ (atKind_lift hs₁ .semicolon rfl) (fun _ => hr.expression s₁ hs₁ (by omega))
    fun value s₂ hs₂ _ => ?_
  refine .bind (expect_follows hs₂ .semicolon ";" rfl) fun finish s₃ hs₃ _ => ?_
  exact .pure hs₃ (by simp)

/-- A `NULL` statement is read alike in both texts. -/
theorem nullStatement_follows (hs : E.Inner s) (hkind : s.kind ≠ .eof) :
    E.Follows false 1 s (nullStatement s) (nullStatement (E.lift s)) := by
  refine .bind (bump_follows hs hkind) fun start s₁ hs₁ _ => ?_
  refine .bind (bump_follows_of_any hs₁) fun finish s₂ hs₂ _ => ?_
  exact .pure hs₂ (by simp)

/-- The statement that a word starts is read alike in both texts, whichever rule the word
selects. -/
theorem wordStatement_follows (hr : E.RulesFollow depth r r') (hs : E.Inner s)
    (hlen : s.rest.length ≤ depth) (hkind : s.kind = .word) (word : String) :
    E.Follows false 1 s (wordStatement r word s s)
      (wordStatement r' word (E.lift s) (E.lift s)) := by
  have hne : s.kind ≠ .eof := by simp [hkind]
  have hnext : ((E.lift s).peekAt 1).kind = (s.peekAt 1).kind := by
    rw [peekAt_one_lift hs hne (by simp [hkind])]
    rfl
  have hblock := (block_follows hr hs hlen).mono (n := 1) (c := false) (by omega) (by simp)
  unfold wordStatement
  rw [atWordAt_one_lift hs hkind, hnext]
  refine .branch rfl (fun _ => hblock) fun _ => ?_
  refine .branch rfl (fun _ => ifStatement_follows hr hs hlen hne) fun _ => ?_
  refine .branch rfl (fun _ => caseStatement_follows hr hs hlen hne) fun _ => ?_
  refine .branch rfl (fun _ => loopStatement_follows hr hs hlen) fun _ => ?_
  refine .branch rfl (fun _ => forallStatement_follows hr hs hlen hne) fun _ => ?_
  refine .branch rfl (fun _ => executeImmediate_follows hr hs hlen hne) fun _ => ?_
  refine .branch rfl (fun _ => openStatement_follows hr hs hlen hkind) fun _ => ?_
  refine .branch rfl (fun _ => returnStatement_follows hr hs hlen hne) fun _ => ?_
  refine .branch rfl (fun _ => skipped_follows hs hne _) fun _ => ?_
  refine .branch rfl (fun _ => nullStatement_follows hs hne) fun _ => ?_
  refine .branch rfl (fun _ => skipped_follows hs hne _) fun _ => ?_
  refine .branch rfl (fun _ => skipped_follows hs hne _) fun _ => ?_
  exact simpleStatement_follows hr hs hlen

/-- The parts of a label are there where one is read. -/
theorem parts_of_label {s₁ : Stream} (h : label s = .ok ((), s₁)) :
    (s.peekAt 1).kind.isIdentifier = true ∧ (s.peekAt 2).kind = .labelClose := by
  rw [label, bump_bind] at h
  obtain ⟨name, s₂, hname, h⟩ := bind_ok.1 h
  obtain ⟨close, s₃, hclose, -⟩ := bind_ok.1 h
  rw [expectIdentifier, get_bind] at hname
  rw [expect, get_bind] at hclose
  split at hname
  case isTrue hat =>
    obtain ⟨-, rfl⟩ : s.advance.peek = name ∧ s.advance.advance = s₂ := by
      simpa using (Except.ok.inj hname : (s.advance.peek, s.advance.advance) = (name, s₂))
    split at hclose
    case isTrue hat' =>
      rw [Stream.atIdentifier, Stream.kind, Stream.peek_advance] at hat
      have hkind := Stream.kind_of_atKind hat'
      rw [Stream.kind, Stream.peek_advance, Stream.peekAt_advance] at hkind
      exact ⟨hat, hkind⟩
    case isFalse => exact absurd hclose not_unexpected_ok
  case isFalse => exact absurd hname not_unexpected_ok

/-- A block fails where its first label does. -/
theorem block_of_error {e : ParseError} (hat : s.atKind .labelOpen = true)
    (hlabel : label s = .error e) : block r s = .error e := by
  refine bind_of_error (bind_of_error ?_)
  rw [loop, get_bind, iterate]
  refine bind_of_error ?_
  rw [get_bind, if_pos hat]
  exact bind_of_error hlabel

/-- The word behind a complete label is the same in both texts. A label that the end of the inner
text cuts off is the reason for the condition. -/
theorem atBlockLabel_lift (hs : E.Inner s) (hkind : s.kind = .labelOpen)
    (hparts : E.tail = [] ∨
      (s.peekAt 1).kind.isIdentifier = true ∧ (s.peekAt 2).kind = .labelClose) (word : String) :
    (E.lift s).atWordAt 3 word = s.atWordAt 3 word := by
  refine isWord_peekAt hs ?_ word
  cases hparts with
  | inl htail => exact peekAt_lift_of_tail hs htail 3
  | inr hparts =>
    refine peekAt_lift hs (hs.open_of_kind (by simp [hkind])) fun i hi hsemicolon => ?_
    have hcases : i = 0 ∨ i = 1 ∨ i = 2 := by omega
    obtain rfl | rfl | rfl := hcases
    · rw [peekAt_zero] at hsemicolon
      simp [Stream.kind, hsemicolon] at hkind
    · simp [hsemicolon, TokenKind.isIdentifier] at hparts
    · simp [hsemicolon] at hparts

/-- A label in front of a block belongs to it. -/
theorem labelled_follows (hr : E.RulesFollow depth r r') (hs : E.Inner s)
    (hlen : s.rest.length ≤ depth) (hkind : s.kind = .labelOpen) : E.Follows false 1 s
    ((if s.atWordAt 3 "begin" || s.atWordAt 3 "declare" then do return some (← block r)
      else do
        label
        return none : Parser (Option Node)) s)
    ((if (E.lift s).atWordAt 3 "begin" || (E.lift s).atWordAt 3 "declare" then
        do return some (← block r')
      else do
        label
        return none : Parser (Option Node)) (E.lift s)) := by
  by_cases hparts : E.tail = [] ∨
      (s.peekAt 1).kind.isIdentifier = true ∧ (s.peekAt 2).kind = .labelClose
  · rw [atBlockLabel_lift hs hkind hparts, atBlockLabel_lift hs hkind hparts]
    refine .branch rfl (fun _ => ?_) fun _ => ?_
    · exact .bind (block_follows hr hs hlen) fun node s₁ hs₁ _ => .pure hs₁ (by simp)
    · exact .bind (label_follows hs (by simp [hkind])) fun _ s₁ hs₁ _ => .pure hs₁ (by simp)
  · rw [not_or] at hparts
    cases hlabel : label s with
    | ok result => exact absurd (parts_of_label hlabel) hparts.2
    | error e =>
      have hat : s.atKind .labelOpen = true := by simp [Stream.atKind, hkind]
      refine .of_error (e := e) hparts.1 ?_
      split
      · exact bind_of_error (block_of_error hat hlabel)
      · exact bind_of_error hlabel

/-- A statement is read alike in both texts: the same rule is taken, and it gives the moved node or
the moved error. -/
theorem statement_follows (hr : E.RulesFollow depth r r') (hs : E.Inner s)
    (hlen : s.rest.length ≤ depth) :
    E.Follows false 1 s (statement r s) (statement r' (E.lift s)) := by
  have hsimple : E.Follows false 1 s
      ((do return some (← simpleStatement r) : Parser (Option Node)) s)
      ((do return some (← simpleStatement r') : Parser (Option Node)) (E.lift s)) :=
    .bind (simpleStatement_follows hr hs hlen) fun node s₁ hs₁ _ => .pure hs₁ (by simp)
  unfold statement
  simp only [get_bind]
  by_cases hkind : s.kind = .eof
  · rw [hkind]
    have hlift : (E.lift s).kind = .eof ∨ (E.lift s).kind = .slash :=
      (kind_lift hs).imp (·.trans hkind) And.left
    cases hlift with
    | inl heof =>
      rw [heof]
      exact hsimple
    | inr hslash =>
      rw [hslash]
      exact hsimple
  · have hopen := hs.open_of_kind hkind
    rw [kind_lift_of_open hs hopen]
    cases hpeek : s.kind
    case labelOpen => exact labelled_follows hr hs hlen hpeek
    case semicolon =>
      exact .bind (bump_follows hs hkind) fun _ s₁ hs₁ _ => .pure hs₁ (by simp)
    case word =>
      rw [peek_lift hs hopen, (hs.knownPeek hkind).word]
      exact .bind (wordStatement_follows hr hs hlen hpeek _) fun node s₁ hs₁ _ => .pure hs₁ (by simp)
    all_goals exact hsimple

end Embedding

end PlsqlAudit
