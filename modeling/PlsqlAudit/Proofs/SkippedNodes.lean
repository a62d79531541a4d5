import PlsqlAudit.Proofs.KeptNames
import PlsqlAudit.Proofs.PendingAnswers

/-!
# How far skipped constructs reach

What is skipped leaves a node without parts.  In the tree of a program each such node covers
exactly the tokens through the first semicolon outside the parentheses that are opened in it,
so nothing that is written behind that semicolon is lost in it (`Tree.exists_ended_of_parse`).

That a skip has found its semicolon is pending at first.  It stays so through statements and
declarations, and is settled by the words around a body: `BEGIN` settles it for the
declarations in front, and `END` for the statements in it (`Grammar.body_ensures`).  So of a
routine, a package or a block it is certain (`Grammar.programUnit_ensures`).
-/

namespace PlsqlAudit

/-- The rules for phrases inside phrases leave what is skipped to be settled. -/
structure Rules.Delimit (r : Rules) (s₀ : Stream) : Prop where
  spell : r.Spell
  statement : ∀ pending, r.statement.Ensures s₀ pending (fun _ => True)
    fun n => ∀ m ∈ n.toList, m.Delimited s₀.rest
  declaration : ∀ pending, r.declaration.Ensures s₀ pending (fun _ => True)
    (·.Delimited s₀.rest)

/-! ### Bodies, blocks and routines -/

namespace Grammar

open PlsqlAudit.Parser

variable {r : Rules} {s₀ : Stream} {pending : Prop}

/-- What is skipped reaches to its semicolon, unless the text ends before one. -/
theorem skipped_ensures (kind : Kind) :
    (skipped kind).Ensures s₀ pending (fun _ => True) (·.Delimited s₀.rest) := by
  intro s n s' harrives h
  rw [skipped, ask_bind, modify_bind, lastSpan_bind] at h
  obtain ⟨rfl, rfl⟩ := pure_ok.1 h
  obtain ⟨used, hread, hends⟩ := s.exists_reads_skipPastSemicolon harrives.sound
  refine ⟨trivial, (harrives.onward hread).imp fun hrest hpending => ⟨hpending, ?_⟩⟩
  have hended := hends.resolve_right fun h => hrest h.1
  refine .intro (fun _ => ⟨rfl, used, ?_, hended, ?_⟩) (by simp [Node.leaf, Node.children])
  · obtain ⟨before, hbefore⟩ := harrives.reads
    exact ⟨before, _, by rw [hbefore.rest, hread.rest, List.append_assoc]⟩
  · exact Spans.toLast harrives.sound hread (hread.head?_eq hended.ne_nil)

/-- What is skipped among statements is pending until the body ends: each statement reaches to its
semicolon if the text goes on. -/
theorem statements_ensures (hr : r.Delimit s₀) (stops : List String) :
    (statements r stops).Ensures s₀ pending (fun _ => True)
      fun ns => ∀ n ∈ ns, n.Delimited s₀.rest := by
  refine (Ensures.many hr.statement).bind fun found _ => .pure trivial fun h n hn => ?_
  obtain ⟨m, hm, hid⟩ := List.mem_filterMap.1 hn
  exact h.2 m hm n (by simpa using hid)

/-- What is skipped among declarations is pending until `BEGIN`: each declaration reaches to its
semicolon if the text goes on. -/
theorem declareSection_ensures (hr : r.Delimit s₀) :
    (declareSection r).Ensures s₀ pending (fun _ => True) (·.Delimited s₀.rest) := by
  refine (ask_gives _).then fun _ start _ => ?_
  refine (Ensures.many hr.declaration).bind fun declarations _ => ?_
  refine (ask_gives _).then fun _ last _ => ?_
  exact .pure trivial fun h => .mk rfl h.2

/-- What is skipped among the statements of a handler is pending until the body ends. -/
theorem exceptionHandler_ensures (hr : r.Delimit s₀) (pending : Prop) :
    (exceptionHandler r).Ensures s₀ pending (fun _ => True) (·.Delimited s₀.rest) := by
  refine bump_reads.then fun _ start _ => ?_
  refine (skipUntil_gives _).then fun _ _ _ => ?_
  refine (expectWord_gives "then").then fun _ _ _ => ?_
  refine (statements_ensures hr _).bind fun list _ => ?_
  refine (ask_gives _).then fun _ last _ => ?_
  exact .pure trivial fun h => .mk rfl h.2

/-- The words around a body settle what is pending before it and in it. -/
theorem body_ensures (hr : r.Delimit s₀) :
    (body r).Ensures s₀ pending (fun n => pending ∧ n.Delimited s₀.rest) fun _ => True := by
  refine .expectWord "begin" fun start hpending => ?_
  refine (statements_ensures hr _).bind fun list _ => ?_
  refine (eatWord_gives "exception").then fun _ read _ => ?_
  refine .when (.many (exceptionHandler_ensures hr)) fun handlers => ?_
  refine .expectWord "end" fun _ h => ?_
  refine eatEndLabel_gives.then fun _ _ _ => ?_
  refine (ask_gives _).then fun _ last _ => ?_
  refine (eat_gives (by simp)).then fun _ _ _ => ?_
  refine .pure ⟨hpending, .mk rfl ?_⟩ fun _ => trivial
  exact List.forall_mem_append.2 ⟨h.1.2, h.2⟩

/-- The tokens of a label are read off the front, and nothing else. -/
theorem label_reads : label.Gives fun _ _ => True := by
  rintro s a s' hs - h
  obtain ⟨-, s₁, u, hread, -, h⟩ := bump_reads.first hs h
  obtain ⟨-, s₂, v, hread₁, -, h⟩ := (expectIdentifier_gives "label").bind hs hread h
  obtain ⟨-, s₃, w, hread₂, -, h⟩ := (expect_gives (by simp) ">>").bind hs hread₁ h
  obtain ⟨-, rfl⟩ := pure_ok.1 h
  exact ⟨_, hread₂, trivial⟩

/-- A block settles all that was pending before it, since it ends with a body. -/
theorem block_ensures (hr : r.Delimit s₀) :
    (block r).Ensures s₀ pending (fun n => pending ∧ n.Delimited s₀.rest) fun _ => True := by
  have hlabels : (many (·.atKind .labelOpen) label).Gives fun _ _ => True :=
    many_gives (label_reads.at _) trivial fun _ _ _ _ _ _ => trivial
  refine hlabels.then fun _ _ _ => ?_
  refine (ask_gives _).then fun _ start _ => ?_
  refine (eatWord_gives "declare").then fun _ read _ => ?_
  refine .whenOne (declareSection_ensures hr) fun section_ => ?_
  refine (body_ensures hr).bind fun inner hinner => ?_
  refine (ask_gives _).then fun _ last _ => ?_
  refine .pure ⟨hinner.1.1, .mk rfl ?_⟩ fun _ => trivial
  exact List.forall_mem_append.2 ⟨hinner.1.2, by simpa using hinner.2⟩

/-- A node that ends with the token read last is delimited if its parts are. -/
theorem opened_ensures {kind : Kind} {parts : List Node} {start : Span}
    (hkind : kind.isSkipped = false) (hparts : ∀ n ∈ parts, n.Delimited s₀.rest) :
    (lastSpan >>= fun last => pure (Node.mk kind (start.cover last) parts)).Ensures s₀ pending
      (·.Delimited s₀.rest) fun _ => True :=
  (ask_gives _).then fun _ _ _ => .pure (.mk hkind hparts) fun _ => trivial

/-- A routine settles what is skipped in it: with a body by its `END`, and without one there is
nothing to settle. -/
theorem routine_ensures (hr : r.Delimit s₀) {kind : Kind} (hkind : kind.isSkipped = false)
    (start : Span) :
    (routine r kind start).Ensures s₀ pending (·.Delimited s₀.rest) fun _ => True := by
  rw [routine]
  refine get_gives.then fun _ s _ => .ite (.unexpected _) ?_
  refine bump_reads.then fun _ _ _ => ?_
  refine definingName_gives.then fun _ name hname => ?_
  refine get_gives.then fun _ s _ => ?_
  refine (parameters_gives hr.spell).whenPhrases fun _ list hlist => ?_
  refine (eatWord_gives "return").then fun _ returns _ => ?_
  refine resultType_gives.whenPhrase fun _ result hresult => ?_
  have hsignature : ∀ n ∈ name :: list ++ result, n.Delimited s₀.rest := by
    rw [List.forall_mem_append, List.forall_mem_cons]
    exact ⟨⟨hname.delimited (by simp [Kind.isPlain]),
      hlist.delimited (by simp +contextual [Kind.isPlain])⟩,
      hresult.delimited fun _ => Kind.isPlain_of_isDataType⟩
  have hparts (parts : List Node) (h : ∀ n ∈ parts, n.Delimited s₀.rest) :
      ∀ n ∈ name :: list ++ result ++ parts, n.Delimited s₀.rest :=
    List.forall_mem_append.2 ⟨hsignature, h⟩
  refine (skipUntil_gives _).then fun _ _ _ => ?_
  refine (eat_gives (by simp)).then fun _ announced _ => .ite ?_ ?_
  · exact opened_ensures hkind (hparts [] (by simp))
  refine get_gives.then fun _ s _ => .ite ?_ (.unexpected _)
  refine bump_reads.then fun _ _ _ => ?_
  refine get_gives.then fun _ s _ => .ite ?_ ?_
  · refine (modify_gives fun s hs => ?_).then fun _ _ _ => ?_
    · obtain ⟨used, hread, -⟩ := s.exists_reads_skipPastSemicolon hs
      exact ⟨used, hread⟩
    · exact opened_ensures hkind (hparts [] (by simp))
  · refine (declareSection_ensures hr).bind fun declarations _ => ?_
    refine (body_ensures hr).bind fun inner hinner => ?_
    exact opened_ensures hkind (hparts [declarations, inner] (by simpa using ⟨hinner.1.2, hinner.2⟩))

/-! ### Declarations and statements -/

/-- A node that ends with a semicolon of its own is delimited if more follows, since its parts are.
-/
theorem closed_ensures {kind : Kind} {parts : List Node} {start : Span}
    (hkind : kind.isSkipped = false) (hparts : pending → ∀ n ∈ parts, n.Delimited s₀.rest) :
    (expect .semicolon ";" >>= fun finish =>
      pure (Node.mk kind (start.cover finish.span) parts)).Ensures s₀ pending (fun _ => True)
        (·.Delimited s₀.rest) :=
  (expect_gives (by simp) ";").then fun _ _ _ => .pure trivial fun h => .mk hkind (hparts h)

/-- A variable or constant leaves nothing skipped but what is pending in its parts. -/
theorem variableDeclaration_ensures (hr : r.Delimit s₀) :
    (variableDeclaration r).Ensures s₀ pending (fun _ => True) (·.Delimited s₀.rest) := by
  refine bump_reads.then fun _ name _ => ?_
  refine (eatWord_gives "constant").then fun _ constant _ => .either fun kind hkind => ?_
  refine (dataType_gives _).then fun _ type htype => ?_
  refine (eatWord_gives "not").then fun _ negated _ => ?_
  refine (expectWord_gives "null").when ?_
  refine (defaultValue_gives hr.spell).then fun _ value hvalue => ?_
  refine closed_ensures ?_ fun _ => ?_
  · rcases hkind with rfl | rfl <;> rfl
  · rw [List.forall_mem_cons, List.forall_mem_cons]
    exact ⟨.leaf rfl, htype.delimited fun _ => Kind.isPlain_of_isDataType,
      hvalue.1.delimited fun _ => Kind.isPlain_of_isExpression⟩

/-- Each declaration leaves its skipped parts pending, or has none. -/
theorem declaration_ensures (hr : r.Delimit s₀) (pending : Prop) :
    (declaration r).Ensures s₀ pending (fun _ => True) (·.Delimited s₀.rest) := by
  refine get_gives.then fun _ s _ => ?_
  refine .ite ((routine_ensures hr rfl _).defer fun _ => id) ?_
  refine .ite ((routine_ensures hr rfl _).defer fun _ => id) ?_
  refine .ite (skipped_ensures .otherDeclaration) ?_
  exact .ite (variableDeclaration_ensures hr) (.unexpected _)

/-- An assignment or a call has nothing skipped in it. -/
theorem simpleStatement_ensures (hr : r.Delimit s₀) :
    (simpleStatement r).Ensures s₀ pending (fun _ => True) (·.Delimited s₀.rest) := by
  refine (ask_gives _).then fun _ start _ => ?_
  refine (postfixed_gives hr.spell).then fun _ target htarget => ?_
  have hfirst : target.Delimited s₀.rest :=
    htarget.phrase.delimited fun _ => Kind.isPlain_of_isExpression
  refine (eat_gives (by simp)).then fun _ assign _ => .ite ?_ ?_
  · refine hr.spell.expression.then fun _ value hvalue => ?_
    have hsecond : value.Delimited s₀.rest :=
      hvalue.delimited fun _ => Kind.isPlain_of_isExpression
    rw [pure_bind]
    exact closed_ensures rfl fun _ => by simpa using ⟨hfirst, hsecond⟩
  · rw [pure_bind]
    exact closed_ensures rfl fun _ => by simpa using hfirst

/-- What is skipped among the statements behind a condition is pending. -/
theorem guarded_ensures (hr : r.Delimit s₀) :
    (guarded r).Ensures s₀ pending (fun _ => True) fun ns => ∀ n ∈ ns, n.Delimited s₀.rest := by
  refine hr.spell.expression.then fun _ condition hcondition => ?_
  refine (expectWord_gives "then").then fun _ _ _ => ?_
  refine (statements_ensures hr _).bind fun list _ => .pure trivial fun h => ?_
  exact List.forall_mem_cons.2 ⟨hcondition.delimited fun _ => Kind.isPlain_of_isExpression, h.2⟩

/-- What is skipped in a further branch of an `IF` is pending. -/
theorem ifBranch_ensures (hr : r.Delimit s₀) (pending : Prop) :
    (ifBranch r).Ensures s₀ pending (fun _ => True) fun ns => ∀ n ∈ ns, n.Delimited s₀.rest := by
  refine (eatWord_gives "elsif").then fun _ elsif _ => .ite (guarded_ensures hr) ?_
  refine (eatWord_gives "else").then fun _ _ _ => ?_
  exact statements_ensures hr _

/-- What is skipped in the branches of an `IF` is pending. -/
theorem ifStatement_ensures (hr : r.Delimit s₀) :
    (ifStatement r).Ensures s₀ pending (fun _ => True) (·.Delimited s₀.rest) := by
  refine bump_reads.then fun _ start _ => ?_
  refine (guarded_ensures hr).bind fun first _ => ?_
  refine (Ensures.many (ifBranch_ensures hr)).bind fun others _ => ?_
  refine (expectWord_gives "end").then fun _ _ _ => ?_
  refine (expectWord_gives "if").then fun _ _ _ => ?_
  refine closed_ensures rfl fun h => ?_
  exact List.forall_mem_append.2 ⟨h.1.2, List.forall_mem_flatten.2 h.2⟩

/-- What is skipped in a branch of a `CASE` is pending. -/
theorem choiceBranch_ensures (hr : r.Delimit s₀) (pending : Prop) :
    (choiceBranch r).Ensures s₀ pending (fun _ => True)
      fun ns => ∀ n ∈ ns, n.Delimited s₀.rest := by
  refine bump_reads.then fun _ _ _ => ?_
  refine hr.spell.expression.then fun _ choice hchoice => ?_
  refine (expectWord_gives "then").then fun _ _ _ => ?_
  refine (statements_ensures hr _).bind fun list _ => .pure trivial fun h => ?_
  exact List.forall_mem_cons.2 ⟨hchoice.delimited fun _ => Kind.isPlain_of_isExpression, h.2⟩

/-- What is skipped in the branches of a `CASE` statement is pending. -/
theorem caseStatement_ensures (hr : r.Delimit s₀) :
    (caseStatement r).Ensures s₀ pending (fun _ => True) (·.Delimited s₀.rest) := by
  refine bump_reads.then fun _ start _ => ?_
  refine get_gives.then fun _ s _ => ?_
  refine hr.spell.expression.unlessPhrase fun _ selector hselector => ?_
  refine (Ensures.many (choiceBranch_ensures hr)).bind fun branches _ => ?_
  refine (eatWord_gives "else").then fun _ read _ => ?_
  refine .when (statements_ensures hr _) fun otherwise => ?_
  refine (expectWord_gives "end").then fun _ _ _ => ?_
  refine (expectWord_gives "case").then fun _ _ _ => ?_
  refine eatEndLabel_gives.then fun _ _ _ => ?_
  refine closed_ensures rfl fun h => ?_
  rw [List.forall_mem_append, List.forall_mem_append]
  exact ⟨⟨hselector.delimited fun _ => Kind.isPlain_of_isExpression,
    List.forall_mem_flatten.2 h.1.2⟩, h.2⟩

/-- The range of a loop leaves nothing behind, neither nodes nor anything pending. -/
theorem forRange_ensures {c : Prop} [Decidable c] {stop : Stream → Bool} {rest : Parser Node}
    (hrest : rest.Ensures s₀ pending (fun _ => True) (·.Delimited s₀.rest)) :
    (if c then eatWord "for" >>= fun read =>
        if read then skipUntil stop >>= fun _ => rest else rest
      else rest).Ensures s₀ pending (fun _ => True) (·.Delimited s₀.rest) :=
  .ite ((eatWord_gives "for").then fun _ _ _ => (skipUntil_gives stop).when hrest) hrest

/-- What is skipped among the statements of a loop is pending. -/
theorem loopStatement_ensures (hr : r.Delimit s₀) :
    (loopStatement r).Ensures s₀ pending (fun _ => True) (·.Delimited s₀.rest) := by
  refine (ask_gives _).then fun _ start _ => ?_
  refine (eatWord_gives "while").then fun _ while_ _ => ?_
  refine hr.spell.expression.whenPhrase fun _ condition hcondition => ?_
  refine forRange_ensures ?_
  refine (expectWord_gives "loop").then fun _ _ _ => ?_
  refine (statements_ensures hr _).bind fun list _ => ?_
  refine (expectWord_gives "end").then fun _ _ _ => ?_
  refine (expectWord_gives "loop").then fun _ _ _ => ?_
  refine eatEndLabel_gives.then fun _ _ _ => ?_
  refine closed_ensures rfl fun h => ?_
  exact List.forall_mem_append.2
    ⟨hcondition.delimited fun _ => Kind.isPlain_of_isExpression, h.2⟩

/-- What a `FORALL` repeats may be skipped, and then it is pending. -/
theorem forallStatement_ensures (hr : r.Delimit s₀) :
    (forallStatement r).Ensures s₀ pending (fun _ => True) (·.Delimited s₀.rest) := by
  refine bump_reads.then fun _ start _ => ?_
  refine (skipUntil_gives _).then fun _ _ _ => ?_
  refine (hr.statement _).bind fun inner _ => ?_
  refine (ask_gives _).then fun _ last _ => ?_
  exact .pure trivial fun h => .mk rfl h.2

/-- A clause of bind arguments has nothing skipped in it. -/
theorem usingClause_ensures (hr : r.Delimit s₀) :
    (usingClause r).Ensures s₀ pending (fun _ => True) (·.Delimited s₀.rest) := by
  refine bump_reads.then fun _ start _ => ?_
  refine (separated_phrases (bindArgument_gives hr.spell)).then fun _ binds hbinds => ?_
  refine (ask_gives _).then fun _ last _ => ?_
  exact .pure trivial fun _ =>
    .mk rfl (hbinds.1.delimited fun _ => Kind.isPlain_of_isExpression)

/-- An `EXECUTE IMMEDIATE` has nothing skipped in it but what follows `INTO`, which is part of a
clause. -/
theorem executeImmediate_ensures (hr : r.Delimit s₀) :
    (executeImmediate r).Ensures s₀ pending (fun _ => True) (·.Delimited s₀.rest) := by
  refine bump_reads.then fun _ start _ => ?_
  refine bump_reads.then fun _ _ _ => ?_
  refine hr.spell.expression.then fun _ sql hsql => ?_
  refine (many_phrases (executeClause_gives hr.spell)).then fun _ clauses hclauses => ?_
  refine closed_ensures rfl fun _ => ?_
  exact List.forall_mem_cons.2 ⟨hsql.delimited fun _ => Kind.isPlain_of_isExpression,
    hclauses.delimited (by simp +contextual [Kind.isPlain])⟩

/-- An `OPEN` statement without `FOR` is skipped, and then its end is pending. -/
theorem openStatement_ensures (hr : r.Delimit s₀) :
    (openStatement r).Ensures s₀ pending (fun _ => True) (·.Delimited s₀.rest) := by
  refine get_gives.then fun _ s _ => .ite (skipped_ensures _) ?_
  refine bump_reads.then fun _ start _ => ?_
  refine (postfixed_gives hr.spell).then fun _ cursor hcursor => ?_
  refine (expectWord_gives "for").then fun _ _ _ => ?_
  refine (openedQuery_gives hr.spell).then fun _ query hquery => ?_
  refine get_gives.then fun _ s _ => ?_
  refine .whenOne (usingClause_ensures hr) fun clause => ?_
  refine closed_ensures rfl fun h => ?_
  rw [List.forall_mem_cons, List.forall_mem_cons]
  exact ⟨hcursor.phrase.delimited fun _ => Kind.isPlain_of_isExpression,
    hquery.delimited fun _ => Kind.isPlain_of_isExpression, h.2⟩

/-- A `RETURN` statement has nothing skipped in it, only an expression. -/
theorem returnStatement_ensures (hr : r.Delimit s₀) :
    (returnStatement r).Ensures s₀ pending (fun _ => True) (·.Delimited s₀.rest) := by
  refine bump_reads.then fun _ start _ => ?_
  refine get_gives.then fun _ s _ => ?_
  refine hr.spell.expression.unlessPhrase fun _ value hvalue => ?_
  exact closed_ensures rfl fun _ => hvalue.delimited fun _ => Kind.isPlain_of_isExpression

/-- A `NULL` statement has nothing skipped in it, nor any other part. -/
theorem nullStatement_ensures :
    nullStatement.Ensures s₀ pending (fun _ => True) (·.Delimited s₀.rest) := by
  refine bump_reads.then fun _ start _ => ?_
  refine bump_reads.then fun _ finish _ => ?_
  exact .pure trivial fun _ => .leaf rfl

/-- Each statement that starts with a word leaves what is skipped in it pending. -/
theorem wordStatement_ensures (hr : r.Delimit s₀) (word : String) (s : Stream) :
    (wordStatement r word s).Ensures s₀ pending (fun _ => True) (·.Delimited s₀.rest) := by
  refine .ite ((block_ensures hr).defer fun _ h => h.2) ?_
  refine .ite (ifStatement_ensures hr) ?_
  refine .ite (caseStatement_ensures hr) ?_
  refine .ite (loopStatement_ensures hr) ?_
  refine .ite (forallStatement_ensures hr) ?_
  refine .ite (executeImmediate_ensures hr) ?_
  refine .ite (openStatement_ensures hr) ?_
  refine .ite (returnStatement_ensures hr) ?_
  refine .ite (skipped_ensures .raiseStatement) ?_
  refine .ite nullStatement_ensures ?_
  refine .ite (skipped_ensures .sqlStatement) ?_
  exact .ite (skipped_ensures .otherStatement) (simpleStatement_ensures hr)

/-- Each statement leaves what is skipped in it pending, also where it leaves no node. -/
theorem statement_ensures (hr : r.Delimit s₀) (pending : Prop) :
    (statement r).Ensures s₀ pending (fun _ => True)
      fun n => ∀ m ∈ n.toList, m.Delimited s₀.rest := by
  have found {p : Parser Node} (hp : p.Ensures s₀ pending (fun _ => True) (·.Delimited s₀.rest)) :
      (p >>= fun n => pure (some n)).Ensures s₀ pending (fun _ => True)
        fun n => ∀ m ∈ n.toList, m.Delimited s₀.rest :=
    hp.bind fun n _ => .pure trivial fun h => by simpa using h.2
  rw [statement]
  refine get_gives.then fun _ s _ => ?_
  split
  · refine .ite (found ((block_ensures hr).defer fun _ h => h.2)) ?_
    exact label_reads.then fun _ _ _ => .pure trivial fun _ => by simp
  · exact bump_reads.then fun _ _ _ => .pure trivial fun _ => by simp
  · exact found (wordStatement_ensures hr _ _)
  · exact found (simpleStatement_ensures hr)

/-! ### Programs -/

/-- The `END` of a package settles what was pending before it, since the text did go on. -/
theorem unitEnd_ensures : unitEnd.Ensures s₀ pending (fun _ => pending) fun _ => True := by
  refine .expectWord "end" fun _ hpending => ?_
  refine eatEndLabel_gives.then fun _ _ _ => ?_
  refine (eat_gives (by simp)).then fun _ _ _ => ?_
  exact .pure hpending fun _ => trivial

/-- A package settles what is skipped in it, by the `BEGIN` of its body or by its `END`. -/
theorem package_ensures (hr : r.Delimit s₀) {kind : Kind} (hkind : kind.isSkipped = false)
    (start : Span) :
    (package r kind start).Ensures s₀ pending (·.Delimited s₀.rest) fun _ => True := by
  refine bump_reads.then fun _ _ _ => bump_reads.when ?_
  refine definingName_gives.then fun _ name hname => ?_
  have hfirst : name.Delimited s₀.rest := hname.delimited (by simp [Kind.isPlain])
  refine headerEnd_gives.then fun _ _ _ => ?_
  refine (declareSection_ensures hr).bind fun declarations _ => ?_
  refine get_gives.then fun _ s _ => .ite ?_ ?_
  · refine (body_ensures hr).bind fun inner hinner => ?_
    rw [pure_bind]
    exact opened_ensures hkind (by simpa using ⟨hfirst, hinner.1.2, hinner.2⟩)
  · refine unitEnd_ensures.bind fun _ hpending => ?_
    rw [pure_bind]
    exact opened_ensures hkind (by simpa using ⟨hfirst, hpending.2⟩)

/-- A member of a type body settles what is skipped in it, as a routine does. -/
theorem typeMember_ensures (hr : r.Delimit s₀) (pending : Prop) :
    (typeMember r).Ensures s₀ pending (·.Delimited s₀.rest) fun _ => True := by
  refine (ask_gives _).then fun _ start _ => ?_
  refine (loop_gives modifierStep_gives false).then fun _ isConstructor _ => ?_
  refine get_gives.then fun _ s _ => ?_
  exact .ite (routine_ensures hr rfl start) (.ite (routine_ensures hr rfl start)
    (.ite (routine_ensures hr rfl start) (.unexpected _)))

/-- A type body settles what is skipped in it, for each of its members does. -/
theorem typeBody_ensures (hr : r.Delimit s₀) (start : Span) :
    (typeBody r start).Ensures s₀ pending (·.Delimited s₀.rest) fun _ => True := by
  refine bump_reads.then fun _ _ _ => bump_reads.then fun _ _ _ => ?_
  refine definingName_gives.then fun _ name hname => ?_
  refine headerEnd_gives.then fun _ _ _ => ?_
  refine (Ensures.many (typeMember_ensures hr)).bind fun members hmembers => ?_
  refine unitEnd_ensures.bind fun _ _ => ?_
  refine opened_ensures rfl ?_
  exact List.forall_mem_cons.2 ⟨hname.delimited (by simp [Kind.isPlain]), hmembers⟩

/-- A trigger settles what is skipped in it, as the block does that it ends with. -/
theorem trigger_ensures (hr : r.Delimit s₀) (start : Span) :
    (trigger r start).Ensures s₀ pending (·.Delimited s₀.rest) fun _ => True := by
  refine bump_reads.then fun _ _ _ => ?_
  refine definingName_gives.then fun _ name hname => ?_
  have hfirst : name.Delimited s₀.rest := hname.delimited (by simp [Kind.isPlain])
  refine (skipUntil_gives _).then fun _ _ _ => ?_
  refine get_gives.then fun _ s _ => get_gives.then fun _ s₁ _ => .ite ?_ (.ite ?_ ?_)
  · refine (modify_gives fun s _ => Stream.reads_advanceUntil _ s).then fun _ _ _ => ?_
    rw [pure_bind]
    exact opened_ensures rfl (by simpa using hfirst)
  · refine (block_ensures hr).bind fun inner hinner => ?_
    rw [pure_bind]
    exact opened_ensures rfl (by simpa using ⟨hfirst, hinner.2⟩)
  · rw [pure_bind]
    exact opened_ensures rfl (by simpa using hfirst)

/-- A `CREATE` statement leaves nothing pending in the node that it makes. -/
theorem create_ensures (hr : r.Delimit s₀) :
    (create r).Ensures s₀ pending (fun n => ∀ m ∈ n.toList, m.Delimited s₀.rest)
      fun _ => True := by
  have found {p : Parser Node} (hp : p.Ensures s₀ pending (·.Delimited s₀.rest) fun _ => True) :
      (p >>= fun n => pure (some n)).Ensures s₀ pending
        (fun n => ∀ m ∈ n.toList, m.Delimited s₀.rest) fun _ => True :=
    hp.bind fun n hn => .pure (by simpa using hn) fun _ => trivial
  refine bump_reads.then fun _ start _ => ?_
  refine (eatWord_gives "or").then fun _ _ _ => (expectWord_gives "replace").when ?_
  refine (modify_gives fun s _ => Stream.reads_advanceUntil _ s).then fun _ _ _ => ?_
  refine get_gives.then fun _ s _ => ?_
  refine .ite (found (routine_ensures hr rfl _)) ?_
  refine .ite (found (routine_ensures hr rfl _)) ?_
  refine .ite (found (package_ensures hr ?_ _)) ?_
  · split <;> rfl
  refine .ite (found (typeBody_ensures hr _)) ?_
  refine .ite (found (trigger_ensures hr _)) ?_
  refine (modify_gives fun s _ => s.reads_skipStatement).then fun _ _ _ => ?_
  exact .pure (by simp) fun _ => trivial

/-- A unit of a program leaves nothing pending in the node that it makes. -/
theorem programUnit_ensures (hr : r.Delimit s₀) (pending : Prop) :
    (programUnit r).Ensures s₀ pending (fun n => ∀ m ∈ n.toList, m.Delimited s₀.rest)
      fun _ => True := by
  have nothing {pending : Prop} : (pure none : Parser (Option Node)).Ensures s₀ pending
      (fun n => ∀ m ∈ n.toList, m.Delimited s₀.rest) fun _ => True :=
    .pure (by simp) fun _ => trivial
  refine get_gives.then fun _ s _ => ?_
  refine .ite (bump_reads.then fun _ _ _ => nothing) ?_
  refine .ite (create_ensures hr) ?_
  refine .ite ?_ (.ite ?_ ?_)
  · exact (block_ensures hr).bind fun n hn => .pure (by simpa using hn.2) fun _ => trivial
  · exact (modify_gives fun s _ => Stream.reads_advanceUntil _ s).then fun _ _ _ => nothing
  · exact (modify_gives fun s _ => s.reads_skipStatement).then fun _ _ _ => nothing

/-- The rules for phrases inside phrases leave what is skipped to be settled, at every depth. -/
theorem rules_delimit (s₀ : Stream) (depth : Nat) : (rules depth).Delimit s₀ := by
  induction depth with
  | zero =>
    exact ⟨rules_spell 0, fun _ _ _ _ _ h => absurd h not_throw_ok,
      fun _ _ _ _ _ h => absurd h not_throw_ok⟩
  | succ depth ih =>
    exact ⟨rules_spell (depth + 1), statement_ensures ih, declaration_ensures ih⟩

end Grammar

/-! ### Trees -/

section Trees

open PlsqlAudit.Grammar PlsqlAudit.Parser

variable {source : String} {tokens : TokenSequence} {t : Tree} {p : Place}

/-- In the tree of a program whatever is skipped reaches to its semicolon. -/
theorem Tree.delimited_of_parse (htokens : tokenize source = .ok tokens)
    (h : parse source = .ok t) : t.root.Delimited tokens.tokens := by
  obtain ⟨list, e, hunits, rfl⟩ := exists_units_of_parse htokens h
  have hmany := (many_eq_repeated (fun s => !s.atEnd)
    (programUnit (rules (tokens.tokens.length + 1))) (Stream.start source tokens)).trans hunits
  have harrives : (Stream.start source tokens).Arrives (Stream.start source tokens) True :=
    ⟨Stream.sound_start htokens, ⟨[], .refl _⟩, fun _ => trivial⟩
  obtain ⟨hlist, -⟩ := Ensures.many (programUnit_ensures (rules_delimit _ _)) harrives hmany
  refine .mk rfl fun n hn => ?_
  obtain ⟨m, hm, hid⟩ := List.mem_filterMap.1 hn
  exact hlist m hm n (by simpa using hid)

/-- Of all tokens a skipped construct spans those up to its semicolon and no other. -/
theorem Tree.exists_ended_of_parse (htokens : tokenize source = .ok tokens)
    (h : parse source = .ok t) (hp : p ∈ t.places) (hkind : p.kind.isSkipped = true) :
    p.children = [] ∧ ∃ used, used <:+: tokens.tokens ∧ Ended used ∧ Spans used p.span ∧
      ∀ token ∈ tokens.tokens, p.span.Holds token ↔ token ∈ used := by
  rw [places_eq] at hp
  obtain ⟨hchildren, used, hsub, hended, hspans⟩ :=
    (delimited_of_parse htokens h).of_mem_subtree (p := t.top) hp hkind
  have hordered := (Stream.sound_start htokens).ordered
  refine ⟨?_, used, hsub, hended, hspans, fun token htoken => ⟨fun hholds => ?_, fun hused => ?_⟩⟩
  · rw [← List.map_eq_nil_iff (f := Place.node), Place.map_node_children]
    exact hchildren
  · exact hspans.mem_of_holds hsub hordered htoken (length_pos_of_tokenize htokens htoken) hholds
  · exact hspans.bounds (hordered.sublist hsub.sublist) hused

/-- **A skip stops where it should.**  It stops at the first place outside parentheses that
passes its test, or at the end of the text if there is none.  So a construct that is skipped
leaves one node for the tokens through the first semicolon outside the parentheses that are
opened in it, and reading goes on behind them; and in the tree of a program each such node
spans exactly these tokens. -/
theorem skips_stop_first :
    (∀ stop s, ∃ used, Stream.FirstStop stop 0 s used (s.skipUntil stop)) ∧
      (∀ kind (s : Stream), s.Sound → s.kind ≠ .eof →
        ∃ used span s', skipped kind s = .ok (.leaf kind span, s') ∧ s.Reads used s' ∧
          Spans used span ∧ (Ended used ∨ s'.rest = [] ∧ Unended used)) ∧
      ∀ source t, parse source = .ok t → ∃ tokens, tokenize source = .ok tokens ∧
        ∀ p ∈ t.places, p.kind.isSkipped = true →
          p.children = [] ∧ ∃ used, used <:+: tokens.tokens ∧ Ended used ∧ Spans used p.span ∧
            ∀ token ∈ tokens.tokens, p.span.Holds token ↔ token ∈ used := by
  refine ⟨Stream.firstStop_skipUntil, fun kind s hs hat => skipped_run kind hs hat, ?_⟩
  intro source t h
  obtain ⟨-, -, tokens, htokens, -⟩ := parse_spells h
  exact ⟨tokens, htokens, fun p hp hkind => Tree.exists_ended_of_parse htokens h hp hkind⟩

/-- A query with a parenthesis that closes nothing and a semicolon in others, and a statement
that is executed behind it. -/
theorem skips_stop_first_of_parentheses : ∃ t tokens,
    parse "BEGIN SELECT ) (a;b) ; EXECUTE IMMEDIATE y; END;" = .ok t ∧
      tokenize "BEGIN SELECT ) (a;b) ; EXECUTE IMMEDIATE y; END;" = .ok tokens ∧
      (t.placesOf Kind.isSkipped).map Place.span = [⟨6, 16, 1, 7⟩] ∧
      (t.placesOf (· == .executeImmediate)).map Place.span = [⟨23, 20, 1, 24⟩] ∧
      (∃ used span s', skipped .sqlStatement (Stream.start t.source tokens) =
          .ok (.leaf .sqlStatement span, s') ∧ (Stream.start t.source tokens).Reads used s' ∧
        Spans used span ∧ (Ended used ∨ s'.rest = [] ∧ Unended used)) ∧
      ∀ p ∈ t.places, p.kind.isSkipped = true →
        p.children = [] ∧ ∃ used, used <:+: tokens.tokens ∧ Ended used ∧ Spans used p.span ∧
          ∀ token ∈ tokens.tokens, p.span.Holds token ↔ token ∈ used := by
  obtain ⟨t, hparse, htest⟩ := exists_parse "BEGIN SELECT ) (a;b) ; EXECUTE IMMEDIATE y; END;"
    (fun t => (t.placesOf Kind.isSkipped).map Place.span == [⟨6, 16, 1, 7⟩] &&
      (t.placesOf (· == .executeImmediate)).map Place.span == [⟨23, 20, 1, 24⟩] &&
      (tokenize t.source).toOption.any fun tokens => (Stream.start t.source tokens).kind == .word)
    (by decide +kernel)
  simp only [Bool.and_eq_true, beq_iff_eq] at htest
  obtain ⟨⟨hskips, hexecutes⟩, hword⟩ := htest
  obtain ⟨tokens, htokens, hall⟩ := skips_stop_first.2.2 _ t hparse
  have hsource := (parse_spells hparse).1
  have hkind : (Stream.start t.source tokens).kind = .word := by
    rw [hsource, htokens] at hword
    simpa [Except.toOption, hsource] using hword
  have hrun := skips_stop_first.2.1 .sqlStatement (Stream.start t.source tokens)
    (hsource ▸ Stream.sound_start htokens) (by simp [hkind])
  exact ⟨t, tokens, hparse, htokens, hskips, hexecutes, hrun, hall⟩

end Trees

end PlsqlAudit
