import PlsqlAudit.Grammar.Declaration
import PlsqlAudit.Proofs.EmbeddedExpressions
import PlsqlAudit.Proofs.Spelling

/-!
# Declarations and bodies in a longer text

A body reads the word `END` and a routine reads `IS`, `AS` or a semicolon before
it stops, so none of them can have used up its text before; what is optional after
`END`, a label and a semicolon, is not found at the slash that follows.  Hence
bodies, blocks and routines are closed: they stop at the end of their text even
where others follow.
-/

namespace PlsqlAudit

open PlsqlAudit.Grammar PlsqlAudit.Parser

namespace Embedding

variable {E : Embedding} {depth : Nat} {r r' : Rules} {s : Stream}

/-! ### Types and signatures -/

/-- Whether a data type ends at a place is seen alike in both texts. -/
theorem atTypeEnd_lift (hs : E.Inner s) (hopen : E.Open s) (context : TypeContext) :
    atTypeEnd context (E.lift s) = atTypeEnd context s := by
  rw [atTypeEnd, atTypeEnd, atAnyWord_lift hs, kind_lift_of_open hs hopen]

/-- A type is classified by its text, which is the same up to its letter case. -/
theorem classifyType_lift (hE : E.Lawful) {span : Span} (hstart : E.Boundary span.offset)
    (hstop : E.Boundary span.stop) :
    classifyType ((E.move span).text E.outer) = classifyType (span.text E.source) := by
  have htext : Text.lower ((E.move span).text E.outer) = Text.lower (span.text E.source) :=
    hE.text span hstart hstop
  rw [classifyType, classifyType, htext]

/-- A data type is read alike in both texts, whatever it ends at. -/
theorem dataType_follows (hs : E.Inner s) (context : TypeContext) :
    E.Follows false 1 s (dataType context s) (dataType context (E.lift s)) := by
  refine .branch_of_open (fun hopen => atTypeEnd_lift hs hopen context)
    (fun _ => unexpected_follows hs _) fun hnot => ?_
  have hkind : s.kind ≠ .eof := by
    intro heof
    simp [atTypeEnd, heof] at hnot
  have hskip : E.Follows false 1 s (Parser.skipUntil (atTypeEnd context) s)
      (Parser.skipUntil (atTypeEnd context) (E.lift s)) := by
    refine modify_follows_of_ne_nil false hs
      (Stream.reads_skipUntil_of_not _ hs.sound hkind hnot) fun hend => ?_
    exact skipUntil_lift (fun u hu hopen => atTypeEnd_lift hu hopen context) hs
      (hend.resolve_left (by simp))
  refine .bind hskip fun _ s₁ hs₁ hlen₁ => ?_
  have hstart : E.Boundary (s.peek.span.cover s₁.lastSpan).offset := by
    rw [Span.cover]
    split <;> exact (hs.knownPeek hkind).start
  have hstop : E.Boundary (s.peek.span.cover s₁.lastSpan).stop := by
    rw [Span.stop_cover]
    cases Nat.le_total s.peek.span.stop s₁.lastSpan.stop with
    | inl hle =>
      rw [Nat.max_eq_right hle]
      exact hs₁.boundary_lastSpan
    | inr hle =>
      rw [Nat.max_eq_left hle]
      exact (hs.knownPeek hkind).stop
  rw [lastSpan_bind, lastSpan_bind, lastSpan_move hs₁,
    peekSpan_move hs (hs.open_of_kind hkind), ← move_cover]
  refine .pure hs₁ ?_
  have hsource : (E.lift s).source = E.outer := rfl
  rw [move_leaf, hs.source, hsource, classifyType_lift hs.lawful hstart hstop]

/-- The result type of a function is read alike in both texts. -/
theorem resultType_follows (hs : E.Inner s) :
    E.Follows false 1 s (resultType s) (resultType (E.lift s)) := by
  refine .branch ?_ (fun hself => ?_) fun _ => dataType_follows hs .result
  · rw [atWord_lift hs]
    cases hself : s.atWord "self" with
    | false => rw [Bool.false_and, Bool.false_and, Bool.false_and, Bool.false_and]
    | true =>
      have hkind := Stream.kind_of_atWord hself
      rw [atWordAt_one_lift hs hkind]
      cases has : s.atWordAt 1 "as" with
      | false => rfl
      | true =>
        have hnext : (s.peekAt 1).kind = .word := by
          simp only [Stream.atWordAt, Token.isWord, Bool.and_eq_true, beq_iff_eq] at has
          exact has.1
        refine congrArg (_ && ·) (isWord_peekAt hs (peekAt_lift hs ?_ fun i hi => ?_) "result")
        · exact hs.open_of_kind (by simp [hkind])
        · have hcases : i = 0 ∨ i = 1 := by omega
          cases hcases with
          | inl hzero => simp [hzero, peekAt_zero, show s.peek.kind = .word from hkind]
          | inr hone => simp [hone, hnext]
  · have hkind := Stream.ne_eof_of_atWord (Bool.and_eq_true_iff.1 (Bool.and_eq_true_iff.1 hself).1).1
    refine .bind (bump_follows hs hkind) fun first s₁ hs₁ _ => ?_
    refine .bind (bump_follows_of_any hs₁) fun _ s₂ hs₂ _ => ?_
    refine .bind (bump_follows_of_any hs₂) fun last s₃ hs₃ _ => ?_
    exact .pure hs₃ (by simp)

/-- One round of reading a name: a dot and the name after it. -/
def nameStep (span : Span) : Parser (Option Span) := do
  let s ← get
  if s.atKind .dot && (s.peekAt 1).kind.isIdentifier then
    let _ ← bump
    let next ← bump
    return some (span.cover next.span)
  else return none

/-- The name of what is defined is its first part with a loop over the parts behind dots. -/
theorem definingName_eq_loop :
    definingName = (do
      let first ← expectIdentifier "name"
      return .leaf .definingName (← loop nameStep first.span)) := rfl

/-- A further part of a dotted name is read alike in both texts, turn by turn. -/
theorem nameStep_goes {limit : Nat} : E.Goes limit nameStep := by
  intro span s next s₁ hs _ h
  rw [nameStep, get_bind] at h
  split at h
  case isTrue hdot =>
    have hkind : s.kind = .dot := Stream.kind_of_atKind (Bool.and_eq_true_iff.1 hdot).1
    rw [bump_bind, bump_bind] at h
    obtain ⟨-, rfl⟩ := pure_ok.1 h
    have hfirst := hs.length_advance (by simp [hkind])
    have hsecond := s.advance.length_advance_le
    omega
  case isFalse => cases (pure_ok.1 h).1

/-- The name of what is defined is read alike in both texts, up to its last part. -/
theorem definingName_follows (hs : E.Inner s) :
    E.Follows true 1 s (definingName s) (definingName (E.lift s)) := by
  rw [definingName_eq_loop]
  refine .bind (expectIdentifier_follows hs "name") fun first s₁ hs₁ _ => ?_
  refine .bind (loop_follows true (fun span u hu _ => ?_) nameStep_goes first.span hs₁
    (Nat.le_refl _)) fun span s₂ hs₂ _ => .pure hs₂ (by simp)
  refine .branch ?_ (fun hdot => ?_) fun _ => .pure hu (by simp)
  · rw [atKind_lift hu .dot rfl]
    cases hat : u.atKind .dot with
    | false => rw [Bool.false_and, Bool.false_and]
    | true =>
      have hkind := Stream.kind_of_atKind hat
      rw [peekAt_one_lift hu (by simp [hkind]) (by simp [hkind])]
      rfl
  · rw [Bool.and_eq_true] at hdot
    have hkind : u.kind ≠ .eof := by simp [Stream.kind_of_atKind hdot.1]
    have hopen := hu.open_of_kind hkind
    have hname : u.advance.kind ≠ .eof := by
      rw [Stream.kind, Stream.peek_advance]
      exact Stream.ne_eof_of_isIdentifier hdot.2
    rw [bump_bind _ u, bump_bind _ (E.lift u), advance_lift hopen]
    refine Follows.after (n := 0) (k := 0) ?_ (Nat.le_of_succ_le (hu.length_advance hkind).le)
    exact .bind (bump_follows hu.advance hname) fun next u₂ hu₂ _ => .pure hu₂ (by simp)

/-- The mode of a parameter is read alike in both texts, also where there is none. -/
theorem parameterMode_follows (hs : E.Inner s) :
    E.Follows false 0 s (parameterMode s) (parameterMode (E.lift s)) := by
  refine .bind (eatWord_follows hs "in") fun read s₁ hs₁ _ => ?_
  refine .branch rfl (fun _ => ?_) fun _ => ?_
  · refine .bind (eatWord_follows hs₁ "out") fun read s₂ hs₂ _ => ?_
    exact .branch rfl (fun _ => .pure hs₂ (by simp)) fun _ => .pure hs₂ (by simp)
  · refine .bind (eatWord_follows hs₁ "out") fun read s₂ hs₂ _ => ?_
    exact .branch rfl (fun _ => .pure hs₂ (by simp)) fun _ => .pure hs₂ (by simp)

/-- The default value of a parameter or variable is read alike in both texts, also where there is
none. -/
theorem defaultValue_follows (hr : E.RulesFollow depth r r') (hs : E.Inner s)
    (hlen : s.rest.length < depth) :
    E.Follows false 0 s (defaultValue r s) (defaultValue r' (E.lift s)) := by
  have hvalue (u : Stream) (hu : E.Inner u) (hle : u.rest.length ≤ s.rest.length) :
      E.Follows false 0 u ((do return [← r.expression] : Parser (List Node)) u)
        ((do return [← r'.expression] : Parser (List Node)) (E.lift u)) :=
    .bind (hr.expression u hu (by omega)) fun value u₁ hu₁ _ => .pure hu₁ (by simp)
  refine .bind (eat_follows hs .assign rfl) fun read s₁ hs₁ hlen₁ => ?_
  refine .branch rfl (fun _ => hvalue s₁ hs₁ hlen₁) fun _ => ?_
  refine .bind (eatWord_follows hs₁ "default") fun read s₂ hs₂ hlen₂ => ?_
  exact .branch rfl (fun _ => hvalue s₂ hs₂ (by omega)) fun _ => .pure hs₂ (by simp)

/-- A parameter is read alike in both texts: name, mode, type and default value. -/
theorem parameter_follows (hr : E.RulesFollow depth r r') (hs : E.Inner s)
    (hlen : s.rest.length < depth) :
    E.Follows false 0 s (parameter r s) (parameter r' (E.lift s)) := by
  refine .bind (expectIdentifier_follows hs "parameter name") fun name s₁ hs₁ hlen₁ => ?_
  refine .bind (parameterMode_follows hs₁) fun mode s₂ hs₂ hlen₂ => ?_
  refine .bind (eatWord_follows hs₂ "nocopy") fun _ s₃ hs₃ hlen₃ => ?_
  refine .bind (dataType_follows hs₃ .parameter) fun type s₄ hs₄ hlen₄ => ?_
  refine .bind (defaultValue_follows hr hs₄ (by omega)) fun value s₅ hs₅ hlen₅ => ?_
  refine .bind (lastSpan_follows hs₅) fun last s₆ hs₆ _ => ?_
  exact .pure hs₆ (by simp)

/-- The parameters of a routine are read alike in both texts, also where the parentheses are
missing. -/
theorem parameters_follows (hr : E.RulesFollow depth r r') (hs : E.Inner s)
    (hlen : s.rest.length < depth) :
    E.Follows false 0 s (parameters r s) (parameters r' (E.lift s)) := by
  refine .bind (expect_follows hs .lParen "(" rfl) fun _ s₁ hs₁ hlen₁ => ?_
  have hitem (u : Stream) (hu : E.Inner u) (hle : u.rest.length ≤ s₁.rest.length) :=
    parameter_follows hr hu (by omega)
  refine .bind (separated_follows hitem hs₁ (Nat.le_refl _)) fun list s₂ hs₂ _ => ?_
  refine .bind (expect_follows hs₂ .rParen ")" rfl) fun _ s₃ hs₃ _ => ?_
  exact .pure hs₃ (by simp)

/-! ### Bodies and blocks -/

/-- What is skipped up to its semicolon is skipped alike in both texts, since the semicolon is in
the inner one. -/
theorem skipped_follows (hs : E.Inner s) (hkind : s.kind ≠ .eof) (kind : Kind) :
    E.Follows false 1 s (skipped kind s) (skipped kind (E.lift s)) := by
  rw [skipped, ask_bind, ask_bind, peekSpan_move hs (hs.open_of_kind hkind)]
  refine .bind (modify_follows_of_ne_nil true hs (Stream.reads_skipPastSemicolon hs.sound hkind)
    fun _ => skipPastSemicolon_lift hs hkind) fun _ s₁ hs₁ _ => ?_
  refine .bind (lastSpan_follows hs₁) fun last s₂ hs₂ _ => ?_
  exact .pure hs₂ (by simp)

/-- Statements up to one of the given words are read alike in both texts; the word stands in the
inner text or that text ends. -/
theorem statements_follows (hr : E.RulesFollow depth r r') (hs : E.Inner s)
    (hlen : s.rest.length < depth) (stops : List String) :
    E.Follows false 0 s (statements r stops s) (statements r' stops (E.lift s)) := by
  have hitem (u : Stream) (hu : E.Inner u) (hle : u.rest.length ≤ s.rest.length)
      (_ : (!u.atEnd && !u.atAnyWord stops) = true) := hr.statement u hu (by omega)
  refine .bind (many_follows (fun u hu hopen => ?_) hitem hs (Nat.le_refl _))
    fun found s₁ hs₁ _ => .pure hs₁ (move_filterMap_id found).symm
  rw [atEnd_lift hopen, atAnyWord_lift hu]

/-- The declarations in front of a `BEGIN` are read alike in both texts. -/
theorem declareSection_follows (hr : E.RulesFollow depth r r') (hs : E.Inner s)
    (hlen : s.rest.length < depth) :
    E.Follows false 0 s (declareSection r s) (declareSection r' (E.lift s)) := by
  refine .bind (peekSpan_follows hs) fun start s₁ hs₁ hlen₁ => ?_
  have hitem (u : Stream) (hu : E.Inner u) (hle : u.rest.length ≤ s₁.rest.length)
      (_ : (!u.atEnd && !u.atWord "begin" && !u.atWord "end") = true) :=
    hr.declaration u hu (by omega)
  refine .bind (many_follows (fun u hu hopen => ?_) hitem hs₁ (Nat.le_refl _))
    fun declarations s₂ hs₂ _ => ?_
  · rw [atEnd_lift hopen, atWord_lift hu, atWord_lift hu]
  refine .bind (lastSpan_follows hs₂) fun last s₃ hs₃ _ => ?_
  exact .pure hs₃ (by cases declarations <;> simp)

/-- An exception handler is read alike in both texts, with the names of its exceptions skipped. -/
theorem exceptionHandler_follows (hr : E.RulesFollow depth r r') (hs : E.Inner s)
    (hlen : s.rest.length < depth) :
    E.Follows false 1 s (exceptionHandler r s) (exceptionHandler r' (E.lift s)) := by
  refine .bind (bump_follows_of_any hs) fun start s₁ hs₁ hlen₁ => ?_
  refine .bind (skipUntil_follows hs₁ fun u hu _ => atWord_lift hu "then") fun _ s₂ hs₂ hlen₂ => ?_
  refine .bind (expectWord_follows hs₂ "then") fun _ s₃ hs₃ hlen₃ => ?_
  refine .bind (statements_follows hr hs₃ (by omega) _) fun list s₄ hs₄ _ => ?_
  refine .bind (lastSpan_follows hs₄) fun last s₅ hs₅ _ => ?_
  exact .pure hs₅ (by simp)

/-- A body ends with the word `END`, which is not the last token of a text that
others follow. -/
theorem body_follows (hr : E.RulesFollow depth r r') (hs : E.Inner s)
    (hlen : s.rest.length ≤ depth) :
    E.Follows true 2 s (body r s) (body r' (E.lift s)) := by
  refine .bind (expectWord_follows hs "begin") fun start s₁ hs₁ hlen₁ => ?_
  refine .bind (statements_follows hr hs₁ (by omega) _) fun list s₂ hs₂ hlen₂ => ?_
  refine .bind (eatWord_follows hs₂ "exception") fun read s₃ hs₃ hlen₃ => ?_
  have hhandler (u : Stream) (hu : E.Inner u) (hle : u.rest.length ≤ s₃.rest.length)
      (_ : u.atWord "when" = true) := exceptionHandler_follows hr hu (by omega)
  refine .either rfl
    (fun _ => many_follows (fun u hu _ => atWord_lift hu "when") hhandler hs₃ (Nat.le_refl _))
    (fun _ => .pure hs₃ (by simp)) fun handlers s₄ hs₄ hlen₄ => ?_
  refine .bind (expectWord_follows hs₄ "end") fun _ s₅ hs₅ hlen₅ => ?_
  refine .bind (eatEndLabel_follows hs₅) fun _ s₆ hs₆ hlen₆ => ?_
  refine .bind (lastSpan_follows hs₆) fun last s₇ hs₇ hlen₇ => ?_
  refine .bind (eat_follows hs₇ .semicolon rfl) fun _ s₈ hs₈ _ => ?_
  exact .pure hs₈ (by simp)

/-- A label is read alike in both texts, from its opening marks to its closing ones. -/
theorem label_follows (hs : E.Inner s) (hkind : s.kind ≠ .eof) :
    E.Follows true 1 s (label s) (label (E.lift s)) := by
  refine .bind (bump_follows hs hkind) fun _ s₁ hs₁ _ => ?_
  refine .bind (expectIdentifier_follows hs₁ "label") fun _ s₂ hs₂ _ => ?_
  refine .bind (expect_follows hs₂ .labelClose ">>" rfl) fun _ s₃ hs₃ _ => ?_
  exact .pure hs₃ (by simp)

/-- A block is read alike in both texts: its labels, declarations, statements and handlers, and the
semicolon behind its `END`. -/
theorem block_follows (hr : E.RulesFollow depth r r') (hs : E.Inner s)
    (hlen : s.rest.length ≤ depth) :
    E.Follows true 2 s (block r s) (block r' (E.lift s)) := by
  have hlabel (u : Stream) (hu : E.Inner u) (_ : u.rest.length ≤ s.rest.length)
      (hat : u.atKind .labelOpen = true) :=
    label_follows hu (by simp [Stream.kind_of_atKind hat])
  refine .bind (many_follows (fun u hu _ => atKind_lift hu .labelOpen rfl) hlabel hs (Nat.le_refl _))
    fun _ s₁ hs₁ hlen₁ => ?_
  refine .bind (peekSpan_follows hs₁) fun start s₂ hs₂ hlen₂ => ?_
  refine .bindRun (eatWord_follows hs₂ "declare") fun read s₃ hs₃ hlen₃ hrun => ?_
  have hsection (hread : read = true) : E.Follows false 0 s₃ (declareSection r s₃)
      (declareSection r' (E.lift s₃)) := by
    subst hread
    have hread := length_of_eatWord hs₂ hrun
    exact declareSection_follows hr hs₃ (by omega)
  refine .listIf hs₃ rfl hsection fun section_ s₄ hs₄ hlen₄ => ?_
  refine .bind (body_follows hr hs₄ (by omega)) fun inner s₅ hs₅ _ => ?_
  refine .bind (lastSpan_follows hs₅) fun last s₆ hs₆ _ => ?_
  exact .pure hs₆ (by simp)

/-! ### Routines and declarations -/

/-- A routine ends with a semicolon or a body. -/
theorem routine_follows (hr : E.RulesFollow depth r r') (hs : E.Inner s)
    (hlen : s.rest.length ≤ depth) (kind : Kind) (start : Span) :
    E.Follows true 2 s (routine r kind start s) (routine r' kind (E.move start) (E.lift s)) := by
  refine .branch ?_ (fun _ => unexpected_follows hs _) fun hat => ?_
  · rw [atAnyWord_lift hs]
  have hkind : s.kind ≠ .eof := Stream.ne_eof_of_atAnyWord (by simpa using hat)
  refine .bind (bump_follows hs hkind) fun _ s₁ hs₁ hlen₁ => ?_
  refine .bind (definingName_follows hs₁).uncounted fun name s₂ hs₂ hlen₂ => ?_
  refine .either (atKind_lift hs₂ .lParen rfl) (fun _ => parameters_follows hr hs₂ (by omega))
    (fun _ => .pure hs₂ (by simp)) fun list s₃ hs₃ hlen₃ => ?_
  refine .bind (eatWord_follows hs₃ "return") fun read s₄ hs₄ hlen₄ => ?_
  refine .listIf hs₄ rfl (fun _ => resultType_follows hs₄) fun result s₅ hs₅ hlen₅ => ?_
  have hfinish (parts : List Node) (u : Stream) (hu : E.Inner u) : E.Follows true 0 u
      ((do return .mk kind (start.cover (← lastSpan)) (name :: list ++ result ++ parts) :
        Parser Node) u)
      ((do return .mk kind ((E.move start).cover (← lastSpan))
            (E.move name :: E.move list ++ E.move result ++ E.move parts) :
        Parser Node) (E.lift u)) :=
    .bind (lastSpan_follows hu) fun last u₁ hu₁ _ => .pure hu₁ (by simp)
  refine .bind (skipUntil_follows hs₅ fun u hu _ => ?_) fun _ s₆ hs₆ hlen₆ => ?_
  · rw [atAnyWord_lift hu, atKind_lift hu .semicolon rfl]
  refine .eat hs₆ .semicolon rfl (fun _ => hfinish [] s₆.advance hs₆.advance) fun _ => ?_
  refine .branch rfl (fun hread => by simp at hread) fun _ => ?_
  refine .branch (atAnyWord_lift hs₆ _) (fun his => ?_) fun _ => unexpected_follows hs₆ _
  refine .bind (bump_follows hs₆ (Stream.ne_eof_of_atAnyWord his)) fun _ s₇ hs₇ hlen₇ => ?_
  refine .branch (atAnyWord_lift hs₇ _) (fun hlanguage => ?_) fun _ => ?_
  · have hkind := Stream.ne_eof_of_atAnyWord hlanguage
    refine .bind (modify_follows_of_ne_nil true hs₇ (Stream.reads_skipPastSemicolon hs₇.sound hkind)
      fun _ => skipPastSemicolon_lift hs₇ hkind) fun _ s₈ hs₈ _ => ?_
    exact hfinish [] s₈ hs₈
  · refine Follows.mono (k := 2) ?_ (Nat.zero_le 2) id
    refine .bind (declareSection_follows hr hs₇ (by omega)) fun declarations s₈ hs₈ hlen₈ => ?_
    refine .bind (body_follows hr hs₈ (by omega)) fun inner s₉ hs₉ _ => ?_
    exact hfinish [declarations, inner] s₉ hs₉

/-- The declaration of a variable is read alike in both texts, with its type and its initial
value. -/
theorem variableDeclaration_follows (hr : E.RulesFollow depth r r') (hs : E.Inner s)
    (hlen : s.rest.length ≤ depth) (hkind : s.kind ≠ .eof) :
    E.Follows false 1 s (variableDeclaration r s) (variableDeclaration r' (E.lift s)) := by
  refine .bind (bump_follows hs hkind) fun name s₁ hs₁ hlen₁ => ?_
  refine .bind (eatWord_follows hs₁ "constant") fun read s₂ hs₂ hlen₂ => ?_
  have hpure (kind : Kind) : E.Follows false 0 s₂ ((pure kind : Parser Kind) s₂)
      ((pure kind : Parser Kind) (E.lift s₂)) := .pure hs₂ (by simp)
  refine .either rfl (fun _ => hpure _) (fun _ => hpure _) fun kind s₃ hs₃ hlen₃ => ?_
  refine .bind (dataType_follows hs₃ .declaration) fun type s₄ hs₄ hlen₄ => ?_
  refine .bind (eatWord_follows hs₄ "not") fun read s₅ hs₅ hlen₅ => ?_
  refine .when hs₅ rfl (fun _ => expectWord_follows hs₅ "null") fun s₆ hs₆ hlen₆ => ?_
  refine .bind (defaultValue_follows hr hs₆ (by omega)) fun value s₇ hs₇ hlen₇ => ?_
  refine .bind (expect_follows hs₇ .semicolon ";" rfl) fun finish s₈ hs₈ _ => ?_
  exact .pure hs₈ (by simp)

/-- A declaration is read alike in both texts, whichever of the kinds of declaration its first
words select. -/
theorem declaration_follows (hr : E.RulesFollow depth r r') (hs : E.Inner s)
    (hlen : s.rest.length ≤ depth) :
    E.Follows false 1 s (declaration r s) (declaration r' (E.lift s)) := by
  unfold declaration
  rw [get_bind, get_bind]
  refine .branch (atWord_lift hs _) (fun hat => ?_) fun _ => ?_
  · rw [peekSpan_move hs (hs.open_of_kind (Stream.ne_eof_of_atWord hat))]
    exact (routine_follows hr hs hlen _ _).mono (by omega) (by simp)
  refine .branch (atWord_lift hs _) (fun hat => ?_) fun _ => ?_
  · rw [peekSpan_move hs (hs.open_of_kind (Stream.ne_eof_of_atWord hat))]
    exact (routine_follows hr hs hlen _ _).mono (by omega) (by simp)
  refine .branch ?_ (fun hat => skipped_follows hs ?_ _) fun _ => ?_
  · rw [atAnyWord_lift hs, atNamedWord_lift hs]
  · rw [Bool.or_eq_true, Bool.and_eq_true] at hat
    cases hat with
    | inl hword => exact Stream.ne_eof_of_atAnyWord hword
    | inr hname => exact Stream.ne_eof_of_isIdentifier hname.1
  refine .branch (atIdentifier_lift hs) (fun hat => ?_) fun _ => unexpected_follows hs _
  exact variableDeclaration_follows hr hs hlen (Stream.ne_eof_of_isIdentifier hat)

end Embedding

end PlsqlAudit
