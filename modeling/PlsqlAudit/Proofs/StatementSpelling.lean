import PlsqlAudit.Grammar.Declaration
import PlsqlAudit.Grammar.Statement
import PlsqlAudit.Proofs.ExpressionSpelling

/-!
# Statements and declarations are spelled by what is read

Signatures, bodies, declarations and statements, each from the phrases inside it.
Two phrases do not end with the last token that is read for them: a body leaves
its semicolon to what it stands in, and a section without declarations takes no
token at all, so that it is put in front of whatever is read next.
-/

namespace PlsqlAudit.Grammar

open PlsqlAudit.Parser

variable {r : Rules} {s s₀ s' : Stream} {u v : List Token} {n : Node}

/-! ### Signatures -/

/-- A type is spelled by all the tokens that were read for it, whatever they are. -/
theorem dataType_gives (context : TypeContext) :
    (dataType context).Gives (Phrase Kind.isDataType) := by
  rintro s n s' hs - h
  rw [dataType, get_bind] at h
  split at h
  case isTrue => exact absurd h not_unexpected_ok
  case isFalse hstop =>
    rw [Bool.not_eq_true] at hstop
    have hat : s.kind ≠ .eof := by
      intro hend
      simp [atTypeEnd, hend] at hstop
    rw [skipUntil_bind, lastSpan_bind] at h
    obtain ⟨v, hne, hread⟩ := Stream.reads_skipUntil_of_not (atTypeEnd context) hs hat hstop
    obtain ⟨rfl, rfl⟩ := pure_ok.1 h
    refine ⟨v, hread, .ofTakes (.leaf rfl rfl ?_) rfl⟩
    exact Spans.toLast hs hread (hread.head?_eq hne)

/-- The type that a function returns is spelled by its tokens, `SELF AS RESULT` included. -/
theorem resultType_gives : resultType.Gives (Phrase Kind.isDataType) := by
  rintro s n s' hs - h
  rw [resultType, get_bind] at h
  split at h
  case isTrue hself =>
    simp only [Bool.and_eq_true] at hself
    obtain ⟨⟨hself, has⟩, hresult⟩ := hself
    have hresult' : s.advance.advance.atWord "result" = true := by
      rwa [Stream.atWord_advance, Stream.atWordAt, Stream.peekAt_advance]
    rw [← Stream.atWord_advance] at has
    rw [bump_bind, bump_bind, bump_bind] at h
    have hread := ((Stream.reads_advance hs (Stream.ne_eof_of_atWord hself)).bump hs
      (Stream.ne_eof_of_atWord has)).bump hs (Stream.ne_eof_of_atWord hresult')
    obtain ⟨rfl, rfl⟩ := pure_ok.1 h
    refine ⟨_, hread, .ofTakes (.leaf rfl rfl ?_) rfl⟩
    exact Spans.ofTokens (hread.ordered hs) rfl
  case isFalse => exact dataType_gives .result hs trivial h

/-- A name that is being introduced is spelled by its identifiers and the dots between them. -/
theorem definingName_gives : definingName.Gives (Phrase (· == .definingName)) := by
  rintro s n s' hs - h
  obtain ⟨first, s₁, u, hread, ⟨rfl, -⟩, h⟩ := (expectIdentifier_gives "name").first hs h
  obtain ⟨span, s₂, hloop, h⟩ := bind_ok.1 h
  obtain ⟨rfl, rfl⟩ := pure_ok.1 h
  have hextends := loop_extends Spans ?_ (Spans.single first) hs hread hloop
  · obtain ⟨v, hread₁, hspan⟩ := hextends
    exact ⟨_, hread₁, .ofTakes (.leaf rfl rfl hspan) rfl⟩
  · intro u span hspan s₀ s next s' hs hread h
    rw [get_bind] at h
    split at h
    case isTrue hat =>
      rw [Bool.and_eq_true, ← Stream.peek_advance] at hat
      rw [bump_bind, bump_bind] at h
      obtain ⟨rfl, rfl⟩ := pure_ok.1 h
      have hread₁ := (hread.bump hs (by simp [Stream.kind_of_atKind hat.1])).bump hs
        (Stream.ne_eof_of_isIdentifier hat.2)
      rw [List.append_assoc] at hread₁
      exact ⟨_, hread₁, hspan.cover (hread₁.ordered hs) ⟨_, rfl⟩ (by simp) rfl⟩
    case isFalse =>
      obtain ⟨rfl, rfl⟩ := pure_ok.1 h
      exact ⟨[], by simpa using hread, by simpa using hspan⟩

/-- The words for the mode of a parameter are read; no node is made for them. -/
theorem parameterMode_gives : parameterMode.Gives fun _ _ => True := by
  rintro s mode s' hs - h
  obtain ⟨input, s₁, u, hread, -, h⟩ := (eatWord_gives "in").first hs h
  split at h
  · obtain ⟨output, s₂, v, hread₁, -, h⟩ := (eatWord_gives "out").bind hs hread h
    split at h <;> obtain ⟨-, rfl⟩ := pure_ok.1 h <;> exact ⟨_, hread₁, trivial⟩
  · obtain ⟨output, s₂, v, hread₁, -, h⟩ := (eatWord_gives "out").bind hs hread h
    split at h <;> obtain ⟨-, rfl⟩ := pure_ok.1 h <;> exact ⟨_, hread₁, trivial⟩

/-- The value that a parameter or variable starts with is one expression behind a sign or a word,
or there is none. -/
theorem defaultValue_gives (hr : r.Spell) :
    (defaultValue r).Gives fun u ns => Phrases Kind.isExpression u ns ∧ ns.length ≤ 1 := by
  rintro s ns s' hs - h
  have value {u : List Token} {s₁ : Stream} (hread : s.Reads u s₁)
      (h : (r.expression >>= fun n => pure [n]) s₁ = .ok (ns, s')) :
      ∃ used, s.Reads used s' ∧ Phrases Kind.isExpression used ns ∧ ns.length ≤ 1 := by
    obtain ⟨n, s₂, v, hread₁, hn, h⟩ := hr.expression.bind hs hread h
    obtain ⟨rfl, rfl⟩ := pure_ok.1 h
    exact ⟨_, hread₁, (Phrases.none u).append (.one hn), by simp⟩
  obtain ⟨assign, s₁, u, hread, -, h⟩ := (eat_gives (by simp)).first hs h
  split at h
  · exact value hread h
  · obtain ⟨default, s₂, v, hread₁, -, h⟩ := (eatWord_gives "default").bind hs hread h
    split at h
    · exact value hread₁ h
    · obtain ⟨rfl, rfl⟩ := pure_ok.1 h
      exact ⟨_, hread₁, .none _, by simp⟩

/-- The name that a parameter or a variable introduces takes its one token. -/
theorem definingName_takes (token : Token) :
    Takes [token] (.leaf .definingName token.span) :=
  .leaf rfl rfl (Spans.single token)

/-- A parameter is spelled by its tokens: a name, a type, and perhaps a value. -/
theorem parameter_gives (hr : r.Spell) : (parameter r).Gives (Phrase Kind.isParameter) := by
  rintro s n s' hs - h
  obtain ⟨name, s₁, u, hread, ⟨rfl, -⟩, h⟩ :=
    (expectIdentifier_gives "parameter name").first hs h
  obtain ⟨mode, s₂, v₁, hread₁, -, h⟩ := parameterMode_gives.bind hs hread h
  obtain ⟨nocopy, s₃, v₂, hread₂, -, h⟩ := (eatWord_gives "nocopy").bind hs hread₁ h
  obtain ⟨type, s₄, v₃, hread₃, htype, h⟩ := (dataType_gives .parameter).bind hs hread₂ h
  obtain ⟨value, s₅, v₄, hread₄, ⟨hvalue, hlength⟩, h⟩ :=
    (defaultValue_gives hr).bind hs hread₃ h
  rw [lastSpan_bind] at h
  obtain ⟨rfl, rfl⟩ := pure_ok.1 h
  have hinner := ((((definingName_takes name).spells.append (Spells.skips v₁)).append
    (Spells.skips v₂)).append htype.spells).append hvalue.spells
  refine ⟨_, hread₄, .ofTakes (.mk' ?_ rfl ?_ (by simpa using hinner)) rfl⟩
  · exact ⟨_, _, rfl, htype.kind, hvalue.atMostOne hlength⟩
  · exact Spans.toLast hs hread₄ rfl

/-- The parameters of a routine are spelled by what stands between its parentheses. -/
theorem parameters_gives (hr : r.Spell) : (parameters r).Gives (Phrases Kind.isParameter) := by
  rintro s ns s' hs - h
  obtain ⟨opening, s₁, u, hread, ⟨rfl, -⟩, h⟩ := (expect_gives (by simp) "(").first hs h
  obtain ⟨list, s₂, v, hread₁, ⟨hlist, -⟩, h⟩ :=
    (separated_phrases (parameter_gives hr)).bind hs hread h
  obtain ⟨closing, s₃, w, hread₂, ⟨rfl, -⟩, h⟩ := (expect_gives (by simp) ")").bind hs hread₁ h
  obtain ⟨rfl, rfl⟩ := pure_ok.1 h
  exact ⟨_, hread₂, ((Phrases.none [opening]).append hlist).skip [closing]⟩

/-! ### Bodies and blocks -/

/-- What is skipped takes all the tokens through its semicolon and has nothing below it. -/
theorem skipped_gives (kind : Kind) (hlayout : kind.Layout []) (hkind : kind.isOperand = false) :
    (skipped kind).GivesAt (·.kind ≠ .eof) (Phrase (· == kind)) := by
  rintro s n s' hs hat h
  rw [skipped, ask_bind, modify_bind, lastSpan_bind] at h
  obtain ⟨v, hne, hread⟩ := Stream.reads_skipPastSemicolon hs hat
  obtain ⟨rfl, rfl⟩ := pure_ok.1 h
  refine ⟨v, hread, .ofTakes (.leaf hlayout hkind ?_) (beq_self_eq_true kind)⟩
  exact Spans.toLast hs hread (hread.head?_eq hne)

/-- Statements are spelled one after the other; labels and stray semicolons are skipped tokens. -/
theorem statements_gives (hr : r.Spell) (stops : List String) :
    (statements r stops).Gives (Phrases Kind.isStatement) := by
  rintro s ns s' hs - h
  obtain ⟨found, s₁, u, hread, hfound, h⟩ :=
    (many_filterMap_phrases (hr.statement.at _)).first hs h
  obtain ⟨rfl, rfl⟩ := pure_ok.1 h
  exact ⟨u, hread, hfound⟩

/-- The declarations before a body.  Whatever else is read after them, the section
stands in front of it. -/
theorem declareSection_reads (hr : r.Spell) (hs : s.Sound)
    (h : declareSection r s = .ok (n, s')) :
    ∃ u, s.Reads u s' ∧ n.kind = .declareSection ∧
      ∀ vs ms s'', s'.Reads vs s'' → vs ≠ [] → Spells vs ms → Spells (u ++ vs) (n :: ms) := by
  rw [declareSection, ask_bind] at h
  have hmany : (many (fun s => !s.atEnd && !s.atWord "begin" && !s.atWord "end")
      r.declaration).Gives fun u ns => Phrases Kind.isDeclared u ns ∧ (u = [] ↔ ns = []) := by
    refine many_gives (hr.declaration.at _) ⟨.none [], by simp⟩ ?_
    intro u ns v n hns hn
    exact ⟨hns.1.append (.one hn), by simp [hn.ne_nil]⟩
  obtain ⟨list, s₁, u, hread, ⟨hlist, hiff⟩, h⟩ := hmany.first hs h
  rw [lastSpan_bind] at h
  obtain ⟨rfl, rfl⟩ := pure_ok.1 h
  refine ⟨u, hread, rfl, ?_⟩
  intro vs ms s'' hvs hne hspells
  cases list with
  | nil =>
    obtain rfl := hiff.2 rfl
    obtain ⟨token, rest, rfl⟩ := List.exists_cons_of_ne_nil hne
    have hpeek : s.peek = token := by
      have hrest := hread.rest.trans hvs.rest
      simp [Stream.peek, hrest]
    rw [hpeek]
    exact .empty token hspells
  | cons first list =>
    have hu : u ≠ [] := by simp [hiff]
    refine Spells.cons (Takes.spells (.mk' hlist.mapKinds rfl ?_ hlist.spells)) hspells
    exact Spans.collapseToLast hs hread hu

/-- A handler is spelled by its `WHEN`, the names that are skipped, and its statements. -/
theorem exceptionHandler_gives (hr : r.Spell) :
    (exceptionHandler r).GivesAt (·.atWord "when" = true) (Phrase (· == .exceptionHandler)) := by
  rintro s n s' hs hat h
  rw [exceptionHandler, bump_bind, skipUntil_bind] at h
  have hread := Stream.reads_advance hs (Stream.ne_eof_of_atWord hat)
  obtain ⟨v, hskip⟩ := Stream.reads_skipUntil (·.atWord "then") s.advance
  obtain ⟨then_, s₁, w, hread₁, -, h⟩ :=
    (expectWord_gives "then").bind hs (hread.trans hskip) h
  obtain ⟨list, s₂, x, hread₂, hlist, h⟩ := (statements_gives hr ["when", "end"]).bind hs hread₁ h
  rw [lastSpan_bind] at h
  obtain ⟨rfl, rfl⟩ := pure_ok.1 h
  have hall := (Phrases.none ([s.peek] ++ v ++ w)).append hlist
  exact ⟨_, hread₂, .ofTakes (.mk' hall.mapKinds rfl (Spans.toLast hs hread₂ rfl)
    hall.spells) rfl⟩

/-- A body is a phrase with the semicolon after its `END` skipped behind it, and tokens were read
for it. -/
theorem body_gives (hr : r.Spell) :
    (body r).Gives fun u n => Phrases (· == .body) u [n] ∧ u ≠ [] := by
  rintro s n s' hs - h
  obtain ⟨start, s₁, u, hread, ⟨rfl, -⟩, h⟩ := (expectWord_gives "begin").first hs h
  obtain ⟨list, s₂, v₁, hread₁, hlist, h⟩ :=
    (statements_gives hr ["exception", "end"]).bind hs hread h
  obtain ⟨read, s₃, v₂, hread₂, -, h⟩ := (eatWord_gives "exception").bind hs hread₁ h
  obtain ⟨handlers, s₄, v₃, hread₃, hhandlers, h⟩ :=
    when_phrases (many_phrases (exceptionHandler_gives hr)) hs hread₂ (fun _ => trivial) h
  obtain ⟨end_, s₅, v₄, hread₄, -, h⟩ := (expectWord_gives "end").bind hs hread₃ h
  obtain ⟨-, s₆, v₅, hread₅, -, h⟩ := eatEndLabel_gives.bind hs hread₄ h
  rw [lastSpan_bind] at h
  obtain ⟨semicolon, s₇, v₆, hread₆, -, h⟩ := (eat_gives (by simp)).bind hs hread₅ h
  obtain ⟨rfl, rfl⟩ := pure_ok.1 h
  have hinner := ((((((Spells.skips [start]).append hlist.spells).append (Spells.skips v₂)).append
    hhandlers.spells).append (Spells.skips v₄)).append (Spells.skips v₅))
  have htakes : Takes ([start] ++ v₁ ++ v₂ ++ v₃ ++ v₄ ++ v₅)
      (.mk .body (start.span.cover s₆.lastSpan) (list ++ handlers)) := by
    refine .mk' ?_ rfl (Spans.toLast hs hread₅ rfl) (by simpa using hinner)
    exact ⟨_, _, List.map_append, hlist.mapKinds, by simpa using hhandlers.kinds⟩
  exact ⟨_, hread₆, (Phrases.one (.ofTakes htakes rfl)).skip v₆, by simp⟩

/-- A label is read; no node is made for it. -/
theorem label_gives : label.GivesAt (·.atKind .labelOpen = true) fun _ _ => True := by
  rintro s a s' hs hat h
  rw [label, bump_bind] at h
  have hread := Stream.reads_advance hs (by simp [Stream.kind_of_atKind hat])
  obtain ⟨name, s₁, u, hread₁, -, h⟩ := (expectIdentifier_gives "label").bind hs hread h
  obtain ⟨closing, s₂, v, hread₂, -, h⟩ := (expect_gives (by simp) ">>").bind hs hread₁ h
  obtain ⟨-, rfl⟩ := pure_ok.1 h
  exact ⟨_, hread₂, trivial⟩

/-- A block is spelled by its tokens behind its labels: perhaps a section of declarations, and a
body. -/
theorem block_gives (hr : r.Spell) : (block r).Gives (Phrase (· == .anonymousBlock)) := by
  rintro s n s' hs - h
  have hlabels : (many (·.atKind .labelOpen) label).Gives fun _ _ => True :=
    many_gives label_gives trivial fun _ _ _ _ _ _ => trivial
  obtain ⟨-, s₁, labels, hlabel, -, h⟩ := hlabels.first hs h
  have hs₁ := hlabel.sound hs
  rw [ask_bind] at h
  obtain ⟨read, s₂, u, hread, hdeclare, h⟩ := (eatWord_gives "declare").first hs₁ h
  have finish (section_ : List Node) {s₃ : Stream} {v : List Token} (hread : s₁.Reads v s₃)
      (hkinds : Kind.AtMostOne (· == .declareSection) (section_.map Node.kind))
      (hinner : ∀ vs ms s'', s₃.Reads vs s'' → vs ≠ [] → Spells vs ms →
        Spells (v ++ vs) (section_ ++ ms))
      (h : (body r >>= fun inner => lastSpan >>= fun last =>
        pure (.mk .anonymousBlock (s₁.peek.span.cover last) (section_ ++ [inner]))) s₃ =
        .ok (n, s')) :
      ∃ used, s.Reads used s' ∧ Phrase (· == .anonymousBlock) used n := by
    obtain ⟨inner, s₄, hbody, h⟩ := bind_ok.1 h
    obtain ⟨w, hread₁, ⟨hw, hne⟩⟩ := body_gives hr (hread.sound hs₁) trivial hbody
    rw [lastSpan_bind] at h
    obtain ⟨rfl, rfl⟩ := pure_ok.1 h
    have hread₂ := hread.trans hread₁
    refine ⟨_, hlabel.trans hread₂, labels, v ++ w, rfl, .mk' ?_ rfl ?_ ?_, rfl⟩
    · have hkind : inner.kind = .body := by simpa using hw.kinds
      exact ⟨_, by simp [hkind], hkinds⟩
    · exact Spans.toLast hs₁ hread₂ (hread₂.head?_eq (by simp [hne]))
    · exact hinner w [inner] s₄ hread₁ hne hw.spells
  rcases hdeclare with ⟨rfl, declare, rfl, -⟩ | ⟨rfl, rfl⟩
  · rw [if_pos rfl] at h
    obtain ⟨declarations, s₃, hdecl, h⟩ := bind_ok.1 h
    obtain ⟨v, hread₁, hkind, hspells⟩ := declareSection_reads hr (hread.sound hs₁) hdecl
    refine finish [declarations] (hread.trans hread₁) ?_ ?_ h
    · exact ⟨by simp, by simp [hkind]⟩
    · intro vs ms s'' hvs hne hms
      exact .skip declare (hspells vs ms s'' hvs hne hms)
  · rw [if_neg (by simp)] at h
    refine finish [] hread ⟨by simp, by simp⟩ ?_ h
    intro vs ms s'' _ _ hms
    exact hms

/-! ### Routines and declarations -/

/-- A node whose text began with the tokens `u`, up to the token read last. -/
theorem opened_takes {kind : Kind} {parts : List Node} {s₁ : Stream} (hs : s₀.Sound)
    (hread : s₀.Reads (u ++ v) s₁) (hne : v ≠ []) (hinner : Spells (u ++ v) parts)
    (hlayout : kind.Layout (parts.map Node.kind)) (hkind : kind.isOperand = false)
    (h : (lastSpan >>= fun last => pure (Node.mk kind (s₀.peek.span.cover last) parts)) s₁ =
      .ok (n, s')) :
    ∃ v, s₀.Reads (u ++ v) s' ∧ Takes (u ++ v) n ∧ n.kind = kind := by
  rw [lastSpan_bind] at h
  obtain ⟨rfl, rfl⟩ := pure_ok.1 h
  have hspan := Spans.toLast hs hread (hread.head?_eq (by simp [hne]))
  exact ⟨v, hread, .mk' hlayout hkind hspan hinner, rfl⟩

/-- A routine whose parts are laid out as those of a routine. -/
theorem routine_takes {kind : Kind} {parts : List Node} {s₁ : Stream}
    (hkind : kind.isRoutine = true) (hs : s₀.Sound) (hread : s₀.Reads (u ++ v) s₁) (hne : v ≠ [])
    (hinner : Spells (u ++ v) parts) (hlayout : Kind.RoutineLayout (parts.map Node.kind))
    (h : (lastSpan >>= fun last => pure (Node.mk kind (s₀.peek.span.cover last) parts)) s₁ =
      .ok (n, s')) :
    ∃ v, s₀.Reads (u ++ v) s' ∧ Takes (u ++ v) n ∧ n.kind = kind := by
  exact opened_takes hs hread hne hinner ((Kind.layout_of_isRoutine hkind _).2 hlayout)
    (Kind.not_isOperand_of_isRoutine hkind) h

/-- A routine whose text began with the tokens `u` takes them and all that is read for it. -/
theorem routine_extends (hr : r.Spell) {kind : Kind} (hkind : kind.isRoutine = true)
    (hs : s₀.Sound) (hread : s₀.Reads u s) (h : routine r kind s₀.peek.span s = .ok (n, s')) :
    ∃ v, s₀.Reads (u ++ v) s' ∧ Takes (u ++ v) n ∧ n.kind = kind := by
  rw [routine, get_bind] at h
  by_cases hword : (!s.atAnyWord ["procedure", "function"]) = true
  · rw [if_pos hword] at h
    exact absurd h not_unexpected_ok
  rw [if_neg hword] at h
  have hat : s.kind ≠ .eof := Stream.ne_eof_of_atAnyWord (by simpa using hword)
  rw [bump_bind] at h
  obtain ⟨name, s₁, v₁, hread₁, hname, h⟩ :=
    definingName_gives.bind hs (hread.bump hs hat) h
  rw [get_bind] at h
  obtain ⟨list, s₂, v₂, hread₂, hlist, h⟩ :=
    when_phrases (parameters_gives hr) hs hread₁ (fun _ => trivial) h
  obtain ⟨returns, s₃, v₃, hread₃, -, h⟩ := (eatWord_gives "return").bind hs hread₂ h
  obtain ⟨result, s₄, v₄, hread₄, ⟨hresult, hlength⟩, h⟩ :=
    when_phrase resultType_gives hs hread₃ (fun _ => trivial) h
  beta_reduce at h
  rw [skipUntil_bind] at h
  obtain ⟨v₅, hskip⟩ :=
    Stream.reads_skipUntil (fun s => s.atAnyWord ["is", "as"] || s.atKind .semicolon) s₄
  have hread₅ := hread₄.trans hskip
  simp only [List.append_assoc] at hread₅
  have hsignature : Spells (u ++ ([s.peek] ++ (v₁ ++ (v₂ ++ (v₃ ++ (v₄ ++ v₅))))))
      (name :: list ++ result) := by
    simpa using (Spells.skips u).append ((Spells.skips [s.peek]).append (hname.spells.append
      (hlist.spells.append ((Spells.skips v₃).append (hresult.spells.append (Spells.skips v₅))))))
  have hlayout (parts : List Node)
      (hparts : parts.map Node.kind = [] ∨ parts.map Node.kind = [.declareSection, .body]) :
      Kind.RoutineLayout ((name :: list ++ result ++ parts).map Node.kind) := by
    have hdefining : name.kind = .definingName := by simpa using hname.kind
    exact ⟨_, _, _, by simp [hdefining], hlist.mapKinds, hresult.atMostOne hlength, hparts⟩
  obtain ⟨semicolon, s₆, v₆, hread₆, -, h⟩ := (eat_gives (by simp)).bind hs hread₅ h
  have hsignature₆ := hsignature.append (Spells.skips v₆)
  rw [List.append_assoc] at hread₆ hsignature₆
  split at h
  · exact routine_takes hkind hs hread₆ (by simp) hsignature₆ (hlayout [] (.inl rfl)) h
  rw [get_bind] at h
  split at h
  case isTrue his =>
    rw [bump_bind, get_bind] at h
    have hread₇ := hread₆.bump hs (Stream.ne_eof_of_atAnyWord his)
    have hsignature₇ := hsignature₆.append (Spells.skips [s₆.peek])
    rw [List.append_assoc] at hread₇ hsignature₇
    split at h
    case isTrue hexternal =>
      rw [modify_bind] at h
      obtain ⟨w, -, hskip⟩ := Stream.reads_skipPastSemicolon (hread₇.sound hs)
        (Stream.ne_eof_of_atAnyWord hexternal)
      have hread₈ := hread₇.trans hskip
      have hsignature₈ := hsignature₇.append (Spells.skips w)
      rw [List.append_assoc] at hread₈ hsignature₈
      exact routine_takes hkind hs hread₈ (by simp) (by simpa using hsignature₈)
        (hlayout [] (.inl rfl)) h
    case isFalse =>
      obtain ⟨declarations, s₈, hdecl, h⟩ := bind_ok.1 h
      obtain ⟨w, hw, hsection, hspells⟩ := declareSection_reads hr (hread₇.sound hs) hdecl
      obtain ⟨inner, s₉, hbody, h⟩ := bind_ok.1 h
      have hread₈ := hread₇.trans hw
      obtain ⟨x, hx, hinner, hne⟩ := body_gives hr (hread₈.sound hs) trivial hbody
      have hread₉ := hread₈.trans hx
      have hall := hsignature₇.append (hspells x [inner] s₉ hx hne hinner.spells)
      simp only [List.append_assoc] at hread₉ hall
      have hbodyKind : inner.kind = .body := by simpa using hinner.kinds
      exact routine_takes hkind hs hread₉ (by simp) (by simpa using hall)
        (hlayout [declarations, inner] (.inr (by simp [hsection, hbodyKind]))) h
  case isFalse => exact absurd h not_unexpected_ok

/-- A variable or constant is spelled by its name, its type, perhaps a value, and a semicolon. -/
theorem variableDeclaration_gives (hr : r.Spell) :
    (variableDeclaration r).GivesAt (·.atIdentifier = true) (Phrase Kind.isDeclared) := by
  rintro s n s' hs hat h
  rw [variableDeclaration, bump_bind] at h
  have hread := Stream.reads_advance hs (Stream.ne_eof_of_isIdentifier hat)
  obtain ⟨constant, s₁, v₁, hread₁, -, h⟩ := (eatWord_gives "constant").bind hs hread h
  rw [ite_pure_bind] at h
  obtain ⟨type, s₂, v₂, hread₂, htype, h⟩ := (dataType_gives .declaration).bind hs hread₁ h
  obtain ⟨negated, s₃, v₃, hread₃, -, h⟩ := (eatWord_gives "not").bind hs hread₂ h
  obtain ⟨s₄, v₄, hread₄, h⟩ :=
    GivesAt.when (expectWord_gives "null") hs hread₃ (fun _ => trivial) h
  obtain ⟨value, s₅, v₅, hread₅, ⟨hvalue, hlength⟩, h⟩ :=
    (defaultValue_gives hr).bind hs hread₄ h
  obtain ⟨finish, s₆, v₆, hread₆, ⟨rfl, -⟩, h⟩ := (expect_gives (by simp) ";").bind hs hread₅ h
  obtain ⟨rfl, rfl⟩ := pure_ok.1 h
  have hinner := ((((((definingName_takes s.peek).spells.append (Spells.skips v₁)).append
    htype.spells).append (Spells.skips v₃)).append (Spells.skips v₄)).append hvalue.spells).append
    (Spells.skips [finish])
  have hlayout : Kind.DeclarationLayout
      ((Node.leaf .definingName s.peek.span :: type :: value).map Node.kind) :=
    ⟨_, _, rfl, htype.kind, hvalue.atMostOne hlength⟩
  have hspan := Spans.ofTokens (hread₆.ordered hs) rfl
  refine ⟨_, hread₆, ?_⟩
  split
  · exact .ofTakes (.mk' hlayout rfl hspan (by simpa using hinner)) rfl
  · exact .ofTakes (.mk' hlayout rfl hspan (by simpa using hinner)) rfl

/-- Each declaration is spelled by its tokens, and is of a kind that may stand in a section. -/
theorem declaration_gives (hr : r.Spell) : (declaration r).Gives (Phrase Kind.isDeclared) := by
  rintro s n s' hs - h
  have nested {kind : Kind} (hkind : kind.isRoutine = true) (hdeclared : kind.isDeclared = true)
      (h : routine r kind s.peek.span s = .ok (n, s')) :
      ∃ used, s.Reads used s' ∧ Phrase Kind.isDeclared used n := by
    obtain ⟨v, hread, htakes, rfl⟩ := routine_extends hr hkind hs (.refl s) h
    exact ⟨_, hread, .ofTakes htakes hdeclared⟩
  rw [declaration, get_bind] at h
  split at h
  · exact nested rfl rfl h
  split at h
  · exact nested rfl rfl h
  split at h
  case isTrue hother =>
    have hat : s.kind ≠ .eof := by
      rw [Bool.or_eq_true, Bool.and_eq_true] at hother
      rcases hother with hword | ⟨hname, -⟩
      · exact Stream.ne_eof_of_atAnyWord hword
      · exact Stream.ne_eof_of_isIdentifier hname
    obtain ⟨v, hread, hphrase⟩ := skipped_gives .otherDeclaration rfl rfl hs hat h
    exact ⟨v, hread, hphrase.mono (by simp +contextual [Kind.isDeclared])⟩
  split at h
  case isTrue hat =>
    exact variableDeclaration_gives hr hs hat h
  case isFalse => exact absurd h not_unexpected_ok

/-! ### Statements -/

/-- A statement up to its semicolon takes all tokens from its first one on, if its parts spell what
stands in between. -/
theorem closed_statement {kind : Kind} {parts : List Node} {s₁ : Stream} (hs : s.Sound)
    (hread : s.Reads u s₁) (hinner : Spells u parts)
    (hlayout : kind.Layout (parts.map Node.kind)) (hkind : kind.isStatement = true)
    (h : (expect .semicolon ";" >>= fun finish =>
      pure (Node.mk kind (s.peek.span.cover finish.span) parts)) s₁ = .ok (n, s')) :
    ∃ used, s.Reads used s' ∧ Phrase Kind.isStatement used n := by
  obtain ⟨finish, s₂, v, hread₁, ⟨rfl, -⟩, h⟩ := (expect_gives (by simp) ";").bind hs hread h
  obtain ⟨rfl, rfl⟩ := pure_ok.1 h
  refine ⟨_, hread₁, .ofTakes (.mk' hlayout
    (Kind.not_isOperand_of_isStatement hkind) ?_ ?_) hkind⟩
  · exact Spans.ofTokens (hread₁.ordered hs) (hread₁.head?_eq (by simp))
  · simpa using hinner.append (Spells.skips [finish])

/-- An assignment or a call is spelled by its tokens, from the target to the semicolon. -/
theorem simpleStatement_gives (hr : r.Spell) :
    (simpleStatement r).Gives (Phrase Kind.isStatement) := by
  rintro s n s' hs - h
  rw [simpleStatement, ask_bind] at h
  obtain ⟨target, s₁, u, hread, htarget, h⟩ := (postfixed_gives hr).first hs h
  obtain ⟨assign, s₂, v, hread₁, -, h⟩ := (eat_gives (by simp)).bind hs hread h
  have hinner := htarget.spells.append (Spells.skips v)
  split at h
  · obtain ⟨value, s₃, w, hread₂, hvalue, h⟩ := hr.expression.bind hs hread₁ h
    refine closed_statement hs hread₂ (hinner.append hvalue.spells) ?_ rfl h
    exact ⟨_, _, rfl, htarget.kind, hvalue.kind⟩
  · refine closed_statement hs hread₁ hinner ?_ rfl h
    exact ⟨_, rfl, htarget.kind⟩

section Branches

/-- An expression may stand in the branches of a statement. -/
theorem branchExpression {kind : Kind} (h : kind.isExpression = true) :
    kind.isBranchPart = true := by
  simp [Kind.isBranchPart, h]

/-- A statement may stand in the branches of a statement. -/
theorem branchStatement {kind : Kind} (h : kind.isStatement = true) :
    kind.isBranchPart = true := by
  simp [Kind.isBranchPart, h]

/-- A condition and the statements under it are phrases, one behind the other. -/
theorem guarded_gives (hr : r.Spell) : (guarded r).Gives (Phrases Kind.isBranchPart) := by
  rintro s ns s' hs - h
  obtain ⟨condition, s₁, u, hread, hcondition, h⟩ := hr.expression.first hs h
  obtain ⟨then_, s₂, v, hread₁, -, h⟩ := (expectWord_gives "then").bind hs hread h
  obtain ⟨list, s₃, w, hread₂, hlist, h⟩ :=
    (statements_gives hr ["elsif", "else", "end"]).bind hs hread₁ h
  obtain ⟨rfl, rfl⟩ := pure_ok.1 h
  have hfirst := (Phrases.one (hcondition.mono fun _ => branchExpression)).skip v
  exact ⟨_, hread₂, hfirst.append (hlist.mono fun _ => branchStatement)⟩

/-- Behind `ELSIF` stand a condition and statements, and behind `ELSE` statements only. -/
theorem ifBranch_gives (hr : r.Spell) : (ifBranch r).Gives (Phrases Kind.isBranchPart) := by
  rintro s ns s' hs - h
  obtain ⟨elsif, s₁, u, hread, -, h⟩ := (eatWord_gives "elsif").first hs h
  split at h
  · obtain ⟨v, hread₁, hv⟩ := guarded_gives hr (hread.sound hs) trivial h
    exact ⟨_, hread.trans hread₁, (Phrases.none u).append hv⟩
  · obtain ⟨else_, s₂, v, hread₁, -, h⟩ := (eatWord_gives "else").bind hs hread h
    obtain ⟨w, hread₂, hw⟩ := statements_gives hr ["end"] (hread₁.sound hs) trivial h
    exact ⟨_, hread₁.trans hread₂, (Phrases.none (u ++ v)).append (hw.mono fun _ => branchStatement)⟩

/-- An `IF` statement is spelled by its tokens: conditions and statements, branch by branch. -/
theorem ifStatement_gives (hr : r.Spell) :
    (ifStatement r).GivesAt (·.kind ≠ .eof) (Phrase Kind.isStatement) := by
  rintro s n s' hs hat h
  rw [ifStatement, bump_bind] at h
  have hread := Stream.reads_advance hs hat
  obtain ⟨first, s₁, v₁, hread₁, hfirst, h⟩ := (guarded_gives hr).bind hs hread h
  obtain ⟨others, s₂, v₂, hread₂, hothers, h⟩ :=
    (many_flatten_phrases ((ifBranch_gives hr).at _)).bind hs hread₁ h
  obtain ⟨end_, s₃, v₃, hread₃, -, h⟩ := (expectWord_gives "end").bind hs hread₂ h
  obtain ⟨if_, s₄, v₄, hread₄, -, h⟩ := (expectWord_gives "if").bind hs hread₃ h
  have hall := ((((Phrases.none [s.peek]).append hfirst).append hothers).skip v₃).skip v₄
  refine closed_statement hs hread₄ hall.spells ?_ rfl h
  exact hall.mapKinds

/-- A branch of a `CASE` statement is spelled by its choice and its statements. -/
theorem choiceBranch_gives (hr : r.Spell) :
    (choiceBranch r).GivesAt (·.atWord "when" = true) (Phrases Kind.isBranchPart) := by
  rintro s ns s' hs hat h
  rw [choiceBranch, bump_bind] at h
  have hread := Stream.reads_advance hs (Stream.ne_eof_of_atWord hat)
  obtain ⟨choice, s₁, v, hread₁, hchoice, h⟩ := hr.expression.bind hs hread h
  obtain ⟨then_, s₂, w, hread₂, -, h⟩ := (expectWord_gives "then").bind hs hread₁ h
  obtain ⟨list, s₃, x, hread₃, hlist, h⟩ :=
    (statements_gives hr ["when", "else", "end"]).bind hs hread₂ h
  obtain ⟨rfl, rfl⟩ := pure_ok.1 h
  have hfirst := (Phrases.none [s.peek]).append
    (.one (hchoice.mono fun _ => branchExpression))
  exact ⟨_, hread₃, (hfirst.skip w).append (hlist.mono fun _ => branchStatement)⟩

/-- A `CASE` statement is spelled by its tokens: perhaps a selector, the branches, and what stands
after `ELSE`. -/
theorem caseStatement_gives (hr : r.Spell) :
    (caseStatement r).GivesAt (·.kind ≠ .eof) (Phrase Kind.isStatement) := by
  rintro s n s' hs hat h
  rw [caseStatement, bump_bind, get_bind] at h
  have hread := Stream.reads_advance hs hat
  obtain ⟨selector, s₁, v₁, hread₁, ⟨hselector, -⟩, h⟩ := unless_phrase hr.expression hs hread h
  obtain ⟨branches, s₂, v₂, hread₂, hbranches, h⟩ :=
    (many_flatten_phrases (choiceBranch_gives hr)).bind hs hread₁ h
  obtain ⟨read, s₃, v₃, hread₃, -, h⟩ := (eatWord_gives "else").bind hs hread₂ h
  obtain ⟨otherwise, s₄, v₄, hread₄, hotherwise, h⟩ :=
    when_phrases (statements_gives hr ["end"]) hs hread₃ (fun _ => trivial) h
  obtain ⟨end_, s₅, v₅, hread₅, -, h⟩ := (expectWord_gives "end").bind hs hread₄ h
  obtain ⟨case_, s₆, v₆, hread₆, -, h⟩ := (expectWord_gives "case").bind hs hread₅ h
  obtain ⟨-, s₇, v₇, hread₇, -, h⟩ := eatEndLabel_gives.bind hs hread₆ h
  have hfirst := (Phrases.none [s.peek]).append (hselector.mono fun _ => branchExpression)
  have hall := (((((hfirst.append hbranches).skip v₃).append
    (hotherwise.mono fun _ => branchStatement)).skip v₅).skip v₆).skip v₇
  refine closed_statement hs hread₇ hall.spells ?_ rfl h
  exact hall.mapKinds

/-- The range of a `FOR` is skipped, so whatever is read for it leaves no node. -/
theorem forRange_reads {β : Type} {c : Prop} [Decidable c] {stop : Stream → Bool} {rest : Parser β}
    {b : β} (hs : s₀.Sound) (hread : s₀.Reads u s)
    (h : (if c then eatWord "for" >>= fun read =>
        if read then skipUntil stop >>= fun _ => rest else rest
      else rest) s = .ok (b, s')) :
    ∃ s₁ v, s₀.Reads (u ++ v) s₁ ∧ rest s₁ = .ok (b, s') := by
  split at h
  · obtain ⟨read, s₁, v, hread₁, -, h⟩ := (eatWord_gives "for").bind hs hread h
    obtain ⟨s₂, w, hread₂, h⟩ :=
      GivesAt.when (skipUntil_gives stop) hs hread₁ (fun _ => trivial) h
    rw [List.append_assoc] at hread₂
    exact ⟨s₂, v ++ w, hread₂, h⟩
  · exact ⟨s, [], by simpa using hread, h⟩

/-- A loop is spelled by its tokens: the condition of a `WHILE`, if there is one, and the
statements. -/
theorem loopStatement_gives (hr : r.Spell) : (loopStatement r).Gives (Phrase Kind.isStatement) := by
  rintro s n s' hs - h
  rw [loopStatement, ask_bind] at h
  obtain ⟨while_, s₁, v₁, hread₁, -, h⟩ := (eatWord_gives "while").first hs h
  obtain ⟨condition, s₂, v₂, hread₂, ⟨hcondition, -⟩, h⟩ :=
    when_phrase hr.expression hs hread₁ (fun _ => trivial) h
  obtain ⟨s₃, v₃, hread₃, h⟩ := forRange_reads hs hread₂ h
  obtain ⟨loop_, s₄, v₄, hread₄, -, h⟩ := (expectWord_gives "loop").bind hs hread₃ h
  obtain ⟨list, s₅, v₅, hread₅, hlist, h⟩ := (statements_gives hr ["end"]).bind hs hread₄ h
  obtain ⟨end_, s₆, v₆, hread₆, -, h⟩ := (expectWord_gives "end").bind hs hread₅ h
  obtain ⟨last, s₇, v₇, hread₇, -, h⟩ := (expectWord_gives "loop").bind hs hread₆ h
  obtain ⟨-, s₈, v₈, hread₈, -, h⟩ := eatEndLabel_gives.bind hs hread₇ h
  have hfirst := (Phrases.none v₁).append (hcondition.mono fun _ => branchExpression)
  have hall := (((((hfirst.skip v₃).skip v₄).append
    (hlist.mono fun _ => branchStatement)).skip v₆).skip v₇).skip v₈
  refine closed_statement hs hread₈ hall.spells ?_ rfl h
  exact hall.mapKinds

/-- A `FORALL` is spelled by its tokens, with the statement that it repeats. -/
theorem forallStatement_gives (hr : r.Spell) :
    (forallStatement r).GivesAt (·.kind ≠ .eof) (Phrase Kind.isStatement) := by
  rintro s n s' hs hat h
  rw [forallStatement, bump_bind] at h
  have hread := Stream.reads_advance hs hat
  obtain ⟨-, s₁, v, hread₁, -, h⟩ := (skipUntil_gives _).bind hs hread h
  obtain ⟨inner, s₂, w, hread₂, hinner, h⟩ := hr.statement.bind hs hread₁ h
  rw [lastSpan_bind] at h
  obtain ⟨rfl, rfl⟩ := pure_ok.1 h
  have hall := (Phrases.none ([s.peek] ++ v)).append (hinner.mono fun _ => branchStatement)
  exact ⟨_, hread₂, .ofTakes (.mk' hall.mapKinds rfl (Spans.toLast hs hread₂ rfl)
    hall.spells) rfl⟩

end Branches

/-! ### Dynamic SQL -/

/-- A bind argument is spelled by its tokens; the words for its mode are skipped. -/
theorem bindArgument_gives (hr : r.Spell) :
    (bindArgument r).Gives (Phrase Kind.isExpression) := by
  rintro s n s' hs - h
  obtain ⟨input, s₁, u, hread, -, h⟩ := (eatWord_gives "in").first hs h
  obtain ⟨output, s₂, v, hread₁, -, h⟩ := (eatWord_gives "out").bind hs hread h
  obtain ⟨w, hread₂, hw⟩ := hr.expression (hread₁.sound hs) trivial h
  exact ⟨_, hread₁.trans hread₂, hw.skip (u ++ v)⟩

/-- A clause of bind arguments is spelled by its tokens, one expression for each argument. -/
theorem usingClause_gives (hr : r.Spell) :
    (usingClause r).GivesAt (·.kind ≠ .eof) (Phrase (· == .usingClause)) := by
  rintro s n s' hs hat h
  rw [usingClause, bump_bind] at h
  have hread := Stream.reads_advance hs hat
  obtain ⟨binds, s₁, v, hread₁, ⟨hbinds, hne⟩, h⟩ :=
    (separated_phrases (bindArgument_gives hr)).bind hs hread h
  rw [lastSpan_bind] at h
  obtain ⟨rfl, rfl⟩ := pure_ok.1 h
  have hall := (Phrases.none [s.peek]).append hbinds
  refine ⟨_, hread₁, .ofTakes (.mk' ?_ rfl (Spans.toLast hs hread₁ rfl) hall.spells) rfl⟩
  exact ⟨by simpa using hne, hbinds.mapKinds⟩

/-- A clause of a dynamic statement is spelled by its tokens, whichever word it begins with. -/
theorem executeClause_gives (hr : r.Spell) :
    (executeClause r).GivesAt
      (·.atAnyWord ["into", "bulk", "returning", "return", "using"] = true)
      (Phrase Kind.isClause) := by
  rintro s n s' hs hat h
  have hend := Stream.ne_eof_of_atAnyWord hat
  rw [executeClause, get_bind] at h
  split at h
  · obtain ⟨v, hread, hphrase⟩ := usingClause_gives hr hs hend h
    exact ⟨v, hread, hphrase.mono (by simp +contextual [Kind.isClause])⟩
  · rw [intoClause, bump_bind] at h
    obtain ⟨-, s₁, v, hread, -, h⟩ :=
      (skipUntil_gives _).bind hs (Stream.reads_advance hs hend) h
    rw [lastSpan_bind] at h
    obtain ⟨rfl, rfl⟩ := pure_ok.1 h
    exact ⟨_, hread, .ofTakes (.leaf rfl rfl (Spans.toLast hs hread rfl)) rfl⟩

/-- An `EXECUTE IMMEDIATE` is spelled by its tokens: the text that is run, and its clauses. -/
theorem executeImmediate_gives (hr : r.Spell) :
    (executeImmediate r).GivesAt (fun s => s.kind = .word ∧ s.atWordAt 1 "immediate" = true)
      (Phrase Kind.isStatement) := by
  rintro s n s' hs ⟨hword, hnext⟩ h
  rw [executeImmediate, bump_bind, bump_bind] at h
  rw [← Stream.atWord_advance] at hnext
  have hread := (Stream.reads_advance hs (by simp [hword])).bump hs (Stream.ne_eof_of_atWord hnext)
  obtain ⟨sql, s₁, v, hread₁, hsql, h⟩ := hr.expression.bind hs hread h
  obtain ⟨clauses, s₂, w, hread₂, hclauses, h⟩ :=
    (many_phrases (executeClause_gives hr)).bind hs hread₁ h
  have hinner := ((Spells.skips ([s.peek] ++ [s.advance.peek])).append hsql.spells).append
    hclauses.spells
  refine closed_statement hs hread₂ hinner ?_ rfl h
  exact ⟨_, _, rfl, hsql.kind, hclauses.mapKinds⟩

/-- A query does not start with what ends it, so at least its first token is read. -/
theorem not_atQueryEnd
    (h : (atQuery s || (s.atKind .lParen && (s.atWordAt 1 "select" || s.atWordAt 1 "with"))) =
      true) :
    s.kind ≠ .eof ∧ (s.atKind .semicolon || s.atWord "using") = false := by
  have word {first : String} (hat : s.atWord first = true) (hne : first ≠ "using") :
      s.kind ≠ .eof ∧ (s.atKind .semicolon || s.atWord "using") = false := by
    refine ⟨Stream.ne_eof_of_atWord hat, ?_⟩
    rw [Bool.or_eq_false_iff]
    refine ⟨by simp [Stream.atKind, Stream.kind_of_atWord hat], ?_⟩
    rw [Bool.eq_false_iff]
    exact fun husing => hne (Stream.atWord_unique hat husing)
  rw [atQuery, Bool.or_eq_true, Bool.or_eq_true, Bool.and_eq_true] at h
  rcases h with (hselect | hwith) | ⟨hparen, -⟩
  · exact word hselect (by simp)
  · exact word hwith (by simp)
  · have hkind := Stream.kind_of_atKind hparen
    have husing : s.atWord "using" = false := by
      rw [Bool.eq_false_iff]
      intro husing
      simp [Stream.kind_of_atWord husing] at hkind
    exact ⟨by simp [hkind], by simp [Stream.atKind, hkind, husing]⟩

/-- What a cursor is opened for is a query that is skipped, or an expression. -/
theorem openedQuery_gives (hr : r.Spell) : (openedQuery r).Gives (Phrase Kind.isExpression) := by
  rintro s n s' hs - h
  rw [openedQuery, get_bind] at h
  split at h
  case isTrue hquery =>
    obtain ⟨hat, hstop⟩ := not_atQueryEnd hquery
    obtain ⟨v, hne, hread⟩ := Stream.reads_skipUntil_of_not
      (fun s => s.atKind .semicolon || s.atWord "using") hs hat hstop
    rw [skipUntil_bind, lastSpan_bind] at h
    obtain ⟨rfl, rfl⟩ := pure_ok.1 h
    refine ⟨v, hread, .ofTakes (.query ?_) rfl⟩
    exact Spans.toLast hs hread (hread.head?_eq hne)
  case isFalse => exact hr.expression hs trivial h

/-- An `OPEN` statement is spelled by its tokens: a cursor and what it is opened for, or nothing
where it is skipped. -/
theorem openStatement_gives (hr : r.Spell) :
    (openStatement r).GivesAt (·.kind ≠ .eof) (Phrase Kind.isStatement) := by
  rintro s n s' hs hat h
  rw [openStatement, get_bind] at h
  split at h
  · obtain ⟨v, hread, hphrase⟩ := skipped_gives .otherStatement rfl rfl hs hat h
    exact ⟨v, hread, hphrase.mono (by simp +contextual [Kind.isStatement])⟩
  · rw [bump_bind] at h
    have hread := Stream.reads_advance hs hat
    obtain ⟨cursor, s₁, v₁, hread₁, hcursor, h⟩ := (postfixed_gives hr).bind hs hread h
    obtain ⟨for_, s₂, v₂, hread₂, -, h⟩ := (expectWord_gives "for").bind hs hread₁ h
    obtain ⟨query, s₃, v₃, hread₃, hquery, h⟩ := (openedQuery_gives hr).bind hs hread₂ h
    rw [get_bind] at h
    obtain ⟨clause, s₄, v₄, hread₄, ⟨hclause, hlength⟩, h⟩ :=
      when_phrase (usingClause_gives hr) hs hread₃ Stream.ne_eof_of_atWord h
    have hinner := ((((Spells.skips [s.peek]).append hcursor.spells).append
      (Spells.skips v₂)).append hquery.spells).append hclause.spells
    refine closed_statement hs hread₄ (by simpa using hinner) ?_ rfl h
    exact ⟨_, _, _, rfl, hcursor.kind, hquery.kind, hclause.atMostOne hlength⟩

/-! ### All statements -/

/-- A `RETURN` statement is spelled by its tokens, with its value if it has one. -/
theorem returnStatement_gives (hr : r.Spell) :
    (returnStatement r).GivesAt (·.kind ≠ .eof) (Phrase Kind.isStatement) := by
  rintro s n s' hs hat h
  rw [returnStatement, bump_bind, get_bind] at h
  obtain ⟨value, s₁, v, hread, ⟨hvalue, hlength⟩, h⟩ :=
    unless_phrase hr.expression hs (Stream.reads_advance hs hat) h
  have hinner := (Spells.skips [s.peek]).append hvalue.spells
  refine closed_statement hs hread hinner ?_ rfl h
  exact hvalue.atMostOne hlength

/-- A `NULL` statement is spelled by its word and its semicolon. -/
theorem nullStatement_gives :
    nullStatement.GivesAt (fun s => s.kind = .word ∧ (s.peekAt 1).kind = .semicolon)
      (Phrase Kind.isStatement) := by
  rintro s n s' hs ⟨hword, hnext⟩ h
  rw [nullStatement, bump_bind, bump_bind] at h
  rw [← Stream.peek_advance] at hnext
  have hread := (Stream.reads_advance hs (by simp [hword])).bump hs
    (by simp [Stream.kind, hnext])
  obtain ⟨rfl, rfl⟩ := pure_ok.1 h
  exact ⟨_, hread, .ofTakes (.leaf rfl rfl (Spans.ofTokens (hread.ordered hs) rfl)) rfl⟩

/-- A statement that starts with a word is spelled by its tokens, whichever word it is. -/
theorem wordStatement_gives (hr : r.Spell) (word : String) (hs : s.Sound) (hword : s.kind = .word)
    (h : wordStatement r word s s = .ok (n, s')) :
    ∃ used, s.Reads used s' ∧ Phrase Kind.isStatement used n := by
  have hat : s.kind ≠ .eof := by simp [hword]
  have skip (kind : Kind) (hlayout : kind.Layout []) (hkind : kind.isStatement = true)
      (h : skipped kind s = .ok (n, s')) :
      ∃ used, s.Reads used s' ∧ Phrase Kind.isStatement used n := by
    obtain ⟨v, hread, hphrase⟩ :=
      skipped_gives kind hlayout (Kind.not_isOperand_of_isStatement hkind) hs hat h
    exact ⟨v, hread, hphrase.mono (by simp +contextual [hkind])⟩
  rw [wordStatement] at h
  rcases ite_run h with ⟨-, h⟩ | ⟨-, h⟩
  · obtain ⟨v, hread, hphrase⟩ := block_gives hr hs trivial h
    exact ⟨v, hread, hphrase.mono (by simp +contextual [Kind.isStatement])⟩
  rcases ite_run h with ⟨-, h⟩ | ⟨-, h⟩
  · exact ifStatement_gives hr hs hat h
  rcases ite_run h with ⟨-, h⟩ | ⟨-, h⟩
  · exact caseStatement_gives hr hs hat h
  rcases ite_run h with ⟨-, h⟩ | ⟨-, h⟩
  · exact loopStatement_gives hr hs trivial h
  rcases ite_run h with ⟨-, h⟩ | ⟨-, h⟩
  · exact forallStatement_gives hr hs hat h
  rcases ite_run h with ⟨himmediate, h⟩ | ⟨-, h⟩
  · rw [Bool.and_eq_true] at himmediate
    exact executeImmediate_gives hr hs ⟨hword, himmediate.2⟩ h
  rcases ite_run h with ⟨-, h⟩ | ⟨-, h⟩
  · exact openStatement_gives hr hs hat h
  rcases ite_run h with ⟨-, h⟩ | ⟨-, h⟩
  · exact returnStatement_gives hr hs hat h
  rcases ite_run h with ⟨-, h⟩ | ⟨-, h⟩
  · exact skip .raiseStatement rfl rfl h
  rcases ite_run h with ⟨hnull, h⟩ | ⟨-, h⟩
  · rw [Bool.and_eq_true, beq_iff_eq, beq_iff_eq] at hnull
    exact nullStatement_gives hs ⟨hword, hnull.2⟩ h
  rcases ite_run h with ⟨-, h⟩ | ⟨-, h⟩
  · exact skip .sqlStatement rfl rfl h
  rcases ite_run h with ⟨-, h⟩ | ⟨-, h⟩
  · exact skip .otherStatement rfl rfl h
  · exact simpleStatement_gives hr hs trivial h

/-- A statement is spelled by its tokens, or it leaves no node and all its tokens are skipped. -/
theorem statement_gives (hr : r.Spell) :
    (statement r).Gives fun used n => Phrases Kind.isStatement used n.toList := by
  rintro s n s' hs - h
  have found {p : Parser Node} (hp : ∀ m s₁, p s = .ok (m, s₁) →
      ∃ used, s.Reads used s₁ ∧ Phrase Kind.isStatement used m)
      (h : (p >>= fun m => pure (some m)) s = .ok (n, s')) :
      ∃ used, s.Reads used s' ∧ Phrases Kind.isStatement used n.toList := by
    obtain ⟨m, s₁, hm, h⟩ := bind_ok.1 h
    obtain ⟨used, hread, hphrase⟩ := hp m s₁ hm
    obtain ⟨rfl, rfl⟩ := pure_ok.1 h
    exact ⟨used, hread, .one hphrase⟩
  have block (m : Node) (s₁ : Stream) (h : Grammar.block r s = .ok (m, s₁)) :
      ∃ used, s.Reads used s₁ ∧ Phrase Kind.isStatement used m := by
    obtain ⟨v, hread, hphrase⟩ := block_gives hr hs trivial h
    exact ⟨v, hread, hphrase.mono (by simp +contextual [Kind.isStatement])⟩
  rw [statement, get_bind] at h
  cases hkind : s.kind with
  | labelOpen =>
    simp only [hkind] at h
    split at h
    · exact found block h
    · obtain ⟨-, s₁, v, hread, -, h⟩ :=
        label_gives.bind hs (.refl s) (by simp [Stream.atKind, hkind]) h
      obtain ⟨rfl, rfl⟩ := pure_ok.1 h
      exact ⟨v, hread, .none v⟩
  | semicolon =>
    simp only [hkind, bump_bind] at h
    obtain ⟨rfl, rfl⟩ := pure_ok.1 h
    exact ⟨_, Stream.reads_advance hs (by simp [hkind]), .none _⟩
  | word =>
    simp only [hkind] at h
    exact found (fun m s₁ hm => wordStatement_gives hr _ hs hkind hm) h
  | _ =>
    simp only [hkind] at h
    exact found (fun m s₁ hm => simpleStatement_gives hr hs trivial hm) h

end PlsqlAudit.Grammar
