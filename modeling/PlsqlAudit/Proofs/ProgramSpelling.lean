import PlsqlAudit.Grammar.Program
import PlsqlAudit.Proofs.StatementSpelling
import PlsqlAudit.Proofs.TokenPlaces

/-!
# A program is spelled by its tokens

Units are made of the phrases inside them, and the rules for phrases inside
phrases are sound at every depth.  So the tokens of a text that parses spell the
units of its tree (`parse_spells`), and every node of the tree fits the tokens it
takes (`Tree.spelled_of_parse`).
-/

namespace PlsqlAudit

namespace Grammar

open PlsqlAudit.Parser

variable {r : Rules} {s s₀ s' : Stream} {u v : List Token} {n : Node}

/-! ### Units -/

theorem headerEnd_gives : headerEnd.Gives fun _ _ => True := by
  rintro s a s' hs - h
  obtain ⟨-, s₁, u, hread, -, h⟩ := (skipUntil_gives _).first hs h
  rw [get_bind] at h
  split at h
  case isTrue hat =>
    rw [bump_bind] at h
    obtain ⟨-, rfl⟩ := pure_ok.1 h
    exact ⟨_, hread.bump hs (Stream.ne_eof_of_atAnyWord hat), trivial⟩
  case isFalse => exact absurd h not_unexpected_ok

theorem unitEnd_gives : unitEnd.Gives fun v _ => v ≠ [] := by
  rintro s a s' hs - h
  obtain ⟨end_, s₁, u, hread, ⟨rfl, -⟩, h⟩ := (expectWord_gives "end").first hs h
  obtain ⟨-, s₂, v, hread₁, -, h⟩ := eatEndLabel_gives.bind hs hread h
  obtain ⟨semicolon, s₃, w, hread₂, -, h⟩ := (eat_gives (by simp)).bind hs hread₁ h
  obtain ⟨-, rfl⟩ := pure_ok.1 h
  exact ⟨_, hread₂, by simp⟩

/-- A package whose text began with the tokens `u`. -/
theorem package_extends (hr : r.Spell) {kind : Kind}
    (hkind : kind = .packageSpec ∨ (kind = .packageBody ∧ s.atWordAt 1 "body" = true))
    (hs : s₀.Sound) (hread : s₀.Reads u s) (hat : s.kind ≠ .eof)
    (h : package r kind s₀.peek.span s = .ok (n, s')) :
    ∃ v, s₀.Reads (u ++ v) s' ∧ Takes (u ++ v) n ∧ n.kind = kind := by
  rw [package, bump_bind] at h
  have hread₁ := hread.bump hs hat
  have hbody : kind == .packageBody → s.advance.kind ≠ .eof := by
    intro hpackage
    rcases hkind with rfl | ⟨-, hnext⟩
    · simp at hpackage
    · exact Stream.ne_eof_of_atWord (Stream.atWord_advance s "body" ▸ hnext)
  obtain ⟨s₂, v₂, hread₂, h⟩ := GivesAt.when bump_gives hs hread₁ hbody h
  obtain ⟨name, s₃, v₃, hread₃, hname, h⟩ := definingName_gives.bind hs hread₂ h
  obtain ⟨-, s₄, v₄, hread₄, -, h⟩ := headerEnd_gives.bind hs hread₃ h
  obtain ⟨declarations, s₅, hdecl, h⟩ := bind_ok.1 h
  obtain ⟨v₅, hread₅, hsection, hspells⟩ := declareSection_reads hr (hread₄.sound hs) hdecl
  have hdefining : name.kind = .definingName := by simpa using hname.kind
  have finish {inner : List Node} {w : List Token} {s₆ : Stream} (hread₆ : s₅.Reads w s₆)
      (hne : w ≠ []) (hinner : Spells w inner)
      (hkinds : Kind.AtMostOne (· == .body) (inner.map Node.kind))
      (h : (lastSpan >>= fun last => pure (Node.mk kind (s₀.peek.span.cover last)
        (name :: declarations :: inner))) s₆ = .ok (n, s')) :
      ∃ v, s₀.Reads (u ++ v) s' ∧ Takes (u ++ v) n ∧ n.kind = kind := by
    have hall := ((((Spells.skips (u ++ [s.peek])).append (Spells.skips v₂)).append
      hname.spells).append (Spells.skips v₄)).append (hspells w inner s₆ hread₆ hne hinner)
    have hread₇ := (hread₄.trans hread₅).trans hread₆
    simp only [List.append_assoc] at hall hread₇
    refine opened_takes hs hread₇ (by simp) hall ?_ ?_ h
    · rcases hkind with rfl | ⟨rfl, -⟩ <;>
        exact ⟨_, by simp [hdefining, hsection], hkinds⟩
    · rcases hkind with rfl | ⟨rfl, -⟩ <;> rfl
  rw [get_bind] at h
  split at h
  · obtain ⟨inner, s₆, hbody, h⟩ := bind_ok.1 h
    obtain ⟨w, hread₆, hw, hne⟩ := body_gives hr (hread₅.sound (hread₄.sound hs)) trivial hbody
    have hkind' : inner.kind = .body := by simpa using hw.kinds
    exact finish hread₆ hne hw.spells ⟨by simp, by simp [hkind']⟩ h
  · obtain ⟨_, s₆, hend, h⟩ := bind_ok.1 h
    obtain ⟨w, hread₆, hne⟩ := unitEnd_gives (hread₅.sound (hread₄.sound hs)) trivial hend
    exact finish hread₆ hne (Spells.skips w) ⟨by simp, by simp⟩ h

theorem typeMember_gives (hr : r.Spell) : (typeMember r).Gives (Phrase Kind.isMember) := by
  rintro s n s' hs - h
  rw [typeMember, ask_bind] at h
  obtain ⟨isConstructor, s₁, hloop, h⟩ := bind_ok.1 h
  have hwords := (loop_extends (fun _ _ => True) ?_ trivial).gives hs trivial hloop
  · obtain ⟨u, hread, -⟩ := hwords
    have member {kind : Kind} (hkind : kind.isRoutine = true) (hmember : kind.isMember = true)
        (h : routine r kind s.peek.span s₁ = .ok (n, s')) :
        ∃ used, s.Reads used s' ∧ Phrase Kind.isMember used n := by
      obtain ⟨v, hread₁, htakes, rfl⟩ := routine_extends hr hkind hs hread h
      exact ⟨_, hread₁, .ofTakes htakes hmember⟩
    rw [get_bind] at h
    rcases ite_run h with ⟨-, h⟩ | ⟨-, h⟩
    · exact member rfl rfl h
    rcases ite_run h with ⟨-, h⟩ | ⟨-, h⟩
    · exact member rfl rfl h
    rcases ite_run h with ⟨-, h⟩ | ⟨-, h⟩
    · exact member rfl rfl h
    · exact absurd h not_unexpected_ok
  · intro u found _ s₀ s next s' hs hread h
    obtain ⟨read, s₁, v, hread₁, -, h⟩ := (eatWord_gives "constructor").bind hs hread h
    split at h
    · obtain ⟨rfl, rfl⟩ := pure_ok.1 h
      exact ⟨v, hread₁, trivial⟩
    rw [get_bind] at h
    split at h
    case isTrue hat =>
      rw [bump_bind] at h
      obtain ⟨rfl, rfl⟩ := pure_ok.1 h
      have hread₂ := hread₁.bump hs (Stream.ne_eof_of_atAnyWord hat)
      rw [List.append_assoc] at hread₂
      exact ⟨_, hread₂, trivial⟩
    case isFalse =>
      obtain ⟨rfl, rfl⟩ := pure_ok.1 h
      exact ⟨v, hread₁, trivial⟩

/-- The body of a type whose text began with the tokens `u`. -/
theorem typeBody_extends (hr : r.Spell) (hs : s₀.Sound) (hread : s₀.Reads u s)
    (hat : s.kind ≠ .eof) (hnext : s.atWordAt 1 "body" = true)
    (h : typeBody r s₀.peek.span s = .ok (n, s')) :
    ∃ v, s₀.Reads (u ++ v) s' ∧ Takes (u ++ v) n ∧ n.kind = .typeBody := by
  rw [typeBody, bump_bind, bump_bind] at h
  rw [← Stream.atWord_advance] at hnext
  have hread₁ := (hread.bump hs hat).bump hs (Stream.ne_eof_of_atWord hnext)
  obtain ⟨name, s₂, v₂, hread₂, hname, h⟩ := definingName_gives.bind hs hread₁ h
  obtain ⟨-, s₃, v₃, hread₃, -, h⟩ := headerEnd_gives.bind hs hread₂ h
  obtain ⟨members, s₄, v₄, hread₄, hmembers, h⟩ :=
    (many_phrases ((typeMember_gives hr).at _)).bind hs hread₃ h
  obtain ⟨-, s₅, v₅, hread₅, -, h⟩ := unitEnd_gives.bind hs hread₄ h
  have hall := ((((Spells.skips (u ++ [s.peek] ++ [s.advance.peek])).append hname.spells).append
    (Spells.skips v₃)).append hmembers.spells).append (Spells.skips v₅)
  simp only [List.append_assoc] at hall hread₅
  have hdefining : name.kind = .definingName := by simpa using hname.kind
  refine opened_takes hs hread₅ (by simp) (by simpa using hall) ?_ rfl h
  exact ⟨_, by simp [hdefining], hmembers.mapKinds⟩

/-- A trigger whose text began with the tokens `u`. -/
theorem trigger_extends (hr : r.Spell) (hs : s₀.Sound) (hread : s₀.Reads u s)
    (hat : s.kind ≠ .eof) (h : trigger r s₀.peek.span s = .ok (n, s')) :
    ∃ v, s₀.Reads (u ++ v) s' ∧ Takes (u ++ v) n ∧ n.kind = .trigger := by
  rw [trigger, bump_bind] at h
  have hread₁ := hread.bump hs hat
  obtain ⟨name, s₂, v₂, hread₂, hname, h⟩ := definingName_gives.bind hs hread₁ h
  obtain ⟨-, s₃, v₃, hread₃, -, h⟩ := (skipUntil_gives _).bind hs hread₂ h
  have hdefining : name.kind = .definingName := by simpa using hname.kind
  have finish {inner : List Node} {w : List Token} {s₄ : Stream}
      (hread₄ : s₀.Reads (u ++ [s.peek] ++ v₂ ++ v₃ ++ w) s₄)
      (hinner : Phrases (· == .anonymousBlock) w inner) (hlength : inner.length ≤ 1)
      (h : (lastSpan >>= fun last => pure (Node.mk .trigger (s₀.peek.span.cover last)
        (name :: inner))) s₄ = .ok (n, s')) :
      ∃ v, s₀.Reads (u ++ v) s' ∧ Takes (u ++ v) n ∧ n.kind = .trigger := by
    have hall := (((Spells.skips (u ++ [s.peek])).append hname.spells).append
      (Spells.skips v₃)).append hinner.spells
    simp only [List.append_assoc] at hall hread₄
    refine opened_takes hs hread₄ (by simp) (by simpa using hall) ?_ rfl h
    exact ⟨_, by simp [hdefining], hinner.atMostOne hlength⟩
  rw [get_bind, get_bind] at h
  rcases ite_run h with ⟨-, h⟩ | ⟨-, h⟩
  · rw [modify_bind] at h
    obtain ⟨w, hskip⟩ := Stream.reads_advanceUntil Stream.atTerminator s₃
    exact finish (hread₃.trans hskip) (.none w) (by simp) h
  obtain ⟨inner, s₄, w, hread₄, ⟨hinner, hlength⟩, h⟩ :=
    when_phrase (block_gives hr) hs hread₃ (fun _ => trivial) h
  exact finish hread₄ hinner hlength h

theorem create_gives (hr : r.Spell) :
    (create r).GivesAt (·.kind ≠ .eof) fun used n => Phrases Kind.isUnit used n.toList := by
  rintro s n s' hs hat h
  rw [create, bump_bind] at h
  have hread := Stream.reads_advance hs hat
  obtain ⟨read, s₁, v₁, hread₁, -, h⟩ := (eatWord_gives "or").bind hs hread h
  obtain ⟨s₂, v₂, hread₂, h⟩ :=
    GivesAt.when (expectWord_gives "replace") hs hread₁ (fun _ => trivial) h
  beta_reduce at h
  rw [modify_bind, get_bind] at h
  obtain ⟨v₃, hskip⟩ := Stream.reads_advanceUntil
    (fun s => !s.atAnyWord ["editionable", "noneditionable"]) s₂
  generalize s₂.advanceUntil (fun s => !s.atAnyWord ["editionable", "noneditionable"]) = s₃
    at h hskip
  have hread₃ := hread₂.trans hskip
  have found (kind : Kind) {p : Parser Node} (hkind : kind.isUnit = true)
      (hp : ∀ m s₄, p s₃ = .ok (m, s₄) → ∃ v, s.Reads ([s.peek] ++ v₁ ++ v₂ ++ v₃ ++ v) s₄ ∧
        Takes ([s.peek] ++ v₁ ++ v₂ ++ v₃ ++ v) m ∧ m.kind = kind)
      (h : (p >>= fun m => pure (some m)) s₃ = .ok (n, s')) :
      ∃ used, s.Reads used s' ∧ Phrases Kind.isUnit used n.toList := by
    obtain ⟨m, s₄, hm, h⟩ := bind_ok.1 h
    obtain ⟨v, hread₄, htakes, rfl⟩ := hp m s₄ hm
    obtain ⟨rfl, rfl⟩ := pure_ok.1 h
    exact ⟨_, hread₄, .one (.ofTakes htakes hkind)⟩
  rcases ite_run h with ⟨-, h⟩ | ⟨-, h⟩
  · exact found .createProcedure rfl (fun m s₄ hm => routine_extends hr rfl hs hread₃ hm) h
  rcases ite_run h with ⟨-, h⟩ | ⟨-, h⟩
  · exact found .createFunction rfl (fun m s₄ hm => routine_extends hr rfl hs hread₃ hm) h
  rcases ite_run h with ⟨hpackage, h⟩ | ⟨-, h⟩
  · have hend := Stream.ne_eof_of_atWord hpackage
    by_cases hbody : s₃.atWordAt 1 "body" = true
    · rw [if_pos hbody] at h
      exact found .packageBody rfl
        (fun m s₄ hm => package_extends hr (.inr ⟨rfl, hbody⟩) hs hread₃ hend hm) h
    · rw [if_neg hbody] at h
      exact found .packageSpec rfl
        (fun m s₄ hm => package_extends hr (.inl rfl) hs hread₃ hend hm) h
  rcases ite_run h with ⟨htype, h⟩ | ⟨-, h⟩
  · rw [Bool.and_eq_true] at htype
    exact found .typeBody rfl (fun m s₄ hm => typeBody_extends hr hs hread₃
      (Stream.ne_eof_of_atWord htype.1) htype.2 hm) h
  rcases ite_run h with ⟨htrigger, h⟩ | ⟨-, h⟩
  · exact found .trigger rfl (fun m s₄ hm => trigger_extends hr hs hread₃
      (Stream.ne_eof_of_atWord htrigger) hm) h
  · rw [modify_bind] at h
    obtain ⟨rfl, rfl⟩ := pure_ok.1 h
    obtain ⟨w, hskip⟩ := Stream.reads_skipStatement s₃
    exact ⟨_, hread₃.trans hskip, .none _⟩

theorem programUnit_gives (hr : r.Spell) :
    (programUnit r).Gives fun used n => Phrases Kind.isUnit used n.toList := by
  rintro s n s' hs - h
  rw [programUnit, get_bind] at h
  rcases ite_run h with ⟨hmark, h⟩ | ⟨-, h⟩
  · have hat : s.kind ≠ .eof := by
      rw [Bool.or_eq_true] at hmark
      rcases hmark with hmark | hmark <;> simp [Stream.kind_of_atKind hmark]
    rw [bump_bind] at h
    obtain ⟨rfl, rfl⟩ := pure_ok.1 h
    exact ⟨_, Stream.reads_advance hs hat, .none _⟩
  rcases ite_run h with ⟨hcreate, h⟩ | ⟨-, h⟩
  · exact create_gives hr hs (Stream.ne_eof_of_atWord hcreate) h
  rcases ite_run h with ⟨-, h⟩ | ⟨-, h⟩
  · obtain ⟨m, s₁, v, hread, hm, h⟩ := (block_gives hr).first hs h
    obtain ⟨rfl, rfl⟩ := pure_ok.1 h
    exact ⟨v, hread, .one (hm.mono (by simp +contextual [Kind.isUnit]))⟩
  rcases ite_run h with ⟨-, h⟩ | ⟨-, h⟩
  · rw [modify_bind] at h
    obtain ⟨rfl, rfl⟩ := pure_ok.1 h
    obtain ⟨v, hread⟩ := Stream.reads_advanceUntil
      (fun t => t.peek.span.line != s.peek.span.line) s
    exact ⟨v, hread, .none v⟩
  · rw [modify_bind] at h
    obtain ⟨rfl, rfl⟩ := pure_ok.1 h
    obtain ⟨v, hread⟩ := Stream.reads_skipStatement s
    exact ⟨v, hread, .none v⟩

/-! ### Phrases inside phrases, and whole programs -/

/-- The rules are sound at every depth. -/
theorem rules_spell (depth : Nat) : (rules depth).Spell := by
  induction depth with
  | zero =>
    exact ⟨fun _ _ _ _ _ h => absurd h not_throw_ok, fun _ _ _ _ _ h => absurd h not_throw_ok,
      fun _ _ _ _ _ h => absurd h not_throw_ok, fun _ _ _ _ _ h => absurd h not_throw_ok,
      fun _ _ _ _ _ h => absurd h not_throw_ok⟩
  | succ depth ih =>
    exact ⟨expression_gives ih, negation_gives ih, signed_gives ih, statement_gives ih,
      declaration_gives ih⟩

theorem program_gives (depth : Nat) : (program depth).Gives (Phrases Kind.isUnit) := by
  rintro s ns s' hs - h
  obtain ⟨units, s₁, u, hread, hunits, h⟩ :=
    (many_filterMap_phrases ((programUnit_gives (rules_spell (depth + 1))).at _)).first hs h
  obtain ⟨rfl, rfl⟩ := pure_ok.1 h
  exact ⟨u, hread, hunits⟩

end Grammar

/-- A text that parses has tokens, and its tree has the units that were read from them. -/
theorem program_run_of_parse {source : String} {t : Tree} (h : parse source = .ok t) :
    ∃ tokens s, tokenize source = .ok tokens ∧
      (Grammar.program tokens.tokens.length).run (Stream.start source tokens) =
        .ok (t.root.children, s) ∧
      t.source = source ∧ t.root.kind = .compilationUnit := by
  rw [parse] at h
  cases htokens : tokenize source with
  | error e => simp [htokens, bind, Except.bind] at h
  | ok tokens =>
    simp only [htokens, bind, Except.bind] at h
    cases hunits : (Grammar.program tokens.tokens.length).run (Stream.start source tokens) with
    | error e => simp [hunits] at h
    | ok result =>
      obtain ⟨units, s⟩ := result
      simp only [hunits] at h
      obtain rfl := Except.ok.inj h
      exact ⟨tokens, s, rfl, hunits, rfl, rfl⟩

/-- The tokens of a text that parses spell the units of its tree. -/
theorem parse_spells {source : String} {t : Tree} (h : parse source = .ok t) :
    t.source = source ∧ t.root.kind = .compilationUnit ∧
      ∃ tokens, tokenize source = .ok tokens ∧
        Phrases Kind.isUnit tokens.tokens t.root.children := by
  obtain ⟨tokens, s', htokens, hunits, hsource, hkind⟩ := program_run_of_parse h
  obtain ⟨used, hread, hphrases⟩ :=
    Grammar.program_gives tokens.tokens.length (Stream.sound_start htokens) trivial hunits
  have hrest : tokens.tokens = used ++ s'.rest := hread.rest
  refine ⟨hsource, hkind, tokens, htokens, ?_⟩
  rw [hrest]
  exact hphrases.skip s'.rest

/-- Every node below the root of a tree that was read fits the tokens it takes. -/
theorem Tree.spelled_of_parse {source : String} {t : Tree} {p : Place}
    (h : parse source = .ok t) (hp : p ∈ t.top.descendants) :
    ∃ tokens, tokenize source = .ok tokens ∧ Spelled tokens.tokens p.node := by
  obtain ⟨-, -, tokens, htokens, hphrases⟩ := parse_spells h
  have hspells : Spells tokens.tokens t.top.node.children := hphrases.spells
  exact ⟨tokens, htokens, hspells.spelled hp⟩

/-- Every node of a tree that was read follows the layout of its kind. -/
theorem Tree.laidOut_of_parse {source : String} {t : Tree} (h : parse source = .ok t) :
    t.LaidOut := by
  intro p hp
  rw [Place.map_kind_children]
  rcases mem_places.1 hp with rfl | hp
  · obtain ⟨-, hkind, tokens, -, hphrases⟩ := parse_spells h
    have htop : t.top.kind = .compilationUnit := hkind
    rw [htop]
    exact hphrases.mapKinds
  · obtain ⟨tokens, -, hspelled⟩ := spelled_of_parse h hp
    exact hspelled.layout

/-- A span of tokens starts at a lexeme, and covers it and what follows up to the
end of another one. -/
theorem Spans.covers {source : String} {tokens : TokenSequence} {us : List Token} {span : Span}
    (h : Spans us span) (hsub : us <:+: tokens.tokens) (htokens : tokenize source = .ok tokens) :
    ∃ before lexeme after, Lexeme.lexemes source.toList = (before ++ lexeme :: after, none) ∧
      (∃ first, us.head? = some first ∧ lexeme.kind = .token first.kind) ∧
      ∃ more rest, span.Covers source (Lexeme.join before) (lexeme.text ++ more) rest := by
  obtain ⟨list, hlexemes, hlist, -⟩ := tokenize_spec htokens
  obtain ⟨first, hhead, hoffset, hline, hcolumn⟩ := h.begins
  obtain ⟨last, hlast, hstop⟩ := h.stops
  have hordered : Ordered us := by
    have hall := Lexeme.ordered_tokensFrom list .start
    rw [← hlist] at hall
    exact hall.sublist hsub.sublist
  have hle := hordered.stop_le (List.mem_of_mem_head? hhead) hlast
  rw [hlist] at hsub
  obtain ⟨b₁, l₁, a₁, rfl, hkind, -, hfirst⟩ :=
    token_covers hlexemes (hsub.subset (List.mem_of_mem_head? hhead))
  obtain ⟨b₂, l₂, a₂, -, -, -, hlastCovers⟩ :=
    token_covers hlexemes (hsub.subset (List.mem_of_getLast? hlast))
  have hpre : Lexeme.join b₁ ++ l₁.text <+: Lexeme.join b₂ ++ l₂.text := by
    refine isPrefix_of_utf8Len_le ⟨_, hfirst.text.symm⟩ ⟨_, hlastCovers.text.symm⟩ ?_
    rw [String.utf8Len_append, String.utf8Len_append, ← hfirst.stop_eq, ← hlastCovers.stop_eq]
    exact hle
  obtain ⟨more, hmore⟩ := hpre
  refine ⟨b₁, l₁, a₁, hlexemes, ⟨first, hhead, hkind⟩, more, Lexeme.join a₂, ?_, ?_, ?_, ?_, ?_⟩
  · rw [hlastCovers.text, ← hmore, List.append_assoc (Lexeme.join b₁)]
  · rw [hoffset, hfirst.offset]
  · have hsize := congrArg String.utf8Len hmore
    have hstop' := hlastCovers.stop_eq
    simp only [String.utf8Len_append] at hsize
    rw [← hstop, Span.stop, hoffset, hfirst.offset, String.utf8ByteSize_ofList] at hstop'
    rw [String.utf8ByteSize_ofList, String.utf8Len_append]
    omega
  · rw [hline, hfirst.line]
  · rw [hcolumn, hfirst.column]

/-- A node covers a piece of the text. -/
theorem Spelled.covers {source : String} {list : TokenSequence} {n : Node}
    (h : Spelled list.tokens n) (hlist : tokenize source = .ok list) :
    ∃ before middle after, n.span.Covers source before middle after := by
  rcases h with ⟨us, hus, htakes⟩ | ⟨token, htoken, rfl⟩
  · obtain ⟨before, lexeme, -, -, -, more, rest, hcovers⟩ := htakes.fits.spans.covers hus hlist
    exact ⟨_, _, _, hcovers⟩
  · obtain ⟨lexemes, hlexemes, htokens, -⟩ := tokenize_spec hlist
    obtain ⟨before, lexeme, after, -, -, -, hcovers⟩ := token_covers hlexemes (htokens ▸ htoken)
    refine ⟨Lexeme.join before, [], lexeme.text ++ Lexeme.join after, ?_, hcovers.offset, rfl,
      hcovers.line, hcovers.column⟩
    rw [hcovers.text]
    simp

end PlsqlAudit
