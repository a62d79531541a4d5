import PlsqlAudit.Arena.Program
import PlsqlAudit.Proofs.BuiltStatements

/-!
# Programs are built as they are read

The readers for phrases inside phrases build what the rules read, at every depth, and so
do the readers for units.  A program is read into an arena whenever it is read into a tree
(`Arena.exists_grown_of_parse`), and the two fail with the same error (`Arena.parse_error_iff`).
-/

namespace PlsqlAudit

namespace Build

open PlsqlAudit.Parser

variable {r : Rules} {a : Builders} {b b₀ b₁ b₂ : Builder} {node parent : NodeId}

/-! ### Units -/

/-- A package hangs one node under its parent: its name, its declarations, and the body that may
stand behind them. -/
theorem package_fills (h : RulesBuild r a) (kind : Kind) (start : Span) :
    Fills parent (fun n => [n]) (Grammar.package r kind start) (package a kind start parent) := by
  intro b
  refine .addChild fun node b₁ hopen => .read fun _ => ?_
  extract_lets rest closing' rest'
  have hrest : Follows b₁ (fun n _ b' => b.Filled parent [n] b') (rest ()) (rest' ()) := by
    refine .fill definingName_fills (.refl b₁ node) fun name b₂ h₂ => .read fun _ => ?_
    refine .fill (declareSection_fills h) h₂ fun declarations b₃ h₃ => .read fun s => ?_
    extract_lets closing
    have hclosing (inner : List Node) (b₄ : Builder)
        (h₄ : b₁.Filled node ([name, declarations] ++ inner) b₄) :
        Follows b₄ (fun n _ b' => b.Filled parent [n] b') (closing inner) (closing' ()) :=
      .read fun last => .closed (h₄.graft hopen) rfl
    refine .ite (fun _ => ?_) fun _ => .read fun _ => hclosing [] b₃ h₃
    exact .fill (body_fills h) h₃ fun inner b₄ h₄ => hclosing [inner] b₄ h₄
  exact .ite (fun _ => .read fun _ => hrest) fun _ => hrest

/-- A member of a type hangs one routine under its parent, of the kind that the words in front of
it say. -/
theorem typeMember_fills (h : RulesBuild r a) :
    Fills parent (fun n => [n]) (Grammar.typeMember r) (typeMember a parent) := by
  intro b
  refine .read fun start => .read fun isConstructor => .read fun s => ?_
  refine .ite (fun _ => routine_fills h _ _ b) fun _ => ?_
  refine .ite (fun _ => routine_fills h _ _ b) fun _ => ?_
  exact .ite (fun _ => routine_fills h _ _ b) fun _ => .unexpected _

/-- The body of a type hangs one node under its parent, with its members behind its name. -/
theorem typeBody_fills (h : RulesBuild r a) (start : Span) :
    Fills parent (fun n => [n]) (Grammar.typeBody r start) (typeBody a start parent) := by
  intro b
  refine .addChild fun node b₁ hopen => .read fun _ => .read fun _ => ?_
  refine .fill definingName_fills (.refl b₁ node) fun name b₂ h₂ => .read fun _ => ?_
  refine (Follows.each _ (typeMember_fills h)).bind fun members _ b₃ h₃ => .read fun _ => ?_
  refine .read fun last => .closed ((h₂.trans h₃.2).graft hopen) ?_
  simp

/-- A trigger hangs one node under its parent, with a block below it unless it is compound or has
none. -/
theorem trigger_fills (h : RulesBuild r a) (start : Span) :
    Fills parent (fun n => [n]) (Grammar.trigger r start) (trigger a start parent) := by
  intro b
  refine .addChild fun node b₁ hopen => .read fun _ => ?_
  refine .fill definingName_fills (.refl b₁ node) fun name b₂ h₂ => .read fun _ => .read fun s => ?_
  extract_lets rest rest'
  have hrest (inner : List Node) (b₃ : Builder) (h₃ : b₁.Filled node (name :: inner) b₃) :
      Follows b₃ (fun n _ b' => b.Filled parent [n] b') (rest inner) (rest' ()) :=
    .read fun last => .closed (h₃.graft hopen) rfl
  by_cases hcompound : s.atWord "compound" = true
  · simp only [if_pos hcompound]
    exact .look fun _ => .read fun _ => hrest [] b₂ h₂
  · simp only [if_neg hcompound]
    refine .read fun s => .ite (fun _ => ?_) fun _ => hrest [] b₂ h₂
    exact .fill (block_fills h) h₂ fun inner b₃ h₃ => hrest [inner] b₃ h₃

/-- What is created hangs one node under its parent, or none where it is not analysed and only
passed over. -/
theorem create_fills (h : RulesBuild r a) :
    Fills parent Option.toList (Grammar.create r) (create a parent) := by
  intro b
  refine .read fun start => .read fun _ => ?_
  extract_lets rest rest'
  have hrest : Follows b (fun n _ b' => b.Filled parent n.toList b') (rest ()) (rest' ()) := by
    refine .read fun _ => .read fun s => ?_
    refine .ite (fun _ => (routine_fills h _ _).some b) fun _ => ?_
    refine .ite (fun _ => (routine_fills h _ _).some b) fun _ => ?_
    refine .ite (fun _ => (package_fills h _ _).some b) fun _ => ?_
    refine .ite (fun _ => (typeBody_fills h _).some b) fun _ => ?_
    exact .ite (fun _ => (trigger_fills h _).some b) fun _ => Fills.none _ b
  exact .ite (fun _ => .read fun _ => hrest) fun _ => hrest

/-- A unit of a program hangs one node under its parent. Slashes, semicolons and all that is not
analysed are passed over and hang none. -/
theorem programUnit_fills (h : RulesBuild r a) :
    Fills parent Option.toList (Grammar.programUnit r) (programUnit a parent) := by
  intro b
  refine .read fun s => .ite (fun _ => .read fun _ => .pure (.refl b parent)) fun _ => ?_
  refine .ite (fun _ => create_fills h b) fun _ => ?_
  refine .ite (fun _ => (block_fills h).some b) fun _ => ?_
  exact .ite (fun _ => Fills.none _ b) fun _ => Fills.none _ b

/-! ### Programs -/

/-- The readers for phrases inside phrases build what the rules read. -/
theorem rulesBuild (depth : Nat) : RulesBuild (Grammar.rules depth) (builders depth) := by
  induction depth with
  | zero =>
    exact ⟨fun _ => .throw _, fun _ => .throw _, fun _ => .throw _, fun _ _ => .throw _,
      fun _ _ => .throw _⟩
  | succ depth ih =>
    exact ⟨expression_builds ih, negation_builds ih, signed_builds ih, fun _ => statement_fills ih,
      fun _ => declaration_fills ih⟩

/-- The units of a program are put below a root that is made before anything is read. -/
theorem program_follows (source : String) (depth : Nat) (b : Builder) :
    Follows b (fun units root b' => b.Grown none
        [.mk .compilationUnit ⟨0, source.utf8ByteSize, 1, 1⟩ units] [root] b')
      (Grammar.program depth) (program source depth) := by
  refine .add fun root b₁ hopen => ?_
  refine (Follows.each _ (programUnit_fills (rulesBuild _))).bind fun units _ b₂ h₂ => .pure ?_
  rw [List.filterMap_eq_flatMap_toList]
  exact h₂.2.graft hopen

end Build

namespace Arena

variable {source : String} {t : Tree} {e : ParseError}

/-- A text that is read into a tree is read into an arena, in which that tree has grown and
nothing else. -/
theorem exists_grown_of_parse (h : PlsqlAudit.parse source = .ok t) :
    ∃ root b, parse source = .ok (b.finish root) ∧
      (Builder.empty source).Grown none [t.root] [root] b := by
  rw [PlsqlAudit.parse] at h
  cases htokens : tokenize source with
  | error e => simp [htokens, bind, Except.bind] at h
  | ok tokens =>
    simp only [htokens, bind, Except.bind] at h
    cases hunits : (Grammar.program tokens.tokens.length).run (Stream.start source tokens) with
    | error e => simp [hunits] at h
    | ok result =>
      obtain ⟨units, s⟩ := result
      simp only [hunits] at h
      obtain rfl := Except.ok.inj h
      obtain ⟨root, b, hbuild, -, hgrown⟩ := (Build.program_follows source tokens.tokens.length
        (Builder.empty source) (Stream.start source tokens)).2 units s hunits
      refine ⟨root, b, ?_, hgrown⟩
      simp only [parse, htokens, hbuild, bind, Except.bind]
      rfl

/-- A text that is not read into a tree is not read into an arena, for the same reason. -/
theorem parse_eq_error (h : PlsqlAudit.parse source = .error e) : parse source = .error e := by
  rw [PlsqlAudit.parse] at h
  cases htokens : tokenize source with
  | error e' =>
    simp only [htokens, bind, Except.bind] at h
    simp only [parse, htokens, bind, Except.bind]
    exact congrArg _ (Except.error.inj h)
  | ok tokens =>
    simp only [htokens, bind, Except.bind] at h
    cases hunits : (Grammar.program tokens.tokens.length).run (Stream.start source tokens) with
    | error e' =>
      simp only [hunits] at h
      obtain rfl := Except.error.inj h
      have hbuild := (Build.program_follows source tokens.tokens.length (Builder.empty source)
        (Stream.start source tokens)).1 e' hunits
      simp only [parse, htokens, hbuild, bind, Except.bind]
    | ok result => simp [hunits, pure, Except.pure] at h

/-- Texts are read into arenas and into trees with the same errors. -/
theorem parse_error_iff : parse source = .error e ↔ PlsqlAudit.parse source = .error e := by
  constructor
  · intro h
    cases htree : PlsqlAudit.parse source with
    | error e' =>
      rw [parse_eq_error htree] at h
      exact congrArg _ (Except.error.inj h)
    | ok t =>
      obtain ⟨root, b, hparse, -⟩ := exists_grown_of_parse htree
      rw [h] at hparse
      cases hparse
  · exact parse_eq_error

end Arena

end PlsqlAudit
