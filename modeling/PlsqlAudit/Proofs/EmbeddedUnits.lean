import PlsqlAudit.Grammar.Program
import PlsqlAudit.Proofs.EmbeddedStatements

/-!
# Units in a longer text

A unit of a program is closed: it does the same in a longer text even where it
uses up its own, since the slash that follows ends whatever is skipped there.  A
unit reads at least one token.

The rules for phrases inside phrases do the same in a longer text (`rules_follow`),
which has more tokens and so unrolls them further.
-/

namespace PlsqlAudit

open PlsqlAudit.Grammar PlsqlAudit.Parser

namespace Stream

variable {s : Stream}

/-- Reading on reads something, unless it stops at once. -/
theorem reads_advanceUntil_of_not (stop : Stream → Bool) (hs : s.Sound) (hkind : s.kind ≠ .eof)
    (hstop : stop s = false) : ∃ used, used ≠ [] ∧ s.Reads used (s.advanceUntil stop) := by
  obtain ⟨source, last, tokens, eof⟩ := s
  cases tokens with
  | nil => exact absurd hs.ends hkind
  | cons token rest =>
    obtain ⟨used, hused⟩ := reads_advanceFrom stop source eof (some token) rest
    refine ⟨token :: used, by simp, ?_⟩
    rw [advanceUntil, advanceFrom, hstop]
    exact reads_cons hused

/-- Skipping a statement reads something, unless it begins with a slash. -/
theorem reads_skipStatement_of_not (hs : s.Sound) (hkind : s.kind ≠ .eof)
    (hslash : s.kind ≠ .slash) : ∃ used, used ≠ [] ∧ s.Reads used s.skipStatement := by
  have hterminator : s.atTerminator = false := by simp [atTerminator, atKind, hslash]
  obtain ⟨source, last, tokens, eof⟩ := s
  cases tokens with
  | nil => exact absurd hs.ends hkind
  | cons token rest =>
    rw [skipStatement, skipStatementFrom, hterminator]
    simp only [Bool.and_false, Bool.false_eq_true, if_false]
    split
    · exact ⟨[token], by simp, reads_cons (Reads.refl _)⟩
    · obtain ⟨used, hused⟩ :=
        reads_skipStatementFrom source eof (depthAfter 0 token.kind) (some token) rest
      exact ⟨token :: used, by simp, reads_cons hused⟩

end Stream

namespace Embedding

variable {E : Embedding} {depth : Nat} {r r' : Rules} {s : Stream}

/-! ### Packages and type bodies -/

theorem headerEnd_follows (hs : E.Inner s) :
    E.Follows false 0 s (headerEnd s) (headerEnd (E.lift s)) := by
  refine .bind (skipUntil_follows hs fun u hu _ => atAnyWord_lift hu _) fun _ s₁ hs₁ _ => ?_
  refine .branch (atAnyWord_lift hs₁ _) (fun _ => ?_) fun _ => unexpected_follows hs₁ _
  exact .bind (bump_follows_of_any hs₁) fun _ s₂ hs₂ _ => .pure hs₂ (by simp)

theorem unitEnd_follows (hs : E.Inner s) :
    E.Follows true 1 s (unitEnd s) (unitEnd (E.lift s)) := by
  refine .bind (expectWord_follows hs "end") fun _ s₁ hs₁ _ => ?_
  refine .bind (eatEndLabel_follows hs₁) fun _ s₂ hs₂ _ => ?_
  refine .bind (eat_follows hs₂ .semicolon rfl) fun _ s₃ hs₃ _ => ?_
  exact .pure hs₃ (by simp)

theorem package_follows (hr : E.RulesFollow depth r r') (hs : E.Inner s)
    (hlen : s.rest.length ≤ depth) (hkind : s.kind ≠ .eof) (kind : Kind) (start : Span) :
    E.Follows true 2 s (package r kind start s) (package r' kind (E.move start) (E.lift s)) := by
  refine .bind (bump_follows hs hkind) fun _ s₁ hs₁ hlen₁ => ?_
  refine .when hs₁ rfl (fun _ => bump_follows_of_any hs₁) fun s₂ hs₂ hlen₂ => ?_
  refine .bind (definingName_follows hs₂).uncounted fun name s₃ hs₃ hlen₃ => ?_
  refine .bind (headerEnd_follows hs₃) fun _ s₄ hs₄ hlen₄ => ?_
  refine .bind (declareSection_follows hr hs₄ (by omega)) fun declarations s₅ hs₅ hlen₅ => ?_
  extract_lets rest rest'
  have hrest (inner : List Node) (u : Stream) (hu : E.Inner u) :
      E.Follows true 0 u (rest inner u) (rest' (E.move inner) (E.lift u)) :=
    .bind (lastSpan_follows hu) fun last u₁ hu₁ _ => .pure hu₁ (by simp)
  refine .branch (atWord_lift hs₅ "begin") (fun _ => ?_) fun _ => ?_
  · exact .bind (body_follows hr hs₅ (by omega)) fun inner s₆ hs₆ _ => hrest [inner] s₆ hs₆
  · exact .bind (unitEnd_follows hs₅) fun _ s₆ hs₆ _ => hrest [] s₆ hs₆

/-- One round of reading the words before a member of a type. -/
def modifierStep (isConstructor : Bool) : Parser (Option Bool) := do
  if ← eatWord "constructor" then return some true
  else if (← get).atAnyWord memberModifiers then
    let _ ← bump
    return some isConstructor
  else return none

theorem typeMember_eq_loop (r : Rules) :
    typeMember r = (do
      let start ← ask (·.peek.span)
      let isConstructor ← loop modifierStep false
      let s ← get
      if isConstructor then routine r .constructor start
      else if s.atWord "procedure" then routine r .memberProcedure start
      else if s.atWord "function" then routine r .memberFunction start
      else unexpected "type body member") := rfl

theorem modifierStep_goes {limit : Nat} : E.Goes limit modifierStep := by
  intro isConstructor s next s₁ hs _ h
  obtain ⟨read, s₂, hread, h⟩ := bind_ok.1 h
  cases read with
  | true =>
    obtain ⟨-, rfl⟩ := pure_ok.1 h
    have hword := length_of_eatWord hs hread
    omega
  | false =>
    obtain ⟨hs₂, hle, -⟩ := (eatWord_follows hs "constructor").ok false s₂ hread
    have hrun : (if s₂.atAnyWord memberModifiers then do
        let _ ← bump
        return some isConstructor
      else return none : Parser (Option Bool)) s₂ = .ok (some next, s₁) := h
    split at hrun
    case isTrue hat =>
      rw [bump_bind] at hrun
      obtain ⟨-, rfl⟩ := pure_ok.1 hrun
      have hadvance := hs₂.length_advance (Stream.ne_eof_of_atAnyWord hat)
      omega
    case isFalse => cases (pure_ok.1 hrun).1

theorem typeMember_follows (hr : E.RulesFollow depth r r') (hs : E.Inner s)
    (hlen : s.rest.length ≤ depth) :
    E.Follows false 1 s (typeMember r s) (typeMember r' (E.lift s)) := by
  rw [typeMember_eq_loop, typeMember_eq_loop]
  refine .bind (peekSpan_follows hs) fun start s₁ hs₁ hlen₁ => ?_
  refine .bind (loop_follows false (fun isConstructor u hu _ => ?_) modifierStep_goes false hs₁
    (Nat.le_refl _)) fun isConstructor s₂ hs₂ hlen₂ => ?_
  · refine .bind (eatWord_follows hu "constructor") fun read u₁ hu₁ _ => ?_
    refine .branch rfl (fun _ => .pure hu₁ (by simp)) fun _ => ?_
    refine .branch (atAnyWord_lift hu₁ _) (fun _ => ?_) fun _ => .pure hu₁ (by simp)
    exact .bind (bump_follows_of_any hu₁) fun _ u₂ hu₂ _ => .pure hu₂ (by simp)
  have hroutine (kind : Kind) :=
    (routine_follows hr hs₂ (by omega) kind start).mono (n := 1) (c := false) (by omega) (by simp)
  refine .branch rfl (fun _ => hroutine _) fun _ => ?_
  refine .branch (atWord_lift hs₂ _) (fun _ => hroutine _) fun _ => ?_
  refine .branch (atWord_lift hs₂ _) (fun _ => hroutine _) fun _ => ?_
  exact unexpected_follows hs₂ _

theorem typeBody_follows (hr : E.RulesFollow depth r r') (hs : E.Inner s)
    (hlen : s.rest.length ≤ depth) (hkind : s.kind ≠ .eof) (start : Span) :
    E.Follows true 2 s (typeBody r start s) (typeBody r' (E.move start) (E.lift s)) := by
  refine .bind (bump_follows hs hkind) fun _ s₁ hs₁ hlen₁ => ?_
  refine .bind (bump_follows_of_any hs₁) fun _ s₂ hs₂ hlen₂ => ?_
  refine .bind (definingName_follows hs₂).uncounted fun name s₃ hs₃ hlen₃ => ?_
  refine .bind (headerEnd_follows hs₃) fun _ s₄ hs₄ hlen₄ => ?_
  have hmember (u : Stream) (hu : E.Inner u) (hle : u.rest.length ≤ s₄.rest.length)
      (_ : (!u.atEnd && !u.atWord "end") = true) := typeMember_follows hr hu (by omega)
  refine .bind (many_follows (fun u hu hopen => ?_) hmember hs₄ (Nat.le_refl _))
    fun members s₅ hs₅ _ => ?_
  · rw [atEnd_lift hopen, atWord_lift hu]
  refine .bind (unitEnd_follows hs₅) fun _ s₆ hs₆ _ => ?_
  refine .bind (lastSpan_follows hs₆) fun last s₇ hs₇ _ => ?_
  exact .pure hs₇ (by simp)

/-! ### Triggers -/

/-- A trigger that is skipped to its end stops at the slash that follows. -/
theorem trigger_follows (hr : E.RulesFollow depth r r') (hs : E.Inner s)
    (hlen : s.rest.length ≤ depth) (hkind : s.kind ≠ .eof) (start : Span) :
    E.Follows true 2 s (trigger r start s) (trigger r' (E.move start) (E.lift s)) := by
  refine .bind (bump_follows hs hkind) fun _ s₁ hs₁ hlen₁ => ?_
  refine .bind (definingName_follows hs₁) fun name s₂ hs₂ hlen₂ => ?_
  extract_lets rest rest'
  have hrest (inner : List Node) (u : Stream) (hu : E.Inner u) :
      E.Follows true 0 u (rest inner u) (rest' (E.move inner) (E.lift u)) :=
    .bind (lastSpan_follows hu) fun last u₁ hu₁ _ => .pure hu₁ (by simp)
  have hheader : E.Follows true 0 s₂
      (skipUntil (fun s => s.atAnyWord ["declare", "begin", "compound"] || s.atTerminator) s₂)
      (skipUntil (fun s => s.atAnyWord ["declare", "begin", "compound"] || s.atTerminator)
        (E.lift s₂)) := by
    refine modify_follows true hs₂ (Stream.reads_skipUntil _ s₂) fun _ => ?_
    refine skipUntil_lift_of_slash (fun u hu hopen => ?_) (fun u hu hopen => ?_) hs₂
    · rw [atAnyWord_lift hu, atTerminator_lift hu hopen]
    · rw [atTerminator_lift_of_not_open hu hopen, Bool.or_true]
  refine .bind hheader fun _ s₃ hs₃ hlen₃ => ?_
  refine .branch (atWord_lift hs₃ "compound") (fun _ => ?_) fun _ => ?_
  · have hsections : E.Follows true 0 s₃
        ((modify (·.advanceUntil Stream.atTerminator) : Parser Unit) s₃)
        ((modify (·.advanceUntil Stream.atTerminator) : Parser Unit) (E.lift s₃)) :=
      modify_follows true hs₃ (Stream.reads_advanceUntil _ s₃) fun _ =>
        advanceUntil_lift (fun u hu => atTerminator_lift hu)
          (fun u hu => atTerminator_lift_of_not_open hu) hs₃
    exact .bind hsections fun _ s₄ hs₄ _ => hrest [] s₄ hs₄
  refine .branch (atAnyWord_lift hs₃ _) (fun _ => ?_) fun _ => hrest [] s₃ hs₃
  exact .bind (block_follows hr hs₃ (by omega)) fun inner s₄ hs₄ _ => hrest [inner] s₄ hs₄

/-! ### All units -/

theorem create_follows (hr : E.RulesFollow depth r r') (hs : E.Inner s)
    (hlen : s.rest.length ≤ depth) (hkind : s.kind ≠ .eof) :
    E.Follows true 1 s (create r s) (create r' (E.lift s)) := by
  refine .bind (bump_follows hs hkind) fun start s₁ hs₁ hlen₁ => ?_
  refine .bind (eatWord_follows hs₁ "or") fun read s₂ hs₂ hlen₂ => ?_
  refine .when hs₂ rfl (fun _ => expectWord_follows hs₂ "replace") fun s₃ hs₃ hlen₃ => ?_
  refine .bind (advanceWords_follows hs₃ _) fun _ s₄ hs₄ hlen₄ => ?_
  have hroutine (kind : Kind) : E.Follows true 0 s₄
      ((do return some (← routine r kind start.span) : Parser (Option Node)) s₄)
      ((do return some (← routine r' kind (E.move start).span) : Parser (Option Node))
        (E.lift s₄)) :=
    .bind (routine_follows hr hs₄ (by omega) kind start.span) fun node s₅ hs₅ _ => .pure hs₅ (by simp)
  rw [get_bind, get_bind]
  refine .branch (atWord_lift hs₄ _) (fun _ => hroutine _) fun _ => ?_
  refine .branch (atWord_lift hs₄ _) (fun _ => hroutine _) fun _ => ?_
  refine .branch (atWord_lift hs₄ _) (fun hat => ?_) fun _ => ?_
  · rw [atWordAt_one_lift hs₄ (Stream.kind_of_atWord hat)]
    exact .bind (package_follows hr hs₄ (by omega) (Stream.ne_eof_of_atWord hat) _ start.span)
      fun node s₅ hs₅ _ => .pure hs₅ (by simp)
  refine .branch ?_ (fun hat => ?_) fun _ => ?_
  · rw [atWord_lift hs₄]
    cases hat : s₄.atWord "type" with
    | false => rw [Bool.false_and, Bool.false_and]
    | true => rw [atWordAt_one_lift hs₄ (Stream.kind_of_atWord hat)]
  · have hkind := Stream.ne_eof_of_atWord (Bool.and_eq_true_iff.1 hat).1
    exact .bind (typeBody_follows hr hs₄ (by omega) hkind start.span)
      fun node s₅ hs₅ _ => .pure hs₅ (by simp)
  refine .branch (atWord_lift hs₄ _) (fun hat => ?_) fun _ => ?_
  · exact .bind (trigger_follows hr hs₄ (by omega) (Stream.ne_eof_of_atWord hat) start.span)
      fun node s₅ hs₅ _ => .pure hs₅ (by simp)
  · exact .bind (modify_follows true hs₄ (Stream.reads_skipStatement s₄)
      fun _ => skipStatement_lift hs₄) fun _ s₅ hs₅ _ => .pure hs₅ (by simp)

/-- A unit does the same in both texts, wherever it stops. -/
theorem programUnit_follows (hr : E.RulesFollow depth r r') (hs : E.Inner s)
    (hlen : s.rest.length ≤ depth) (hkind : s.kind ≠ .eof) :
    E.Follows true 1 s (programUnit r s) (programUnit r' (E.lift s)) := by
  have hopen := hs.open_of_kind hkind
  have hat (kind : TokenKind) : (E.lift s).atKind kind = s.atKind kind := by
    rw [Stream.atKind, Stream.atKind, kind_lift_of_open hs hopen]
  unfold programUnit
  rw [get_bind, get_bind]
  refine .branch ?_ (fun _ => ?_) fun hmark => ?_
  · rw [hat, hat]
  · exact .bind (bump_follows hs hkind) fun _ s₁ hs₁ _ => .pure hs₁ (by simp)
  refine .branch (atWord_lift hs _) (fun _ => create_follows hr hs hlen hkind) fun _ => ?_
  refine .branch ?_ (fun _ => ?_) fun _ => ?_
  · rw [atAnyWord_lift hs, hat]
  · exact .bind (block_follows hr hs hlen) fun node s₁ hs₁ _ => .pure hs₁ (by simp)
  refine .branch ?_ (fun _ => ?_) fun _ => ?_
  · rw [atAnyWord_lift hs, hat]
  · have hread := Stream.reads_advanceUntil_of_not
      (fun t => t.peek.span.line != s.peek.span.line) hs.sound hkind (by simp)
    exact .bind (modify_follows_of_ne_nil true hs hread fun _ => skipLine_lift hs hkind)
      fun _ s₁ hs₁ _ => .pure hs₁ (by simp)
  · have hslash : s.kind ≠ .slash := by
      intro hslash
      simp [Stream.atKind, hslash] at hmark
    exact .bind (modify_follows_of_ne_nil true hs
      (Stream.reads_skipStatement_of_not hs.sound hkind hslash) fun _ => skipStatement_lift hs)
      fun _ s₁ hs₁ _ => .pure hs₁ (by simp)

/-- Unrolled at least as far, the rules do the same in a longer text. -/
theorem rules_follow {depth depth' : Nat} (hle : depth ≤ depth') :
    E.RulesFollow depth (rules depth) (rules depth') := by
  induction depth generalizing depth' with
  | zero =>
    constructor <;> exact fun s _ hlen => absurd hlen (Nat.not_lt_zero _)
  | succ depth ih =>
    obtain ⟨deeper, rfl⟩ : ∃ deeper, depth' = deeper + 1 := ⟨depth' - 1, by omega⟩
    have hr := ih (Nat.le_of_succ_le_succ hle)
    constructor
    · exact fun s hs hlen => expression_follows hr hs (Nat.le_of_lt_succ hlen)
    · exact fun s hs hlen => negation_follows hr hs (Nat.le_of_lt_succ hlen)
    · exact fun s hs hlen => signed_follows hr hs (Nat.le_of_lt_succ hlen)
    · exact fun s hs hlen => statement_follows hr hs (Nat.le_of_lt_succ hlen)
    · exact fun s hs hlen => declaration_follows hr hs (Nat.le_of_lt_succ hlen)

end Embedding

end PlsqlAudit
