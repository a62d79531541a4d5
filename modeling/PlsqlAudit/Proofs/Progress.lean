import PlsqlAudit.Proofs.RecasedPrograms

/-!
# The parser always answers

A place in the tokens of a text is given by the number of tokens that were read
(`Stream.behind`).  Every rule comes to a later place or fails: where the rules are
unrolled deeper than tokens are left, they never run out, because a loop goes on
only after it has read a token.

That rules do not run out is read off the text embedded in itself.  What a rule does
at a place is done again there (`Embedding.Follows`), and running out of depth is not
among the errors that are met again.
-/

namespace PlsqlAudit

open PlsqlAudit.Grammar PlsqlAudit.Parser PlsqlAudit.Embedding

variable {source : String} {tokens : TokenSequence}

/-! ### Places -/

namespace Stream

/-- The place behind the first `n` tokens of a text. -/
def behind (source : String) (tokens : TokenSequence) (n : Nat) : Stream :=
  ⟨source, (tokens.tokens.take n).getLast?, tokens.tokens.drop n, tokens.eof⟩

/-- Reading the first `n` tokens of a text from its start, one comes to the place behind them. -/
theorem reads_behind (source : String) (tokens : TokenSequence) (n : Nat) :
    (start source tokens).Reads (tokens.tokens.take n) (behind source tokens n) where
  rest := (List.take_append_drop n tokens.tokens).symm
  last := by simp [behind, start]
  source := rfl
  eof := rfl

/-- The tokens left behind the first `n` are all tokens of the text but those `n`. -/
theorem length_behind (source : String) (tokens : TokenSequence) (n : Nat) :
    (behind source tokens n).rest.length = tokens.tokens.length - n := List.length_drop

/-- Reading on leads to places further behind. -/
theorem eq_behind_of_reads {n : Nat} {used : List Token} {s : Stream}
    (hn : n ≤ tokens.tokens.length) (h : (behind source tokens n).Reads used s) :
    n + used.length ≤ tokens.tokens.length ∧ s = behind source tokens (n + used.length) := by
  have hrest : tokens.tokens.drop n = used ++ s.rest := h.rest
  have hlength := congrArg List.length hrest
  rw [List.length_drop, List.length_append] at hlength
  refine ⟨by omega, ?_⟩
  have htake : tokens.tokens.take (n + used.length) = tokens.tokens.take n ++ used := by
    rw [List.take_add, hrest, List.take_left]
  have hdrop : tokens.tokens.drop (n + used.length) = s.rest := by
    rw [← List.drop_drop, hrest, List.drop_left]
  obtain ⟨source', last, rest, eof⟩ := s
  obtain rfl : source' = source := h.source
  obtain rfl : eof = tokens.eof := h.eof
  simp only [behind, htake, hdrop, Stream.mk.injEq, true_and, and_true]
  rw [List.getLast?_append]
  exact h.last

end Stream

open PlsqlAudit.Stream (behind)

/-- Each place in the tokens of a text is sound: the tokens left come in their order, and the end
of the input is known as such. -/
theorem sound_behind (htokens : tokenize source = .ok tokens) (n : Nat) :
    (behind source tokens n).Sound :=
  (Stream.reads_behind source tokens n).sound (Stream.sound_start htokens)

/-- A text is embedded in itself. -/
theorem inner_behind (htokens : tokenize source = .ok tokens) (n : Nat) :
    (Embedding.recased source source tokens).Inner (behind source tokens n) :=
  (inner_recased htokens htokens rfl (.of_eq rfl)).of_reads (Stream.reads_behind source tokens n)

/-- Where tokens are left the next one is not the end of the input, because that token is kept
apart from the others. -/
theorem kind_behind (htokens : tokenize source = .ok tokens) {n : Nat}
    (hn : n < tokens.tokens.length) : (behind source tokens n).kind ≠ .eof := by
  apply (inner_behind htokens n).kind_ne_eof
  simpa [behind] using hn

/-- Running out of depth is not among the errors that the text around an embedding repeats, so a
run that is followed never ends with it. -/
theorem Embedding.SameError.ne_exhausted {E : Embedding} {e e' : ParseError}
    (h : E.SameError e e') : e ≠ .exhausted := by
  cases h <;> simp

/-! ### Rules -/

/-- Run behind `n` tokens, `p` comes to a later place, or it fails for a reason that
is found in the text. -/
structure Parser.Proceeds {α : Type} (p : Parser α) (source : String) (tokens : TokenSequence)
    (n : Nat) : Prop where
  answers : p (behind source tokens n) ≠ .error .exhausted
  onward : ∀ a s, p (behind source tokens n) = .ok (a, s) →
    ∃ m, n < m ∧ m ≤ tokens.tokens.length ∧ s = behind source tokens m

/-- A read that leaves fewer tokens than there were comes to the place behind some larger number of
tokens. -/
theorem onward_of_reads {n : Nat} {used : List Token} {s : Stream} (hn : n ≤ tokens.tokens.length)
    (hread : (behind source tokens n).Reads used s)
    (hlt : s.rest.length < (behind source tokens n).rest.length) :
    ∃ m, n < m ∧ m ≤ tokens.tokens.length ∧ s = behind source tokens m := by
  obtain ⟨hle, rfl⟩ := Stream.eq_behind_of_reads hn hread
  rw [Stream.length_behind, Stream.length_behind] at hlt
  exact ⟨n + used.length, by omega, hle, rfl⟩

/-- A rule that is followed in the text embedded in itself proceeds: it never runs out of depth,
and the token that it consumes brings it to a later place. -/
theorem proceeds_of_follows {α : Type} [Movable α] {p : Parser α} {post : List Token → α → Prop}
    {c : Bool} {n depth : Nat} (htokens : tokenize source = .ok tokens)
    (hn : n < tokens.tokens.length) (hdepth : tokens.tokens.length ≤ n + depth)
    (hgives : p.Gives post)
    (hfollows : ∀ s, (Embedding.recased source source tokens).Inner s → s.rest.length ≤ depth →
      s.kind ≠ .eof → (Embedding.recased source source tokens).Follows c 1 s (p s)
        (p ((Embedding.recased source source tokens).lift s))) :
    p.Proceeds source tokens n := by
  have hlength := Stream.length_behind source tokens n
  have hhere := hfollows _ (inner_behind htokens n) (by omega) (kind_behind htokens hn)
  constructor
  · intro h
    obtain ⟨e', -, hsame⟩ := hhere.error _ h rfl
    exact hsame.ne_exhausted rfl
  · intro a s h
    obtain ⟨used, hread, -⟩ := hgives (sound_behind htokens n) trivial h
    obtain ⟨-, hless, -⟩ := hhere.ok a s h
    exact onward_of_reads (Nat.le_of_lt hn) hread (by omega)

/-! ### Loops -/

/-- The loops of the grammar, each given by the step it repeats. -/
inductive Grammar.IsLoop (r : Rules) : {β : Type} → (β → Parser (Option β)) → Prop
  | disjuncts : IsLoop r (chainStep (chain (negation r) and?) or?)
  | conjuncts : IsLoop r (chainStep (negation r) and?)
  | terms : IsLoop r (chainStep (chain (chain (signed r) power?) multiplicative?) additive?)
  | factors : IsLoop r (chainStep (chain (signed r) power?) multiplicative?)
  | powers : IsLoop r (chainStep (signed r) power?)
  | suffixes : IsLoop r (suffix r)
  | listed : IsLoop r (separatedStep r.expression)
  | arguments : IsLoop r (separatedStep (argument r))
  | results : IsLoop r (manyStep (·.atWord "when") (caseBranch r))
  | qualifiers : IsLoop r nameStep
  | parameters : IsLoop r (separatedStep (parameter r))
  | statements (stops : List String) :
    IsLoop r (manyStep (fun s => !s.atEnd && !s.atAnyWord stops) r.statement)
  | declarations :
    IsLoop r (manyStep (fun s => !s.atEnd && !s.atWord "begin" && !s.atWord "end") r.declaration)
  | handlers : IsLoop r (manyStep (·.atWord "when") (exceptionHandler r))
  | labels : IsLoop r (manyStep (·.atKind .labelOpen) label)
  | branches : IsLoop r (manyStep (·.atAnyWord ["elsif", "else"]) (ifBranch r))
  | choices : IsLoop r (manyStep (·.atWord "when") (choiceBranch r))
  | binds : IsLoop r (separatedStep (bindArgument r))
  | clauses : IsLoop r
    (manyStep (·.atAnyWord ["into", "bulk", "returning", "return", "using"]) (executeClause r))
  | modifiers : IsLoop r modifierStep
  | members : IsLoop r (manyStep (fun s => !s.atEnd && !s.atWord "end") (typeMember r))
  | units : IsLoop r (manyStep (fun s => !s.atEnd) (programUnit r))

section Steps

variable {α : Type} {item : Parser α} {one : List Token → α → Prop} {r : Rules}

/-- Moving past a token reads exactly this token. -/
theorem Stream.reads_advance_of_cons {s : Stream} {token : Token} {rest : List Token}
    (h : s.rest = token :: rest) : s.Reads [token] s.advance := by
  constructor <;> simp [advance, h]

/-- Moving on reads a token, or nothing at all where the input has ended. -/
theorem Stream.exists_reads_advance (s : Stream) : ∃ used, s.Reads used s.advance := by
  cases hrest : s.rest with
  | nil => exact ⟨[], by constructor <;> simp [advance, hrest]⟩
  | cons token rest => exact ⟨[token], reads_advance_of_cons hrest⟩

/-- One turn of a loop over items reads tokens, provided that the item does so wherever the loop
goes on. -/
theorem manyStep_gives {more : Stream → Bool} (hitem : item.GivesAt (more · = true) one)
    (items : List α) : (manyStep more item items).Gives fun _ _ => True := by
  intro s next s' hs _ h
  rw [manyStep, get_bind] at h
  split at h
  case isTrue hmore =>
    obtain ⟨a, s₁, v, hread, -, h⟩ := hitem.bind hs (Stream.Reads.refl s) hmore h
    obtain ⟨rfl, rfl⟩ := pure_ok.1 h
    exact ⟨_, hread, trivial⟩
  case isFalse =>
    obtain ⟨rfl, rfl⟩ := pure_ok.1 h
    exact ⟨[], Stream.Reads.refl s, trivial⟩

/-- One turn of a list with commas reads a comma and an item, or it reads nothing. -/
theorem separatedStep_gives (hitem : item.Gives one) (items : List α) :
    (separatedStep item items).Gives fun _ _ => True := by
  intro s next s' hs _ h
  obtain ⟨read, s₁, u, hread, -, h⟩ := (eat_gives (by simp)).first hs h
  split at h
  · obtain ⟨a, s₂, v, hread₁, -, h⟩ := hitem.bind hs hread h
    obtain ⟨rfl, rfl⟩ := pure_ok.1 h
    exact ⟨_, hread₁, trivial⟩
  · obtain ⟨rfl, rfl⟩ := pure_ok.1 h
    exact ⟨_, hread, trivial⟩

/-- One turn of a chain of operators reads an operator with its right operand, or it reads
nothing. -/
theorem chainStep_gives {operand : Parser Node} {one : List Token → Node → Prop}
    (hoperand : operand.Gives one) (operator? : Stream → Option BinaryOp) (lhs : Node) :
    (chainStep operand operator? lhs).Gives fun _ _ => True := by
  intro s next s' hs _ h
  rw [chainStep, get_bind] at h
  cases hop : operator? s with
  | none =>
    simp only [hop] at h
    obtain ⟨rfl, rfl⟩ := pure_ok.1 h
    exact ⟨[], Stream.Reads.refl s, trivial⟩
  | some op =>
    simp only [hop, bump_bind] at h
    obtain ⟨u, hread⟩ := s.exists_reads_advance
    obtain ⟨rhs, s₁, v, hread₁, -, h⟩ := hoperand.bind hs hread h
    obtain ⟨rfl, rfl⟩ := pure_ok.1 h
    exact ⟨_, hread₁, trivial⟩

/-- Two tokens are read if a test holds. -/
theorem pairStep_gives {β : Type} (test : Bool) (make : Token → β) :
    Parser.Gives (if test then do
        let _ ← bump
        let second ← bump
        return some (make second)
      else return none : Parser (Option β)) fun _ _ => True := by
  intro s next s' hs _ h
  split at h
  · rw [bump_bind, bump_bind] at h
    obtain ⟨rfl, rfl⟩ := pure_ok.1 h
    obtain ⟨u, hread⟩ := s.exists_reads_advance
    obtain ⟨v, hread₁⟩ := s.advance.exists_reads_advance
    exact ⟨_, hread.trans hread₁, trivial⟩
  · obtain ⟨rfl, rfl⟩ := pure_ok.1 h
    exact ⟨[], Stream.Reads.refl s, trivial⟩

/-- The arguments of a call are read from the tokens behind the name that is called. -/
theorem call_gives (hr : r.Spell) (callee : Node) : (call r callee).Gives fun _ _ => True := by
  intro s n s' hs _ h
  have finish {arguments : List Node} {s₁ : Stream}
      (h : (lastSpan >>= fun last =>
        pure (.mk .call (callee.span.cover last) (callee :: arguments))) s₁ = .ok (n, s')) :
      s₁ = s' := by
    rw [lastSpan_bind] at h
    exact (pure_ok.1 h).2
  rw [call, bump_bind] at h
  obtain ⟨u, hread⟩ := s.exists_reads_advance
  obtain ⟨closed, s₁, v, hread₁, -, h⟩ := (eat_gives (by simp)).bind hs hread h
  cases closed with
  | true =>
    rw [if_pos rfl, pure_bind_run] at h
    obtain rfl := finish h
    exact ⟨_, hread₁, trivial⟩
  | false =>
    rw [if_neg (by simp)] at h
    obtain ⟨arguments, s₂, w, hread₂, -, h⟩ :=
      (separated_wordings (argument_gives hr)).bind hs hread₁ h
    obtain ⟨closing, s₃, x, hread₃, -, h⟩ := (expect_gives (by simp) ")").bind hs hread₂ h
    rw [pure_bind_run] at h
    obtain rfl := finish h
    exact ⟨_, hread₃, trivial⟩

/-- Whatever follows an expression and binds to it (a member, an attribute, a link, arguments) is
read from the tokens there. -/
theorem suffix_gives (hr : r.Spell) (expr : Node) : (suffix r expr).Gives fun _ _ => True := by
  intro s next s' hs _ h
  rw [suffix, get_bind] at h
  cases hkind : s.kind with
  | dot =>
    rw [hkind] at h
    exact pairStep_gives _ _ hs trivial h
  | percent =>
    rw [hkind] at h
    exact pairStep_gives _ _ hs trivial h
  | atSign =>
    rw [hkind] at h
    exact pairStep_gives _ _ hs trivial h
  | lParen =>
    rw [hkind] at h
    obtain ⟨n, s₁, v, hread, -, h⟩ := (call_gives hr expr).first hs h
    obtain ⟨rfl, rfl⟩ := pure_ok.1 h
    exact ⟨_, hread, trivial⟩
  | _ =>
    rw [hkind] at h
    obtain ⟨rfl, rfl⟩ := pure_ok.1 h
    exact ⟨[], Stream.Reads.refl s, trivial⟩

/-- One more part of a dotted name reads its dot and its identifier. -/
theorem nameStep_gives (span : Span) : (nameStep span).Gives fun _ _ => True := by
  intro s next s' hs _ h
  exact pairStep_gives _ _ hs trivial h

/-- One more word in front of a member of a type reads that word. -/
theorem modifierStep_gives (isConstructor : Bool) :
    (modifierStep isConstructor).Gives fun _ _ => True := by
  intro s next s' hs _ h
  obtain ⟨read, s₁, u, hread, -, h⟩ := (eatWord_gives "constructor").first hs h
  split at h
  · obtain ⟨rfl, rfl⟩ := pure_ok.1 h
    exact ⟨u, hread, trivial⟩
  rw [get_bind] at h
  split at h
  · rw [bump_bind] at h
    obtain ⟨rfl, rfl⟩ := pure_ok.1 h
    obtain ⟨v, hread₁⟩ := s₁.exists_reads_advance
    exact ⟨_, hread.trans hread₁, trivial⟩
  · obtain ⟨rfl, rfl⟩ := pure_ok.1 h
    exact ⟨u, hread, trivial⟩

namespace Grammar.IsLoop

variable {β : Type} {step : β → Parser (Option β)}

/-- A round of a loop reads tokens. -/
theorem gives (h : IsLoop r step) (hr : r.Spell) (b : β) : (step b).Gives fun _ _ => True := by
  cases h with
  | disjuncts => exact chainStep_gives (conjuncts_gives hr) _ b
  | conjuncts => exact chainStep_gives (negation_gives hr) _ b
  | terms => exact chainStep_gives (factors_gives hr) _ b
  | factors => exact chainStep_gives (powers_gives hr) _ b
  | powers => exact chainStep_gives (signed_gives hr) _ b
  | suffixes => exact suffix_gives hr b
  | listed => exact separatedStep_gives hr.expression b
  | arguments => exact separatedStep_gives (argument_gives hr) b
  | results => exact manyStep_gives (caseBranch_gives hr) b
  | qualifiers => exact nameStep_gives b
  | parameters => exact separatedStep_gives (parameter_gives hr) b
  | statements stops => exact manyStep_gives (hr.statement.at _) b
  | declarations => exact manyStep_gives (hr.declaration.at _) b
  | handlers => exact manyStep_gives (exceptionHandler_gives hr) b
  | labels => exact manyStep_gives label_gives b
  | branches => exact manyStep_gives ((ifBranch_gives hr).at _) b
  | choices => exact manyStep_gives (choiceBranch_gives hr) b
  | binds => exact separatedStep_gives (bindArgument_gives hr) b
  | clauses => exact manyStep_gives (executeClause_gives hr) b
  | modifiers => exact modifierStep_gives b
  | members => exact manyStep_gives ((typeMember_gives hr).at _) b
  | units => exact manyStep_gives ((programUnit_gives hr).at _) b

/-- A round of a loop that goes on leaves fewer tokens. -/
theorem goes {E : Embedding} {depth limit : Nat} (h : IsLoop r step) (hr : E.RulesFollow depth r r)
    (hlimit : limit < depth) : E.Goes limit step := by
  cases h with
  | disjuncts => exact chainStep_goes fun s hs hlen => conjuncts_follows hr hs (by omega)
  | conjuncts => exact chainStep_goes fun s hs hlen => negation_follows hr hs (by omega)
  | terms => exact chainStep_goes fun s hs hlen => factors_follows hr hs (by omega)
  | factors => exact chainStep_goes fun s hs hlen => powers_follows hr hs (by omega)
  | powers => exact chainStep_goes fun s hs hlen => signed_follows hr hs (by omega)
  | suffixes =>
    intro expr s next s₁ hs hlen
    exact suffix_goes hr expr s next s₁ hs (by omega)
  | listed => exact separatedStep_goes fun s hs hlen => hr.expression s hs (by omega)
  | arguments => exact separatedStep_goes fun s hs hlen => argument_follows hr hs (by omega)
  | results =>
    exact manyStep_goes fun s hs hlen hat =>
      caseBranch_follows hr hs (by omega) (Stream.ne_eof_of_atWord hat)
  | qualifiers => exact nameStep_goes
  | parameters => exact separatedStep_goes fun s hs hlen => parameter_follows hr hs (by omega)
  | statements stops =>
    exact manyStep_goes fun s hs hlen _ => hr.statement s hs (by omega)
  | declarations =>
    exact manyStep_goes fun s hs hlen _ => hr.declaration s hs (by omega)
  | handlers =>
    exact manyStep_goes fun s hs hlen _ => exceptionHandler_follows hr hs (by omega)
  | labels =>
    exact manyStep_goes fun s hs hlen hat =>
      label_follows hs (by simp [Stream.kind_of_atKind hat])
  | branches =>
    exact manyStep_goes fun s hs hlen hat => ifBranch_follows hr hs (by omega) hat
  | choices =>
    exact manyStep_goes fun s hs hlen _ => choiceBranch_follows hr hs (by omega)
  | binds => exact separatedStep_goes fun s hs hlen => bindArgument_follows hr hs (by omega)
  | clauses =>
    exact manyStep_goes fun s hs hlen hat =>
      executeClause_follows hr hs (by omega) (Stream.ne_eof_of_atAnyWord hat)
  | modifiers => exact modifierStep_goes
  | members =>
    exact manyStep_goes fun s hs hlen _ => typeMember_follows hr hs (by omega)
  | units =>
    refine manyStep_goes fun s hs hlen hmore =>
      programUnit_follows hr hs (by omega) (hs.kind_ne_eof ?_)
    simpa [Stream.atEnd] using hmore

end Grammar.IsLoop

end Steps

/-! ### Skipping -/

namespace Stream

/-- The loops that skip tokens, each at a depth of parentheses. -/
inductive IsSkip : (Nat → Stream → Stream) → Prop
  | outside (stop : Stream → Bool) :
    IsSkip fun depth s => skipFrom stop s.source s.eof depth s.last s.rest
  | anywhere (stop : Stream → Bool) :
    IsSkip fun _ s => advanceFrom stop s.source s.eof s.last s.rest
  | statement : IsSkip fun depth s => skipStatementFrom s.source s.eof depth s.last s.rest

namespace IsSkip

variable {skip : Nat → Stream → Stream}

/-- Every way of skipping reads the tokens that it skips, at any depth of parentheses and from any
place. -/
theorem reads (h : IsSkip skip) (depth : Nat) (s : Stream) :
    ∃ used, s.Reads used (skip depth s) := by
  cases h with
  | outside stop => exact reads_skipFrom stop s.source s.eof depth s.last s.rest
  | anywhere stop => exact reads_advanceFrom stop s.source s.eof s.last s.rest
  | statement => exact reads_skipStatementFrom s.source s.eof depth s.last s.rest

/-- One round of a skip: it stays, or it reads a token and stops or goes on. -/
theorem round (h : IsSkip skip) (depth : Nat) (s : Stream) :
    skip depth s = s ∨ skip depth s = s.advance ∨ ∃ inner, skip depth s = skip inner s.advance := by
  obtain ⟨source, last, rest, eof⟩ := s
  cases rest with
  | nil =>
    cases h with
    | outside _ | anywhere _ | statement => exact .inl rfl
  | cons t rest =>
    cases h with
    | outside stop =>
      dsimp only
      rw [skipFrom]
      split
      · exact .inl rfl
      · exact .inr (.inr ⟨_, rfl⟩)
    | anywhere stop =>
      dsimp only
      rw [advanceFrom]
      split
      · exact .inl rfl
      · exact .inr (.inr ⟨depth, rfl⟩)
    | statement =>
      dsimp only
      rw [skipStatementFrom]
      split
      · exact .inl rfl
      · split
        · exact .inr (.inl rfl)
        · exact .inr (.inr ⟨_, rfl⟩)

end IsSkip

/-- Moving on from the place behind `n` tokens leads to the place behind one token more. -/
theorem advance_behind (source : String) {n : Nat} (hn : n < tokens.tokens.length) :
    (behind source tokens n).advance = behind source tokens (n + 1) := by
  have hrest : (behind source tokens n).rest = tokens.tokens[n] :: tokens.tokens.drop (n + 1) :=
    List.drop_eq_getElem_cons hn
  exact (eq_behind_of_reads (Nat.le_of_lt hn) (reads_advance_of_cons hrest)).2

end Stream

/-! ### Looking at tokens and texts -/

/-- The token `k` places ahead is found in the list of all tokens, which ends with the token for
the end of the input. -/
theorem getElem?_ahead (source : String) (tokens : TokenSequence) (n k : Nat) :
    tokens.toList[min (n + k) tokens.tokens.length]? =
      some ((behind source tokens n).peekAt k) := by
  rw [TokenSequence.toList, Stream.peekAt, Stream.behind, List.getElem?_drop]
  by_cases hk : n + k < tokens.tokens.length
  · rw [Nat.min_eq_left (by omega), List.getElem?_append_left hk, List.getElem?_eq_getElem hk]
    rfl
  · have hnone : tokens.tokens[n + k]? = none := List.getElem?_eq_none (by omega)
    rw [Nat.min_eq_right (by omega), List.getElem?_append_right (Nat.le_refl _), Nat.sub_self, hnone]
    rfl

/-- The token that was read last stands directly in front of the place in the list of all
tokens. -/
theorem getElem?_before (source : String) {n : Nat} (hpos : 0 < n) (hn : n ≤ tokens.tokens.length) :
    tokens.toList[n - 1]? = (behind source tokens n).last := by
  have hlength : (tokens.tokens.take n).length = n := by simp [hn]
  rw [TokenSequence.toList, Stream.behind, List.getElem?_append_left (by omega),
    List.getLast?_eq_getElem?, hlength, List.getElem?_take_of_lt (by omega)]

/-- A token is cut out of the text between characters. -/
theorem slice_of_mem (htokens : tokenize source = .ok tokens) {t : Token} (ht : t ∈ tokens.toList) :
    ∃ before after, t.span.Covers source before t.text.toList after := by
  rcases List.mem_append.1 ht with ht | ht
  · obtain ⟨list, hlist, hall, -⟩ := tokenize_spec htokens
    obtain ⟨before, lexeme, after, -, -, htext, hcovers⟩ := token_covers hlist (hall ▸ ht)
    rw [htext, String.toList_ofList]
    exact ⟨_, _, hcovers⟩
  · obtain rfl := List.mem_singleton.1 ht
    obtain ⟨htext, hcovers⟩ := eof_covers htokens
    rw [htext]
    exact ⟨_, _, hcovers⟩

/-- The text of a type is cut out between characters too. -/
theorem slice_of_dataType (htokens : tokenize source = .ok tokens) {context : TypeContext} {n : Nat}
    {node : Node} {s : Stream} (h : dataType context (behind source tokens n) = .ok (node, s)) :
    ∃ before middle after, node.span.Covers source before middle after ∧
      node.kind = .dataType (classifyType (String.ofList middle)) := by
  obtain ⟨used, hread, skipped, us, rfl, htakes, -⟩ := dataType_gives context (sound_behind htokens n) trivial h
  have hinfix : us <:+: tokens.tokens := by
    refine ⟨tokens.tokens.take n ++ skipped, s.rest, ?_⟩
    have hrest : tokens.tokens.drop n = (skipped ++ us) ++ s.rest := hread.rest
    rw [List.append_assoc, List.append_assoc, ← List.append_assoc skipped, ← hrest,
      List.take_append_drop]
  obtain ⟨before, lexeme, -, -, -, more, rest, hcovers⟩ := htakes.fits.spans.covers hinfix htokens
  refine ⟨_, _, _, hcovers, ?_⟩
  rw [← hcovers.text_eq]
  rw [dataType, get_bind] at h
  split at h
  · exact absurd h not_unexpected_ok
  · rw [skipUntil_bind, lastSpan_bind] at h
    obtain ⟨rfl, -⟩ := pure_ok.1 h
    rfl

/-! ### All of it -/

/-- How the parser goes through the tokens of a text. -/
structure TokenSequence.GoneThrough (tokens : TokenSequence) (source : String) : Prop where
  /-- A look ahead finds a token, at the latest that for the end. -/
  ahead : ∀ n k,
    tokens.toList[min (n + k) tokens.tokens.length]? = some ((behind source tokens n).peekAt k)
  /-- A look back finds the token that was read last. -/
  back : ∀ n ≤ tokens.tokens.length, 0 < n →
    tokens.toList[n - 1]? = (behind source tokens n).last
  /-- The text of a token is cut out between characters. -/
  token : ∀ t ∈ tokens.toList, ∃ before after, t.span.Covers source before t.text.toList after
  /-- So is the text by which a type is classified. -/
  dataType : ∀ context n node s, Grammar.dataType context (behind source tokens n) = .ok (node, s) →
    ∃ before middle after, node.span.Covers source before middle after ∧
      node.kind = .dataType (classifyType (String.ofList middle))
  /-- Units, declarations, statements and expressions are read from before the end,
  by rules that are unrolled as often as tokens are left. -/
  unit : ∀ depth, ∀ n < tokens.tokens.length, tokens.tokens.length ≤ n + depth →
    (programUnit (rules depth)).Proceeds source tokens n
  declaration : ∀ depth, ∀ n < tokens.tokens.length, tokens.tokens.length ≤ n + depth →
    (Grammar.declaration (rules depth)).Proceeds source tokens n
  statement : ∀ depth, ∀ n < tokens.tokens.length, tokens.tokens.length ≤ n + depth →
    (Grammar.statement (rules depth)).Proceeds source tokens n
  expression : ∀ depth, ∀ n < tokens.tokens.length, tokens.tokens.length ≤ n + depth →
    (Grammar.expression (rules depth)).Proceeds source tokens n
  /-- A round of a loop that goes on has read a token. -/
  loop : ∀ depth {β : Type} (step : β → Parser (Option β)), IsLoop (rules depth) step →
    ∀ n ≤ tokens.tokens.length, tokens.tokens.length < n + depth → ∀ b next s,
      step b (behind source tokens n) = .ok (some next, s) →
      ∃ m, n < m ∧ m ≤ tokens.tokens.length ∧ s = behind source tokens m
  /-- A round of a skip stays where it is, or reads a token and stops or goes on. -/
  round : ∀ skip, Stream.IsSkip skip → ∀ depth, ∀ n < tokens.tokens.length,
    skip depth (behind source tokens n) = behind source tokens n ∨
      skip depth (behind source tokens n) = behind source tokens (n + 1) ∨
      ∃ inner, skip depth (behind source tokens n) = skip inner (behind source tokens (n + 1))
  /-- A skip stops no later than at the end. -/
  skip : ∀ skip, Stream.IsSkip skip → ∀ depth, ∀ n ≤ tokens.tokens.length,
    ∃ m, n ≤ m ∧ m ≤ tokens.tokens.length ∧
      skip depth (behind source tokens n) = behind source tokens m

/-- The tokens of a text that is tokenized are gone through: every rule, every loop and every skip
comes to a later place among them or says why it does not. -/
theorem goneThrough (htokens : tokenize source = .ok tokens) : tokens.GoneThrough source where
  ahead := getElem?_ahead source tokens
  back := fun n hn hpos => getElem?_before source hpos hn
  token := fun t ht => slice_of_mem htokens ht
  dataType := fun context n node s h => slice_of_dataType htokens h
  unit := by
    intro depth n hn hdepth
    apply proceeds_of_follows htokens hn hdepth (programUnit_gives (rules_spell depth))
    intro s hs hlen hkind
    exact programUnit_follows (rules_follow (Nat.le_refl depth)) hs hlen hkind
  declaration := by
    intro depth n hn hdepth
    apply proceeds_of_follows htokens hn hdepth (declaration_gives (rules_spell depth))
    intro s hs hlen _
    exact declaration_follows (rules_follow (Nat.le_refl depth)) hs hlen
  statement := by
    intro depth n hn hdepth
    apply proceeds_of_follows htokens hn hdepth (statement_gives (rules_spell depth))
    intro s hs hlen _
    exact statement_follows (rules_follow (Nat.le_refl depth)) hs hlen
  expression := by
    intro depth n hn hdepth
    apply proceeds_of_follows htokens hn hdepth (expression_gives (rules_spell depth))
    intro s hs hlen _
    exact expression_follows (rules_follow (Nat.le_refl depth)) hs hlen
  loop := by
    intro depth β step hstep n hn hdepth b next s h
    obtain ⟨used, hread, -⟩ := hstep.gives (rules_spell depth) b (sound_behind htokens n) trivial h
    apply onward_of_reads hn hread
    have hgoes := hstep.goes (E := Embedding.recased source source tokens)
      (rules_follow (Nat.le_refl depth)) (show tokens.tokens.length - n < depth by omega)
    exact hgoes b _ next s (inner_behind htokens n)
      (Nat.le_of_eq (Stream.length_behind source tokens n)) h
  round := by
    intro skip hskip depth n hn
    rw [← Stream.advance_behind source hn]
    exact hskip.round depth _
  skip := by
    intro skip hskip depth n hn
    obtain ⟨used, hread⟩ := hskip.reads depth (behind source tokens n)
    obtain ⟨hle, heq⟩ := Stream.eq_behind_of_reads hn hread
    exact ⟨n + used.length, Nat.le_add_right _ _, hle, heq⟩

/-- Tokenizing never runs out of depth, since no rule of the grammar takes part in it. -/
theorem tokenize_ne_exhausted (source : String) : tokenize source ≠ .error .exhausted := by
  rw [tokenize_eq]
  cases (Lexeme.lexemes source.toList).2 <;> simp

/-- Parsing never runs out of depth: what is given as an error is always something found in the
text. -/
theorem parse_ne_exhausted (source : String) : parse source ≠ .error .exhausted := by
  intro h
  cases htokens : tokenize source with
  | error e =>
    rw [parse_of_tokenize_error htokens] at h
    obtain rfl := Except.error.inj h
    exact tokenize_ne_exhausted source htokens
  | ok tokens =>
    obtain ⟨-, herror⟩ := Embedding.units_lift rfl (inner_behind htokens 0)
      (Nat.le_refl tokens.tokens.length) (Nat.le_refl _) (Nat.lt_succ_self _)
    rw [parse_of_tokenize htokens] at h
    cases hunits : units tokens.tokens.length (tokens.tokens.length + 1)
      (Stream.start source tokens) with
    | ok found =>
      rw [run'_of_ok hunits] at h
      cases h
    | error err =>
      rw [run'_of_error hunits] at h
      obtain rfl := Except.error.inj h
      obtain ⟨e', -, hsame⟩ := herror .exhausted hunits
      exact hsame.ne_exhausted rfl

/-- **The parser always answers.**  It gives a tree or an error that is found in the
text, and it goes through the tokens of the text without leaving them. -/
theorem parse_answers (source : String) :
    ((∃ t, parse source = .ok t) ∨ ∃ e, parse source = .error e ∧ e ≠ .exhausted) ∧
      ∀ tokens, tokenize source = .ok tokens → tokens.GoneThrough source := by
  constructor
  · cases hparse : parse source with
    | ok t => exact .inl ⟨t, rfl⟩
    | error e =>
      refine .inr ⟨e, rfl, ?_⟩
      rintro rfl
      exact parse_ne_exhausted source hparse
  · intro tokens htokens
    exact goneThrough htokens

/-- A program in which a value is missing. -/
theorem parse_answers_of_gap : ∃ tokens e,
    tokenize "CREATE PROCEDURE p IS BEGIN x := ; END;" = .ok tokens ∧
      parse "CREATE PROCEDURE p IS BEGIN x := ; END;" = .error e ∧ e ≠ .exhausted ∧
      tokens.GoneThrough "CREATE PROCEDURE p IS BEGIN x := ; END;" := by
  have htest : (tokenize "CREATE PROCEDURE p IS BEGIN x := ; END;").toOption.isSome = true ∧
      (parse "CREATE PROCEDURE p IS BEGIN x := ; END;").toOption.isSome = false := by
    decide +kernel
  obtain ⟨hanswer, hwalk⟩ := parse_answers "CREATE PROCEDURE p IS BEGIN x := ; END;"
  cases htokens : tokenize "CREATE PROCEDURE p IS BEGIN x := ; END;" with
  | error e => simp [htokens, Except.toOption] at htest
  | ok tokens =>
    rcases hanswer with ⟨t, ht⟩ | ⟨e, he, hne⟩
    · simp [ht, Except.toOption] at htest
    · exact ⟨tokens, e, rfl, he, hne, hwalk tokens htokens⟩

end PlsqlAudit
