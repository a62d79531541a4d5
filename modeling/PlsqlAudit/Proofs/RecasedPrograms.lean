import PlsqlAudit.Proofs.MirroredFlow
import PlsqlAudit.Proofs.NestedSpans
import PlsqlAudit.Proofs.RecasedTokens

/-!
# Programs in other letters

Identifiers and keywords may be written in capitals or in small letters.  A text
in which this is changed has the same tokens at the same places
(`tokenize_recased`).  So the one text is embedded in the other, and both are parsed
to the same tree or fail at the same token.  The texts of the nodes are then in the
same letters, and the two trees mirror each other place by place: the violations
are at the same places.
-/

namespace PlsqlAudit

open List (Forall₂)
open PlsqlAudit.Grammar PlsqlAudit.Parser
open Text (SameLetters)

variable {source source' : String} {tokens tokens' : TokenSequence}

/-- A span has a text in the same letters in both texts. -/
theorem Text.Recased.span_text {span : Span} {before middle after : List Char}
    (h : Text.Recased source source') (hsource : source.toList = before ++ middle ++ after)
    (hoffset : span.offset = String.utf8Len before)
    (hstop : span.stop = String.utf8Len before + String.utf8Len middle) :
    Text.Recased (span.text source) (span.text source') := by
  rw [Text.Recased, hsource] at h
  obtain ⟨front, after', hsource', hfront, -⟩ := SameLetters.split h
  obtain ⟨before', middle', rfl, hbefore, hmiddle⟩ := SameLetters.split hfront
  rw [Span.text_eq_ofList hsource hoffset hstop, Span.text_eq_ofList hsource'
    (hoffset.trans hbefore.utf8Len_eq) (by rw [hstop, hbefore.utf8Len_eq, hmiddle.utf8Len_eq])]
  simpa [Text.Recased] using hmiddle

theorem Span.Covers.recased {span : Span} {before middle after : List Char}
    (h : span.Covers source before middle after) (hletters : Text.Recased source source') :
    Text.Recased (span.text source) (span.text source') :=
  hletters.span_text h.text h.offset_eq h.stop_eq

/-! ### The same tree -/

/-- A text in the same text in other letters. -/
def Embedding.recased (source source' : String) (tokens : TokenSequence) : Embedding where
  shift := ⟨0, 0⟩
  source := source
  eof := tokens.eof
  outer := source'
  outerEof := tokens.eof
  spelling t := t.span.text source'
  tail := []

/-- Only the spelling of a token is another one. -/
theorem Embedding.token_recased (t : Token) :
    (Embedding.recased source source' tokens).token t = ⟨t.kind, t.span.text source', t.span⟩ :=
  congrArg (Token.mk t.kind (t.span.text source')) t.span.shift_zero

theorem lawful_recased (htokens : tokenize source = .ok tokens)
    (htokens' : tokenize source' = .ok tokens') (heof : tokens'.eof = tokens.eof)
    (hletters : Text.Recased source source') :
    (Embedding.recased source source' tokens).Lawful where
  ends := by
    obtain ⟨-, -, -, hkind⟩ := tokenize_spec htokens
    exact hkind
  eofStop := ⟨source.toList, List.prefix_refl _, tokenize_eof htokens⟩
  outerEof := by
    intro _
    obtain ⟨htext, hcovers⟩ := eof_covers htokens'
    rw [heof] at htext hcovers
    have hnone : tokens.eof.span.text source' = tokens.eof.text := by
      rw [hcovers.text_eq, htext]
    rw [Embedding.token_recased]
    exact congrArg (fun text => Token.mk tokens.eof.kind text tokens.eof.span) hnone.symm
  slash := by simp [Embedding.recased]
  text := by
    intro span hstart hstop
    obtain ⟨before, hbefore, hoffset⟩ := hstart
    obtain ⟨upto, hupto, hstop⟩ := hstop
    obtain ⟨middle, after, hsource, hmiddle⟩ := Span.exists_middle hbefore hupto hoffset hstop
    exact (hletters.span_text hsource hoffset hmiddle).lower.symm

theorem inner_recased (htokens : tokenize source = .ok tokens)
    (htokens' : tokenize source' = .ok tokens') (heof : tokens'.eof = tokens.eof)
    (hletters : Text.Recased source source') :
    (Embedding.recased source source' tokens).Inner (Stream.start source tokens) := by
  apply Embedding.inner_start (lawful_recased htokens htokens' heof hletters) htokens rfl
  · intro t ht
    obtain ⟨list, hlist, hall, -⟩ := tokenize_spec htokens
    obtain ⟨before, lexeme, after, -, -, -, hcovers⟩ := token_covers hlist (hall ▸ ht)
    refine Embedding.known_of_mem htokens (.inl rfl) (by simp [Embedding.recased]) ht ?_
    rw [Token.lowerText, Token.lowerText, token_text htokens ht]
    exact (hcovers.recased hletters).map_toLower.symm
  · exact fun h => absurd rfl h
  · exact fun h => absurd rfl h

theorem lift_start_recased (htokens' : tokenize source' = .ok tokens')
    (heof : tokens'.eof = tokens.eof) (hsame : Forall₂ Token.Same tokens.tokens tokens'.tokens) :
    (Embedding.recased source source' tokens).lift (Stream.start source tokens) =
      Stream.start source' tokens' := by
  have htoken : tokens.tokens.map (Embedding.recased source source' tokens).token =
      tokens'.tokens.map id := by
    refine map_eq_of_rel ?_ (rel_mem_mem hsame)
    intro t t' ht
    obtain ⟨-, hmem, hkind, hspan, -⟩ := ht
    rw [Embedding.token_recased, ← hkind, ← hspan, ← token_text htokens' hmem]
    rfl
  rw [List.map_id] at htoken
  simp only [Embedding.lift, Stream.start, htoken]
  simp [Embedding.recased, heof]

/-- The error without the token that was found. -/
def ParseError.withoutFound : ParseError → ParseError
  | .unexpected line column _ expected => .unexpected line column "" expected
  | e => e

/-- **The same tree in other letters**, or an error at the same token. -/
theorem parse_recased (htokens : tokenize source = .ok tokens) (h : Recasing source source' tokens) :
    (∀ t, parse source = .ok t → parse source' = .ok { t with source := source' }) ∧
      ∀ e, parse source = .error e →
        ∃ e', parse source' = .error e' ∧ e'.withoutFound = e.withoutFound := by
  obtain ⟨tokens', htokens', heof, hsame⟩ := tokenize_recased htokens h
  have hlength : tokens'.tokens.length = tokens.tokens.length := (List.Forall₂.length_eq hsame).symm
  obtain ⟨hok, herror⟩ := Embedding.units_lift rfl (inner_recased htokens htokens' heof h.letters)
    (Nat.le_refl tokens.tokens.length) (Nat.le_refl _) (Nat.lt_succ_self _)
  rw [lift_start_recased htokens' heof hsame] at hok herror
  rw [parse_of_tokenize htokens', hlength]
  constructor
  · intro t hparse
    obtain ⟨list, e, hunits, rfl⟩ := exists_units_of_parse htokens hparse
    have hsize : source'.utf8ByteSize = source.utf8ByteSize := by
      rw [← String.ofList_toList (s := source'), ← String.ofList_toList (s := source),
        String.utf8ByteSize_ofList, String.utf8ByteSize_ofList]
      exact (SameLetters.utf8Len_eq h.letters).symm
    have hmove : (Embedding.recased source source' tokens).move list = list := by
      show list.map (Option.map (Node.shift ⟨0, 0⟩)) = list
      rw [Node.shift_eq_id, Option.map_id, List.map_id]
    have hrun := hok list e hunits
    rw [hmove] at hrun
    rw [run'_of_ok hrun, Tree.ofUnits, ← hsize]
    rfl
  · intro e hparse
    rw [parse_of_tokenize htokens] at hparse
    cases hunits : units tokens.tokens.length (tokens.tokens.length + 1)
      (Stream.start source tokens) with
    | ok found =>
      rw [run'_of_ok hunits] at hparse
      cases hparse
    | error err =>
      obtain ⟨e', he', hsame⟩ := herror err hunits
      rw [run'_of_error hunits] at hparse
      obtain rfl := Except.error.inj hparse
      rw [run'_of_error he']
      refine ⟨e', rfl, ?_⟩
      cases hsame with
      | unexpected known expected =>
        rw [Embedding.token_recased]
        rfl
      | unexpectedEnd expected => rfl

/-! ### The same violations -/

namespace Tree

variable {t : Tree}

/-- The tree of a program and the same tree of the program in other letters. -/
theorem mirror_recased (hparse : parse source = .ok t) (hletters : Text.Recased source source') :
    Mirror t { t with source := source' } fun p p' => p ∈ t.places ∧ p' = p := by
  obtain ⟨hsource, -⟩ := parse_spells hparse
  have htop : t.top ∈ t.places := mem_places.2 (.inl rfl)
  refine .of_subtrees htop htop ⟨htop, rfl⟩ ?_ ?_ ?_ ?_ above_top
  · rintro p _ ⟨hp, rfl⟩
    rw [places_eq] at hp
    exact ⟨hp, hp, rfl⟩
  · rintro p _ ⟨-, rfl⟩
    rfl
  · rintro p _ ⟨hp, rfl⟩
    obtain ⟨before, middle, after, hcovers⟩ := covers_of_parse hparse hp
    have htext := hcovers.recased hletters
    rwa [← hsource] at htext
  · rintro p _ ⟨hp, rfl⟩
    exact List.forall₂_same.2 fun q hq => ⟨children_subset_places hp hq, rfl⟩

theorem exposures_recased (hparse : parse source = .ok t) (hletters : Text.Recased source source')
    (list : AllowList) : Tree.exposures { t with source := source' } list = t.exposures list := by
  have hmirror := mirror_recased hparse hletters
  have hsites : Forall₂ (fun p p' => p ∈ t.places ∧ p' = p) t.dynamicSites
      (Tree.dynamicSites { t with source := source' }) :=
    hmirror.placesOf ⟨mem_places.2 (.inl rfl), rfl⟩ rfl rfl
  have hsame : Forall₂ (· = ·) (t.exposures list) (Tree.exposures { t with source := source' } list) :=
    (hmirror.exposures list hsites).imp fun _ _ hp => hp.2.2.symm
  rw [List.forall₂_eq_eq_eq] at hsame
  exact hsame.symm

end Tree

/-- **The case of identifiers and keywords does not matter.**  If only the case of
ASCII letters outside the quoted parts of strings is changed in a text that has
tokens, the tokens keep their kinds and spans; the text is parsed to the same tree
or fails with the same error, but for the spelling of the token it names; and the
same places are reported, in the same order. -/
theorem sameProgram_of_recasing (htokens : tokenize source = .ok tokens)
    (h : Recasing source source' tokens) :
    (∃ tokens', tokenize source' = .ok tokens' ∧
      tokens'.toList.map (fun t => (t.kind, t.span)) = tokens.toList.map fun t => (t.kind, t.span)) ∧
    (∀ t, parse source = .ok t → parse source' = .ok { t with source := source' } ∧
      ∀ list, Tree.exposures { t with source := source' } list = t.exposures list) ∧
    ∀ e, parse source = .error e →
      ∃ e', parse source' = .error e' ∧ e'.withoutFound = e.withoutFound := by
  obtain ⟨hok, herror⟩ := parse_recased htokens h
  refine ⟨?_, ?_, herror⟩
  · obtain ⟨tokens', htokens', heof, hsame⟩ := tokenize_recased htokens h
    refine ⟨tokens', htokens', ?_⟩
    have hplaces : tokens.tokens.map (fun t => (t.kind, t.span)) =
        tokens'.tokens.map fun t => (t.kind, t.span) := by
      refine map_eq_of_rel ?_ hsame
      intro t t' ht
      rw [ht.kind, ht.span]
    rw [TokenSequence.toList, TokenSequence.toList, List.map_append, List.map_append, hplaces, heof]
  · intro t hparse
    exact ⟨hok t hparse, Tree.exposures_recased hparse h.letters⟩

/-- A procedure in small letters, with a string whose delimiter is a letter. -/
theorem sameProgram_of_recasing_of_quotation : ∃ tokens t,
    tokenize "CREATE PROCEDURE p(x CHAR) IS BEGIN EXECUTE IMMEDIATE NQ'zAbz' || x; END;" = .ok tokens ∧
      Recasing "CREATE PROCEDURE p(x CHAR) IS BEGIN EXECUTE IMMEDIATE NQ'zAbz' || x; END;"
        "create procedure P(X char) is begin execute immediate nq'zAbz' || X; end;" tokens ∧
      parse "CREATE PROCEDURE p(x CHAR) IS BEGIN EXECUTE IMMEDIATE NQ'zAbz' || x; END;" = .ok t ∧
      t.exposures ⟨[]⟩ ≠ [] ∧
      parse "create procedure P(X char) is begin execute immediate nq'zAbz' || X; end;" =
        .ok ⟨"create procedure P(X char) is begin execute immediate nq'zAbz' || X; end;", t.root⟩ ∧
      Tree.exposures
        ⟨"create procedure P(X char) is begin execute immediate nq'zAbz' || X; end;", t.root⟩ ⟨[]⟩ =
        t.exposures ⟨[]⟩ := by
  obtain ⟨t, hparse, ht⟩ := exists_parse
    "CREATE PROCEDURE p(x CHAR) IS BEGIN EXECUTE IMMEDIATE NQ'zAbz' || x; END;"
    (fun t => !(t.exposures ⟨[]⟩).isEmpty) (by decide +kernel)
  obtain ⟨-, -, tokens, htokens, -⟩ := parse_spells hparse
  have hletters : Text.Recased
      "CREATE PROCEDURE p(x CHAR) IS BEGIN EXECUTE IMMEDIATE NQ'zAbz' || x; END;"
      "create procedure P(X char) is begin execute immediate nq'zAbz' || X; end;" := by
    unfold Text.Recased SameLetters
    decide +kernel
  have htest : (tokenize
      "CREATE PROCEDURE p(x CHAR) IS BEGIN EXECUTE IMMEDIATE NQ'zAbz' || x; END;").toOption.any
      (fun tokens => decide (∀ t ∈ tokens.tokens, t.kind = .string →
        Lexeme.quotedPart (t.span.text
          "create procedure P(X char) is begin execute immediate nq'zAbz' || X; end;").toList =
          Lexeme.quotedPart t.text.toList)) = true := by
    decide +kernel
  rw [htokens] at htest
  have hrecasing : Recasing _ _ tokens := ⟨hletters, of_decide_eq_true htest⟩
  obtain ⟨-, hok, -⟩ := sameProgram_of_recasing htokens hrecasing
  obtain ⟨hparse', hexposures⟩ := hok t hparse
  exact ⟨tokens, t, htokens, hrecasing, hparse, by simpa using ht, hparse', hexposures ⟨[]⟩⟩

end PlsqlAudit
