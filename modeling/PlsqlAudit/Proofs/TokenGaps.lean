import Mathlib.Data.List.TakeWhile
import PlsqlAudit.Proofs.LineBreaks

/-!
# Tokens and the gaps between them

A text is made up of its tokens and of what stands between them.  A gap holds
nothing but blanks and comments (`Lexeme.Gap`): a line comment goes on up to the
next line feed or to the end of the text, and a block comment up to the first
place where it can be closed.

`Fills` goes through a text from the front: a gap, a token, and again, up to a gap
behind the last token.  Since each token comes with the text in front of it, its
offset, line and column are read off the same account.
-/

namespace PlsqlAudit

namespace Lexeme

/-- What stands between two tokens, in front of the text `rest`. -/
inductive Gap (rest : List Char) : List Char → Prop
  | nil : Gap rest []
  | blank {c : Char} {gap : List Char} (hblank : Text.isBlank c = true) (hgap : Gap rest gap) :
    Gap rest (c :: gap)
  | lineComment {body gap : List Char} (hbody : '\n' ∉ body)
    (hend : ∀ c ∈ (gap ++ rest).head?, c = '\n') (hgap : Gap rest gap) :
    Gap rest ('-' :: '-' :: body ++ gap)
  | blockComment {body gap : List Char} (hbody : ¬ ['*', '/'] <:+: body ++ ['*'])
    (hgap : Gap rest gap) : Gap rest ('/' :: '*' :: body ++ '*' :: '/' :: gap)

variable {cs rest after : List Char} {cut : Cut} {l : Lexeme} {c : Char}

/-- What is closed by a pair is closed at the first place where the pair stands. -/
theorem closePair_first {first second : Char} (h : closePair first second cs = some cut) :
    ∃ body, cut.1 = body ++ [first, second] ∧ ¬ [first, second] <:+: body ++ [first] := by
  induction cs generalizing cut with
  | nil => simp [closePair] at h
  | cons c rest ih =>
    rw [closePair] at h
    by_cases hpair : (c == first && rest.head? == some second) = true
    · rw [if_pos hpair] at h
      obtain rfl := Option.some.inj h
      have hc : c = first := by simpa using (Bool.and_eq_true_iff.1 hpair).1
      refine ⟨[], by simp [hc], ?_⟩
      intro hinfix
      simpa using hinfix.length_le
    · rw [if_neg hpair] at h
      obtain ⟨inner, hinner, rfl⟩ := Option.map_eq_some_iff.1 h
      obtain ⟨body, hbody, hfree⟩ := ih hinner
      refine ⟨c :: body, by simp [Cut.push, hbody], ?_⟩
      intro hinfix
      rw [List.cons_append] at hinfix
      rcases List.infix_cons_iff.1 hinfix with hprefix | hinfix
      · obtain ⟨rfl, hnext⟩ := List.cons_prefix_cons.1 hprefix
        have hrest : rest = body ++ [first] ++ second :: inner.2 := by
          have hof := closePair_of hinner
          rw [Cut.Of, hbody] at hof
          simpa using hof.symm
        have hhead : rest.head? = some second := by
          obtain ⟨tail, htail⟩ := hnext
          rw [hrest, ← htail]
          rfl
        exact hpair (by simp [hhead])
      · exact hfree hinfix

/-- What is read in front of a gap and is no token lengthens the gap. -/
theorem gap_of_scan (hscan : scan c rest = .ok (l, after)) (hkind : ∀ kind, l.kind ≠ .token kind)
    {gap behind : List Char} (hafter : after = gap ++ behind) (hgap : Gap behind gap) :
    Gap behind (l.text ++ gap) := by
  have hshown := shown_opening c rest
  rw [kind_of_scan hscan] at hkind
  rw [scan_eq_read] at hscan
  generalize opening c rest = o at hscan hshown hkind
  cases o with
  | blank =>
    obtain ⟨rfl, rfl⟩ := Prod.mk.inj (Except.ok.inj hscan)
    exact .blank hshown hgap
  | lineComment =>
    obtain ⟨rfl, hdrop⟩ := Prod.mk.inj (Except.ok.inj hscan)
    obtain ⟨rfl, hhead⟩ := hshown
    obtain ⟨tail, rfl⟩ := List.head?_eq_some_iff.1 hhead
    rw [List.dropWhile_cons_of_pos (by decide)] at hdrop
    rw [List.takeWhile_cons_of_pos (by decide)]
    apply Gap.lineComment
    · intro hmem
      simpa using List.mem_takeWhile_imp hmem
    · intro d hd
      rw [← hafter, ← hdrop] at hd
      have hstop := List.head?_dropWhile_not (fun c => c != '\n') tail
      rw [Option.mem_def.1 hd] at hstop
      simpa using hstop
    · exact hgap
  | blockComment =>
    obtain ⟨rfl, -⟩ := hshown
    obtain ⟨inner, hinner, hcut⟩ := Option.map_eq_some_iff.1 (closed_ok hscan)
    obtain ⟨htext, -⟩ := Prod.mk.inj hcut
    obtain ⟨body, hbody, hfree⟩ := closePair_first hinner
    have hcomment : l.text ++ gap = '/' :: '*' :: body ++ '*' :: '/' :: gap := by
      rw [← htext]
      simp [Cut.push, hbody]
    rw [hcomment]
    exact .blockComment hfree hgap
  | _ => exact absurd rfl (hkind _)

end Lexeme

/-- Gaps and the tokens `tokens` in turn, from `before` on up to the end of the text:
`rest` is what they make up. -/
inductive Fills (source : String) : List Char → List Token → List Char → Prop
  | finish {before gap : List Char} (hgap : Lexeme.Gap [] gap) : Fills source before [] gap
  | token {before gap text rest : List Char} {t : Token} {tokens : List Token}
    (hgap : Lexeme.Gap (text ++ rest) gap) (hne : text ≠ []) (htext : t.text = String.ofList text)
    (hcovers : t.span.Covers source (before ++ gap) text rest)
    (hrest : Fills source (before ++ gap ++ text) tokens rest) :
    Fills source before (t :: tokens) (gap ++ (text ++ rest))

namespace Fills

variable {source : String} {before cs : List Char} {tokens : List Token}

/-- What is read in front of an account and is no token goes into its first gap. -/
theorem of_scan {c : Char} {rest after : List Char} {l : Lexeme}
    (hscan : Lexeme.scan c rest = .ok (l, after)) (hkind : ∀ kind, l.kind ≠ .token kind)
    (h : Fills source (before ++ l.text) tokens after) :
    Fills source before tokens (l.text ++ after) := by
  cases h with
  | finish hgap =>
    exact .finish (Lexeme.gap_of_scan hscan hkind (List.append_nil _).symm hgap)
  | token hgap hne htext hcovers hrest =>
    have hlonger := Lexeme.gap_of_scan hscan hkind rfl hgap
    rw [List.append_assoc before] at hcovers hrest
    rw [← List.append_assoc l.text]
    exact .token hlonger hne htext hcovers hrest

/-- A token goes in front of an account, with no gap between. -/
theorem cons {text : List Char} {t : Token} (h : Fills source (before ++ text) tokens cs)
    (hne : text ≠ []) (htext : t.text = String.ofList text)
    (hcovers : t.span.Covers source before text cs) :
    Fills source before (t :: tokens) (text ++ cs) := by
  rw [← List.append_nil before] at hcovers h
  have hfills := Fills.token .nil hne htext hcovers h
  exact hfills

/-- The lexemes of the rest of a text account for it. -/
theorem of_lexemes {list : List Lexeme} (h : Lexeme.lexemes cs = (list, none))
    (hsource : source.toList = before ++ cs) :
    Fills source before (Lexeme.tokensFrom (Position.start.after before) list) cs := by
  induction list generalizing cs before with
  | nil =>
    obtain rfl : [] = cs := Lexeme.lexemes_join h
    exact .finish .nil
  | cons l list ih =>
    obtain ⟨c, rest, after, rfl, hscan, hafter⟩ := Lexeme.exists_scan_of_lexemes h
    rw [← Lexeme.scan_of hscan] at hsource ⊢
    rw [← List.append_assoc] at hsource
    have htail := ih hafter hsource
    rw [Position.after_append] at htail
    rw [Lexeme.tokensFrom]
    split
    case h_1 => exact htail.cons (Lexeme.scan_ne_nil hscan) rfl (Span.covers_between hsource)
    case h_2 hkind => exact htail.of_scan hscan hkind

/-- Each token of an account covers its text, which is not empty. -/
theorem exists_covers (h : Fills source before tokens cs) {t : Token} (ht : t ∈ tokens) :
    ∃ start text rest, text ≠ [] ∧ t.text = String.ofList text ∧
      t.span.Covers source start text rest := by
  induction h with
  | finish => cases ht
  | token _ hne htext hcovers _ ih =>
    rcases List.mem_cons.1 ht with rfl | ht
    · exact ⟨_, _, _, hne, htext, hcovers⟩
    · exact ih ht

end Fills

/-- No token is empty. -/
theorem length_pos_of_tokenize {source : String} {s : TokenSequence} {t : Token}
    (h : tokenize source = .ok s) (ht : t ∈ s.tokens) : 0 < t.span.length := by
  obtain ⟨list, hlist, htokens, -⟩ := tokenize_spec h
  rw [htokens] at ht
  have hfills : Fills source [] (Lexeme.tokensFrom .start list) source.toList :=
    Fills.of_lexemes hlist rfl
  obtain ⟨_, text, _, hne, -, hcovers⟩ := hfills.exists_covers ht
  rw [hcovers.length, String.utf8ByteSize_ofList, Nat.pos_iff_ne_zero]
  exact fun hzero => hne (String.utf8Len_eq_zero.1 hzero)

/-- The tokens of `source`, each of them in its place, and nothing but gaps between
them. -/
structure TokenSequence.Partitions (s : TokenSequence) (source : String) : Prop where
  fills : Fills source [] s.tokens source.toList
  kinds : ∀ t ∈ s.tokens, t.kind ≠ .eof
  positive : ∀ t ∈ s.tokens, 0 < t.span.length
  /-- A token has the line and the column of its first character in 32 bits, and these are
  the numbers themselves where the characters of the text can be counted there. -/
  covers : ∀ t ∈ s.toList, ∃ before text after, t.text = String.ofList text ∧
    t.span.Covers source before text after ∧
    (source.length < 2 ^ 32 - 1 → t.span.line.toNat = 1 + before.count '\n' ∧
      t.span.column.toNat = 1 + (before.reverse.takeWhile (· != '\n')).length)
  ordered : s.toList.Pairwise fun a b => a.span.offset < b.span.offset ∧
    a.span.stop ≤ b.span.offset
  eof : s.eof.kind = .eof ∧ s.eof.span.offset = source.utf8ByteSize ∧ s.eof.span.length = 0

/-- **Tokens and gaps make up a text.**  The tokens of a text stand one behind the
other, each at the offset, line and column that the text in front of it gives, and
between them stand nothing but blanks and comments; the end of the text, and
nothing else, is a token of its own kind. -/
theorem partitions_of_tokenize {source : String} {s : TokenSequence}
    (h : tokenize source = .ok s) : s.Partitions source := by
  obtain ⟨list, hlist, htokens, heof⟩ := tokenize_spec h
  obtain ⟨hempty, hend⟩ := eof_covers h
  have hfills : Fills source [] s.tokens source.toList := by
    rw [htokens]
    exact Fills.of_lexemes hlist rfl
  have hpositive : ∀ t ∈ s.tokens, 0 < t.span.length := fun t ht => length_pos_of_tokenize h ht
  have hinside : ∀ t ∈ s.tokens, t.span.stop ≤ s.eof.span.offset := by
    intro t ht
    obtain ⟨_, _, _, -, -, hcovers⟩ := hfills.exists_covers ht
    rw [hend.offset_eq, hcovers.text, String.utf8Len_append, ← hcovers.stop_eq_upto]
    exact Nat.le_add_right _ _
  have hbehind : ∀ a ∈ s.tokens, ∀ b : Token, a.span.stop ≤ b.span.offset →
      a.span.offset < b.span.offset ∧ a.span.stop ≤ b.span.offset := by
    intro a ha b hstop
    refine ⟨Nat.lt_of_lt_of_le ?_ hstop, hstop⟩
    exact Nat.lt_add_of_pos_right (hpositive a ha)
  refine ⟨hfills, ?_, hpositive, ?_, ?_, heof, ?_, ?_⟩
  · intro t ht
    rw [htokens] at ht
    exact Lexeme.kind_ne_eof_of_mem_tokensFrom hlist ht
  · intro t ht
    rcases List.mem_append.1 ht with ht | ht
    · obtain ⟨before, text, after, -, htext, hcovers⟩ := hfills.exists_covers ht
      exact ⟨before, text, after, htext, hcovers, hcovers.exact⟩
    · obtain rfl := List.mem_singleton.1 ht
      exact ⟨_, _, _, hempty, hend, hend.exact⟩
  · refine List.pairwise_append.2 ⟨?_, List.pairwise_singleton _ _, ?_⟩
    · rw [htokens]
      apply (Lexeme.ordered_tokensFrom list .start).imp_of_mem
      intro a b ha _ hstop
      exact hbehind a (htokens ▸ ha) b hstop
    · intro a ha last hlast
      obtain rfl := List.mem_singleton.1 hlast
      exact hbehind a ha _ (hinside a ha)
  · rw [hend.offset, String.ofList_toList]
  · rw [hend.length]
    rfl

/-- A block comment with a letter of two bytes and a star too many, a string over
two lines, and a line comment that the end of the text ends. -/
theorem partitions_of_tokenize_of_comments : ∃ s,
    tokenize "/* é **/a 'é\n''' ..--b" = .ok s ∧
      s.toList.map Token.span =
        [⟨9, 1, 1, 9⟩, ⟨11, 7, 1, 11⟩, ⟨19, 2, 2, 5⟩, ⟨24, 0, 2, 10⟩] ∧
      s.Partitions "/* é **/a 'é\n''' ..--b" := by
  have htokens : tokenize "/* é **/a 'é\n''' ..--b" =
      .ok ⟨[⟨.word, "a", ⟨9, 1, 1, 9⟩⟩, ⟨.string, "'é\n'''", ⟨11, 7, 1, 11⟩⟩,
        ⟨.dotDot, "..", ⟨19, 2, 2, 5⟩⟩], ⟨.eof, "", ⟨24, 0, 2, 10⟩⟩⟩ := by decide +kernel
  exact ⟨_, htokens, by decide +kernel, partitions_of_tokenize htokens⟩

end PlsqlAudit
