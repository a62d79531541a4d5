import Mathlib.Data.String.Basic
import PlsqlAudit.Proofs.Reading

/-!
# Where tokens stand

The lexemes of a text join up to it, and a token is a lexeme with the place it is
met at.  So each token starts after the text of the lexemes before it: its offset
is the number of bytes of that text, its line and column are read off it, and
tokens stand one after the other.
-/

namespace PlsqlAudit

/-! ### Positions -/

namespace Position

/-- Going past two texts is going past the first and then past the second. -/
theorem after_append (p : Position) (first second : List Char) :
    p.after (first ++ second) = (p.after first).after second := List.foldl_append

/-- A character moves the offset by its bytes in UTF-8. -/
theorem offset_advance (p : Position) (c : Char) :
    (p.advance c).offset = p.offset + c.utf8Size := by
  rw [advance]
  split <;> rfl

/-- A text moves the offset by its bytes in UTF-8. -/
theorem offset_after (p : Position) (text : List Char) :
    (p.after text).offset = p.offset + String.utf8Len text := by
  induction text generalizing p with
  | nil => rfl
  | cons c rest ih =>
    have hstep : p.after (c :: rest) = (p.advance c).after rest := rfl
    rw [hstep, ih, offset_advance, String.utf8Len_cons]
    omega

/-- The line counter moves on by the line feeds of a text, in 32 bits. -/
theorem line_after (p : Position) (text : List Char) :
    (p.after text).line = p.line + UInt32.ofNat (text.count '\n') := by
  induction text generalizing p with
  | nil => simp [after]
  | cons c rest ih =>
    have hstep : p.after (c :: rest) = (p.advance c).after rest := rfl
    rw [hstep, ih, advance, List.count_cons]
    by_cases hc : c = '\n'
    · simp only [hc, if_true, beq_self_eq_true, UInt32.ofNat_add]
      rw [UInt32.add_assoc, UInt32.add_comm 1]
      rfl
    · simp [hc]

/-- The column counter counts the characters since the line began, in 32 bits. -/
theorem column_after (text : List Char) :
    (start.after text).column =
      UInt32.ofNat (1 + (text.reverse.takeWhile (· != '\n')).length) := by
  induction hreversed : text.reverse generalizing text with
  | nil =>
    obtain rfl := List.reverse_eq_nil_iff.1 hreversed
    rfl
  | cons c rest ih =>
    obtain rfl : text = rest.reverse ++ [c] := by
      rw [← List.reverse_reverse text, hreversed, List.reverse_cons]
    have hstep : start.after (rest.reverse ++ [c]) = (start.after rest.reverse).advance c :=
      after_append _ _ _
    rw [hstep, advance, List.takeWhile_cons]
    by_cases hc : c = '\n'
    · simp [hc]
    · have hrest := ih rest.reverse (List.reverse_reverse rest)
      have hnext : (c != '\n') = true := by simpa using hc
      simp only [hc, if_false, hrest, hnext, if_true, List.length_cons, ← Nat.add_assoc,
        UInt32.ofNat_add]
      rfl

end Position

/-! ### Lexemes and tokens -/

namespace Lexeme

/-- The text of several lexemes. -/
def join (lexemes : List Lexeme) : List Char := lexemes.flatMap Lexeme.text

/-- Where a text is cut completely, the lexemes found before and those found in it join up to the
whole text. -/
theorem lexemesFrom_join {done : List Lexeme} {cs : List Char} {lexemes : List Lexeme}
    (h : lexemesFrom done cs = (lexemes, none)) : join lexemes = join done.reverse ++ cs := by
  fun_induction lexemesFrom done cs with
  | case1 done =>
    obtain ⟨rfl, -⟩ := Prod.mk.inj h
    simp
  | case2 done c rest what hscan => simp at h
  | case3 done c rest lexeme after hscan ih =>
    rw [ih h, ← scan_of hscan]
    simp [join]

/-- The lexemes of a text that is cut completely join up to it. -/
theorem lexemes_join {cs : List Char} {list : List Lexeme} (h : lexemes cs = (list, none)) :
    join list = cs := lexemesFrom_join h

/-- Even where a text is not cut completely, the lexemes that were found join up to the start of
it. -/
theorem join_lexemesFrom_isPrefix (done : List Lexeme) (cs : List Char) :
    join (lexemesFrom done cs).1 <+: join done.reverse ++ cs := by
  fun_induction lexemesFrom done cs with
  | case1 done => simp
  | case2 done c rest what hscan => exact List.prefix_append _ _
  | case3 done c rest lexeme after hscan ih =>
    have htext : join (lexeme :: done).reverse ++ after = join done.reverse ++ (c :: rest) := by
      rw [← scan_of hscan]
      simp [join]
    exact htext ▸ ih

/-- What is cut off a text before something in it is not closed stands in front. -/
theorem join_lexemes_isPrefix (cs : List Char) : join (lexemes cs).1 <+: cs :=
  join_lexemesFrom_isPrefix [] cs

/-- Lexemes that were read before stay in front of those that are found, and do not influence them.
-/
theorem lexemesFrom_append (done before : List Lexeme) (cs : List Char) :
    lexemesFrom (done ++ before) cs =
      (before.reverse ++ (lexemesFrom done cs).1, (lexemesFrom done cs).2) := by
  fun_induction lexemesFrom done cs with
  | case1 done => simp [lexemesFrom]
  | case2 done c rest what hscan =>
    rw [lexemesFrom]
    split
    case h_1 hscan' =>
      obtain rfl : _ = what := Except.error.inj (hscan'.symm.trans hscan)
      simp
    case h_2 hscan' => simp [hscan] at hscan'
  | case3 done c rest lexeme after hscan ih =>
    rw [lexemesFrom]
    split
    case h_1 hscan' => simp [hscan] at hscan'
    case h_2 hscan' =>
      obtain ⟨rfl, rfl⟩ := Prod.mk.inj (Except.ok.inj (hscan'.symm.trans hscan))
      exact ih

/-- The lexemes of a text are the first one and those of the rest. -/
theorem lexemes_cons {c : Char} {rest after : List Char} {l : Lexeme}
    (h : scan c rest = .ok (l, after)) :
    lexemes (c :: rest) = (l :: (lexemes after).1, (lexemes after).2) := by
  rw [lexemes, lexemesFrom]
  split
  case h_1 hscan => simp [h] at hscan
  case h_2 hscan =>
    obtain ⟨hl, hafter⟩ := Prod.mk.inj (Except.ok.inj (hscan.symm.trans h))
    rw [hl, hafter]
    simpa [lexemes] using lexemesFrom_append [] [l] after

/-- The first of the lexemes of a text is scanned at its first character, and the others are the
lexemes of what is left behind it. -/
theorem exists_scan_of_lexemes {cs : List Char} {l : Lexeme} {tail : List Lexeme}
    (h : lexemes cs = (l :: tail, none)) :
    ∃ c rest after, cs = c :: rest ∧ scan c rest = .ok (l, after) ∧ lexemes after = (tail, none) := by
  cases cs with
  | nil => simp [lexemes, lexemesFrom] at h
  | cons c rest =>
    cases hscan : scan c rest with
    | error what =>
      rw [lexemes, lexemesFrom] at h
      split at h
      case h_1 => simp at h
      case h_2 hok => simp [hscan] at hok
    | ok result =>
      obtain ⟨first, after⟩ := result
      rw [lexemes_cons hscan] at h
      obtain ⟨hlist, hnone⟩ := Prod.mk.inj h
      obtain ⟨rfl, htail⟩ := List.cons.inj hlist
      exact ⟨c, rest, after, rfl, hscan, Prod.ext htail hnone⟩

/-- The tokens among lexemes of which the first stands at `p`. -/
def tokensFrom (p : Position) : List Lexeme → List Token
  | [] => []
  | lexeme :: rest =>
    match lexeme.kind with
    | .token kind =>
      ⟨kind, String.ofList lexeme.text, Span.between p (p.after lexeme.text)⟩ ::
        tokensFrom (p.after lexeme.text) rest
    | _ => tokensFrom (p.after lexeme.text) rest

/-- Folding over lexemes goes past their texts and collects their tokens, the last one first. -/
theorem foldl_step (list : List Lexeme) (p : Position) (found : List Token) :
    list.foldl TokenSequence.step (p, found) =
      (p.after (join list), (tokensFrom p list).reverse ++ found) := by
  induction list generalizing p found with
  | nil => rfl
  | cons lexeme rest ih =>
    rw [List.foldl_cons, TokenSequence.step, tokensFrom]
    have hjoin : join (lexeme :: rest) = lexeme.text ++ join rest := rfl
    rw [hjoin, Position.after_append]
    cases lexeme.kind <;> simp [ih]

/-- A token is a lexeme at the place where the lexemes before it end. -/
theorem mem_tokensFrom {list : List Lexeme} {p : Position} {token : Token}
    (h : token ∈ tokensFrom p list) :
    ∃ before lexeme after, list = before ++ lexeme :: after ∧
      lexeme.kind = .token token.kind ∧ token.text = String.ofList lexeme.text ∧
      token.span = Span.between (p.after (join before)) ((p.after (join before)).after lexeme.text) := by
  induction list generalizing p with
  | nil => simp [tokensFrom] at h
  | cons first rest ih =>
    have later (h : token ∈ tokensFrom (p.after first.text) rest) :
        ∃ before lexeme after, first :: rest = before ++ lexeme :: after ∧
          lexeme.kind = .token token.kind ∧ token.text = String.ofList lexeme.text ∧
          token.span =
            Span.between (p.after (join before)) ((p.after (join before)).after lexeme.text) := by
      obtain ⟨before, lexeme, after, rfl, hkind, htext, hspan⟩ := ih h
      refine ⟨first :: before, lexeme, after, rfl, hkind, htext, ?_⟩
      have hjoin : join (first :: before) = first.text ++ join before := rfl
      rw [hjoin, Position.after_append, hspan]
    rw [tokensFrom] at h
    split at h
    case h_1 kind hkind =>
      rcases List.mem_cons.1 h with rfl | h
      · exact ⟨[], first, rest, rfl, hkind, rfl, rfl⟩
      · exact later h
    case h_2 => exact later h

/-- No token starts before the place that the lexemes start at. -/
theorem offset_le_of_mem_tokensFrom {list : List Lexeme} {p : Position} {token : Token}
    (h : token ∈ tokensFrom p list) : p.offset ≤ token.span.offset := by
  obtain ⟨before, lexeme, after, -, -, -, hspan⟩ := mem_tokensFrom h
  rw [hspan, Span.between, Position.offset_after]
  exact Nat.le_add_right _ _

/-- Tokens stand one after the other: each starts where the one before it ends, or later. -/
theorem ordered_tokensFrom (list : List Lexeme) (p : Position) : Ordered (tokensFrom p list) := by
  induction list generalizing p with
  | nil => exact List.Pairwise.nil
  | cons lexeme rest ih =>
    rw [tokensFrom]
    split
    · refine List.Pairwise.cons ?_ (ih _)
      intro token htoken
      have hle := offset_le_of_mem_tokensFrom htoken
      rw [Position.offset_after] at hle
      simp only [Span.stop, Span.between, Position.offset_after]
      omega
    · exact ih _

end Lexeme

/-- The tokens of a text are those of its lexemes, and the end of the input is a token of its own
kind that is not among them. -/
theorem tokenize_spec {source : String} {tokens : TokenSequence}
    (h : tokenize source = .ok tokens) :
    ∃ list, Lexeme.lexemes source.toList = (list, none) ∧
      tokens.tokens = Lexeme.tokensFrom .start list ∧ tokens.eof.kind = .eof := by
  cases hlexemes : Lexeme.lexemes source.toList with
  | mk list unclosed =>
    rw [tokenize, hlexemes] at h
    simp only [Lexeme.foldl_step, List.append_nil, List.reverse_reverse] at h
    cases unclosed with
    | some what => simp at h
    | none =>
      obtain rfl := Except.ok.inj h
      exact ⟨list, rfl, rfl, rfl⟩

/-- The stream before the first token of a text is sound. -/
theorem Stream.sound_start {source : String} {tokens : TokenSequence}
    (h : tokenize source = .ok tokens) : (Stream.start source tokens).Sound := by
  obtain ⟨list, -, htokens, heof⟩ := tokenize_spec h
  refine ⟨heof, ?_⟩
  rw [Stream.start, htokens]
  exact Lexeme.ordered_tokensFrom list .start

/-! ### What a span covers -/

/-- A span that starts behind one part of a text and ends behind the next covers that next part. -/
theorem Span.text_eq_ofList {span : Span} {source : String} {before middle after : List Char}
    (hsource : source.toList = before ++ middle ++ after)
    (hoffset : span.offset = String.utf8Len before)
    (hstop : span.stop = String.utf8Len before + String.utf8Len middle) :
    span.text source = String.ofList middle := by
  rw [Span.text, hstop, hoffset, ← String.ofList_toList (s := source), hsource]
  exact String.extract_of_valid before middle after

/-- A span of `source` that covers `middle`, after `before` and in front of
`after`.  Its line and column are those of the first character it covers, as far as
32 bits can tell. -/
structure Span.Covers (span : Span) (source : String) (before middle after : List Char) : Prop where
  text : source.toList = before ++ middle ++ after
  offset : span.offset = (String.ofList before).utf8ByteSize
  length : span.length = (String.ofList middle).utf8ByteSize
  line : span.line = UInt32.ofNat (1 + before.count '\n')
  column : span.column = UInt32.ofNat (1 + (before.reverse.takeWhile (· != '\n')).length)

namespace Span.Covers

variable {span : Span} {source : String} {before middle after : List Char}

/-- A span ends behind what is in front of it and what it covers. -/
theorem stop_eq (h : span.Covers source before middle after) :
    span.stop = String.utf8Len before + String.utf8Len middle := by
  rw [stop, h.offset, h.length, String.utf8ByteSize_ofList, String.utf8ByteSize_ofList]

/-- A span starts behind what is in front of it. -/
theorem offset_eq (h : span.Covers source before middle after) :
    span.offset = String.utf8Len before := by
  rw [h.offset, String.utf8ByteSize_ofList]

/-- A span ends behind the text up to the end of what it covers. -/
theorem stop_eq_upto (h : span.Covers source before middle after) :
    span.stop = String.utf8Len (before ++ middle) := by
  rw [h.stop_eq, String.utf8Len_append]

/-- What is in front of a span is the start of the text. -/
theorem isPrefix_before (h : span.Covers source before middle after) : before <+: source.toList :=
  ⟨middle ++ after, by rw [h.text, List.append_assoc]⟩

/-- What is in front of a span, together with what it covers, is the start of the text. -/
theorem isPrefix_upto (h : span.Covers source before middle after) :
    before ++ middle <+: source.toList := ⟨after, h.text.symm⟩

/-- The text of a span, taken by its offset and its length in bytes, is what it covers. -/
theorem text_eq (h : span.Covers source before middle after) :
    span.text source = String.ofList middle := Span.text_eq_ofList h.text h.offset_eq h.stop_eq

/-- Where the line feeds of a text can be counted in 32 bits, the line of a span is one
more than the number of line feeds in front of it. -/
theorem toNat_line (h : span.Covers source before middle after)
    (hfeeds : source.toList.count '\n' < 2 ^ 32 - 1) :
    span.line.toNat = 1 + before.count '\n' := by
  have hle := h.isPrefix_before.sublist.count_le '\n'
  rw [h.line, UInt32.toNat_ofNat']
  omega

/-- So it is in a text whose characters can be counted in 32 bits. -/
theorem toNat_line_of_short (h : span.Covers source before middle after)
    (hshort : source.length < 2 ^ 32 - 1) : span.line.toNat = 1 + before.count '\n' := by
  refine h.toNat_line (Nat.lt_of_le_of_lt ?_ hshort)
  rw [← String.length_toList]
  exact List.count_le_length

/-- In a text whose characters can be counted in 32 bits, the column of a span is one
more than the number of characters in front of it on its line. -/
theorem toNat_column (h : span.Covers source before middle after)
    (hshort : source.length < 2 ^ 32 - 1) :
    span.column.toNat = 1 + (before.reverse.takeWhile (· != '\n')).length := by
  have hrun : (before.reverse.takeWhile (· != '\n')).length ≤ before.length := by
    simpa using (List.takeWhile_sublist (· != '\n') (l := before.reverse)).length_le
  have hle := h.isPrefix_before.length_le
  rw [String.length_toList] at hle
  rw [h.column, UInt32.toNat_ofNat']
  omega

/-- In a text short enough for the counters the line of a span is counted by the line feeds in
front of it, and its column by the characters since the last of them. -/
theorem exact (h : span.Covers source before middle after)
    (hshort : source.length < 2 ^ 32 - 1) :
    span.line.toNat = 1 + before.count '\n' ∧
      span.column.toNat = 1 + (before.reverse.takeWhile (· != '\n')).length :=
  ⟨h.toNat_line_of_short hshort, h.toNat_column hshort⟩

/-- However long a text is, no line number is larger than the number of its lines. -/
theorem toNat_line_le (h : span.Covers source before middle after) :
    span.line.toNat ≤ 1 + source.toList.count '\n' := by
  have hle := h.isPrefix_before.sublist.count_le '\n'
  rw [h.line, UInt32.toNat_ofNat']
  omega

end Span.Covers

/-- Of two texts in front of one text, the one with fewer bytes is in front of the
other. -/
theorem isPrefix_of_utf8Len_le {a b text : List Char} (ha : a <+: text) (hb : b <+: text)
    (hle : String.utf8Len a ≤ String.utf8Len b) : a <+: b := by
  rcases List.prefix_or_prefix_of_prefix ha hb with h | ⟨rest, rfl⟩
  · exact h
  · rw [String.utf8Len_append] at hle
    have hrest : String.utf8Len rest = 0 := by omega
    obtain rfl := String.utf8Len_eq_zero.1 hrest
    simp

/-- A span that starts and stops between characters has a text in between. -/
theorem Span.exists_middle {span : Span} {source : String} {before upto : List Char}
    (hbefore : before <+: source.toList) (hupto : upto <+: source.toList)
    (hoffset : span.offset = String.utf8Len before) (hstop : span.stop = String.utf8Len upto) :
    ∃ middle after, source.toList = before ++ middle ++ after ∧
      span.stop = String.utf8Len before + String.utf8Len middle := by
  have hle : String.utf8Len before ≤ String.utf8Len upto := by
    rw [← hoffset, ← hstop, stop]
    exact Nat.le_add_right _ _
  obtain ⟨middle, rfl⟩ := isPrefix_of_utf8Len_le hbefore hupto hle
  obtain ⟨after, hsource⟩ := hupto
  exact ⟨middle, after, hsource.symm, by rw [hstop, String.utf8Len_append]⟩

/-- A span between two positions of a text covers what stands there. -/
theorem Span.covers_between {source : String} {before middle after : List Char}
    (hsource : source.toList = before ++ middle ++ after) :
    (between (Position.start.after before) ((Position.start.after before).after middle)).Covers
      source before middle after := by
  refine ⟨hsource, ?_, ?_, ?_, ?_⟩
  · rw [between, Position.offset_after, String.utf8ByteSize_ofList, Position.start, Nat.zero_add]
  · rw [between, Position.offset_after _ middle, String.utf8ByteSize_ofList]
    exact Nat.add_sub_cancel_left _ _
  · rw [between, Position.line_after, Position.start, UInt32.ofNat_add]
    rfl
  · rw [between, Position.column_after]

/-- A token covers the text of its lexeme, between the texts of the lexemes before and after it. -/
theorem token_covers {source : String} {list : List Lexeme} {token : Token}
    (hlexemes : Lexeme.lexemes source.toList = (list, none))
    (htoken : token ∈ Lexeme.tokensFrom .start list) :
    ∃ before lexeme after, list = before ++ lexeme :: after ∧ lexeme.kind = .token token.kind ∧
      token.text = String.ofList lexeme.text ∧
      token.span.Covers source (Lexeme.join before) lexeme.text (Lexeme.join after) := by
  obtain ⟨before, lexeme, after, rfl, hkind, htext, hspan⟩ := Lexeme.mem_tokensFrom htoken
  refine ⟨before, lexeme, after, rfl, hkind, htext, ?_⟩
  rw [hspan]
  apply Span.covers_between
  rw [← Lexeme.lexemes_join hlexemes]
  simp [Lexeme.join]

/-- The text of a token is what its span covers in the source. -/
theorem token_text {source : String} {tokens : TokenSequence} {token : Token}
    (htokens : tokenize source = .ok tokens) (htoken : token ∈ tokens.tokens) :
    token.text = token.span.text source := by
  obtain ⟨list, hlist, hall, -⟩ := tokenize_spec htokens
  obtain ⟨before, lexeme, after, -, -, htext, hcovers⟩ := token_covers hlist (hall ▸ htoken)
  rw [htext, hcovers.text_eq]

end PlsqlAudit
