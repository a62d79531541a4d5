import PlsqlAudit.Proofs.Dividers
import PlsqlAudit.Proofs.Embedding

/-!
# Lexemes on both sides of a line break

No lexeme but a block comment or a literal goes on past the end of a line, since a
line feed is a divider and ends a line comment.  So where a text is cut completely
into lexemes, a line feed and more text after it change none of them: the lexemes
of the whole are those of the text, the line feed, and those of what follows,
moved by the length of what stands before.
-/

namespace PlsqlAudit

namespace Lexeme

variable {cs rest after : List Char}

/-! ### All lexemes -/

/-- **Lexemes are cut at the end of a line.**  Where a text is cut completely, the
lexemes of a longer text that goes on after a line feed are its lexemes, the line
feed, and the lexemes of the rest. -/
theorem lexemes_newline {list : List Lexeme} (h : lexemes cs = (list, none)) (more : List Char) :
    lexemes (cs ++ '\n' :: more) =
      (list ++ ⟨.blank, ['\n']⟩ :: (lexemes more).1, (lexemes more).2) := by
  have hblank : scan '\n' more = .ok (⟨.blank, ['\n']⟩, more) := rfl
  rw [lexemes_divided (by decide) h (fun _ _ _ => rfl), lexemes_cons hblank]

/-! ### No lexeme stands for the end of the text -/

/-- No single character makes the token for the end of the input. -/
theorem single_ne_eof (c : Char) : single c ≠ .eof := by
  unfold single
  split <;> simp

/-- No pair of characters makes the token for the end of the input. -/
theorem double_ne_eof (c d : Char) : double c d ≠ some .eof := by
  unfold double
  split <;> simp

/-- No operator is the token for the end of the input. -/
theorem operator_ne_eof (c : Char) (rest : List Char) : (operator c rest).1 ≠ .eof := by
  cases rest with
  | nil => exact single_ne_eof c
  | cons d after =>
    rw [operator]
    cases hdouble : double c d with
    | none => exact single_ne_eof c
    | some kind => exact fun heof => double_ne_eof c d (hdouble.trans (congrArg some heof))

/-- Nothing that is scanned is the token for the end of the input. -/
theorem scan_ne_eof {c : Char} {l : Lexeme} (h : scan c rest = .ok (l, after)) :
    l.kind ≠ .token .eof := by
  rw [kind_of_scan h]
  cases opening c rest with
  | operator => simpa [Opening.kind] using operator_ne_eof c rest
  | _ => simp [Opening.kind]

/-- Among the lexemes of a text there is none for the end of the input, which is added behind
them. -/
theorem lexemesFrom_ne_eof {done : List Lexeme} (hdone : ∀ l ∈ done, l.kind ≠ .token .eof)
    (cs : List Char) : ∀ l ∈ (lexemesFrom done cs).1, l.kind ≠ .token .eof := by
  fun_induction lexemesFrom done cs with
  | case1 done => simpa using hdone
  | case2 done c rest what hscan => simpa using hdone
  | case3 done c rest lexeme after hscan ih =>
    refine ih fun l hl => ?_
    cases List.mem_cons.1 hl with
    | inl heq => exact heq ▸ scan_ne_eof hscan
    | inr hmem => exact hdone l hmem

/-- No token but the one for the end is of its kind. -/
theorem kind_ne_eof_of_mem_tokensFrom {list : List Lexeme} {p : Position} {t : Token}
    (hlist : lexemes cs = (list, none)) (ht : t ∈ tokensFrom p list) : t.kind ≠ .eof := by
  obtain ⟨before, lexeme, after, rfl, hkind, -⟩ := mem_tokensFrom ht
  have hmem : lexeme ∈ (lexemesFrom [] cs).1 := by
    rw [show lexemesFrom [] cs = lexemes cs from rfl, hlist]
    exact List.mem_append_right _ List.mem_cons_self
  intro heof
  exact lexemesFrom_ne_eof (by simp) cs lexeme hmem (by rw [hkind, heof])

end Lexeme

/-! ### Positions and tokens behind a line break -/

/-- How far a text is moved by the text `before` in front of it, which ends with a
line feed. -/
def Shift.past (before : String) : Shift := ⟨before.utf8ByteSize, before.toList.count '\n'⟩

/-- The token in the text that was moved. -/
def Token.shift (d : Shift) (t : Token) : Token := { t with span := t.span.shift d }

/-- The error in the text that was moved. -/
def ParseError.shift (d : Shift) : ParseError → ParseError
  | .unexpected line column found expected =>
    .unexpected (line + UInt32.ofNat d.lines) column found expected
  | .unterminated line column what => .unterminated (line + UInt32.ofNat d.lines) column what
  | .unexpectedEnd expected => .unexpectedEnd expected
  | .exhausted => .exhausted

namespace Position

/-- The position in the text that was moved. -/
def shift (d : Shift) (p : Position) : Position :=
  ⟨p.offset + d.bytes, p.line + UInt32.ofNat d.lines, p.column⟩

/-- A character moves the place in the moved text as it moves the place in the text: the
counters go round at the same number, so that none of the two is ahead. -/
theorem advance_shift (d : Shift) (p : Position) (c : Char) :
    (p.shift d).advance c = (p.advance c).shift d := by
  have hoffset : p.offset + d.bytes + c.utf8Size = p.offset + c.utf8Size + d.bytes := by omega
  by_cases hc : c = '\n'
  · have hline : p.line + UInt32.ofNat d.lines + 1 = p.line + 1 + UInt32.ofNat d.lines := by
      rw [UInt32.add_assoc, UInt32.add_comm (UInt32.ofNat d.lines), UInt32.add_assoc]
    simp only [advance, shift, hc, if_true, Position.mk.injEq, and_true]
    exact ⟨hc ▸ hoffset, hline⟩
  · simp only [advance, shift, hc, if_false, Position.mk.injEq, and_true]
    exact hoffset

/-- Going past a text from a moved position comes to the moved end. -/
theorem after_shift (d : Shift) (p : Position) (text : List Char) :
    (p.shift d).after text = (p.after text).shift d := by
  induction text generalizing p with
  | nil => rfl
  | cons c rest ih =>
    have hstep (q : Position) : q.after (c :: rest) = (q.advance c).after rest := rfl
    rw [hstep, hstep, advance_shift, ih]

/-- Behind a line feed a text starts anew. -/
theorem after_newline (before : String) :
    start.after (before.toList ++ ['\n']) = start.shift (Shift.past (before ++ "\n")) := by
  have htext : (before ++ "\n").toList = before.toList ++ ['\n'] := by simp
  have hbytes : (before ++ "\n").utf8ByteSize = String.utf8Len (before.toList ++ ['\n']) := by
    rw [← htext, ← String.utf8ByteSize_ofList, String.ofList_toList]
  rw [← htext] at hbytes ⊢
  have hoffset := offset_after start (before ++ "\n").toList
  have hline := line_after start (before ++ "\n").toList
  have hcolumn := column_after (before ++ "\n").toList
  rw [← hbytes] at hoffset
  rw [htext, List.reverse_append, List.reverse_singleton, List.singleton_append, ← htext] at hcolumn
  have heta (p : Position) : p = ⟨p.offset, p.line, p.column⟩ := rfl
  rw [heta (start.after _), hoffset, hline, hcolumn]
  simp only [shift, start, Shift.past]
  rfl

end Position

/-- The span between moved positions is the moved span. -/
theorem Span.between_shift (d : Shift) (p q : Position) :
    between (p.shift d) (q.shift d) = (between p q).shift d := by
  simp only [between, Position.shift, shift, Span.mk.injEq, true_and, and_true]
  exact Nat.add_sub_add_right _ _ _

namespace Lexeme

/-- The tokens of lexemes in two lists are those of the first list and, from where they end, those
of the second. -/
theorem tokensFrom_append (p : Position) (first second : List Lexeme) :
    tokensFrom p (first ++ second) =
      tokensFrom p first ++ tokensFrom (p.after (join first)) second := by
  induction first generalizing p with
  | nil => rfl
  | cons lexeme rest ih =>
    have hjoin : join (lexeme :: rest) = lexeme.text ++ join rest := rfl
    rw [List.cons_append, tokensFrom, tokensFrom, ih, hjoin, Position.after_append]
    split <;> rfl

/-- From a moved position the tokens of lexemes are the moved tokens. -/
theorem tokensFrom_shift (d : Shift) (p : Position) (list : List Lexeme) :
    tokensFrom (p.shift d) list = (tokensFrom p list).map (Token.shift d) := by
  induction list generalizing p with
  | nil => rfl
  | cons lexeme rest ih =>
    rw [tokensFrom, tokensFrom, Position.after_shift, ih]
    split
    · rw [List.map_cons, Span.between_shift]
      rfl
    · rfl

end Lexeme

/-- Tokenizing a text is cutting it into lexemes and giving each its place, or saying what was not
closed and where. -/
theorem tokenize_eq (source : String) :
    tokenize source =
      let list := (Lexeme.lexemes source.toList).1
      let finish := Position.start.after (Lexeme.join list)
      match (Lexeme.lexemes source.toList).2 with
      | some what => .error (.unterminated finish.line finish.column what)
      | none => .ok ⟨Lexeme.tokensFrom .start list, ⟨.eof, "", Span.between finish finish⟩⟩ := by
  rw [tokenize]
  cases Lexeme.lexemes source.toList with
  | mk list unclosed =>
    cases unclosed with
    | some what => simp only [Lexeme.foldl_step]
    | none => simp only [Lexeme.foldl_step, List.append_nil, List.reverse_reverse]

/-- The token for the end stands behind the whole text and covers nothing. -/
theorem eof_covers {source : String} {tokens : TokenSequence} (h : tokenize source = .ok tokens) :
    tokens.eof.text = "" ∧ tokens.eof.span.Covers source source.toList [] [] := by
  obtain ⟨list, hlist, -, -⟩ := tokenize_spec h
  rw [tokenize_eq, hlist] at h
  obtain rfl := Except.ok.inj h
  refine ⟨rfl, ?_⟩
  simp only [Lexeme.lexemes_join hlist]
  have hwhole : source.toList = source.toList ++ [] ++ [] := by simp
  exact Span.covers_between hwhole

/-- **Tokens are cut at the end of a line.**  The tokens of a text, a line feed and
another text are those of the two, the second ones moved; and an error in the
second text is moved with it. -/
theorem tokenize_newline {a b : String} {tokens : TokenSequence} (h : tokenize a = .ok tokens) :
    tokenize (a ++ "\n" ++ b) =
      match tokenize b with
      | .ok more => .ok ⟨tokens.tokens ++ more.tokens.map (Token.shift (Shift.past (a ++ "\n"))),
          more.eof.shift (Shift.past (a ++ "\n"))⟩
      | .error e => .error (e.shift (Shift.past (a ++ "\n"))) := by
  obtain ⟨list, hlist, htokens, -⟩ := tokenize_spec h
  have htext : (a ++ "\n" ++ b).toList = a.toList ++ '\n' :: b.toList := by simp
  have hstart : Position.start.after (Lexeme.join (list ++ [⟨.blank, ['\n']⟩])) =
      Position.start.shift (Shift.past (a ++ "\n")) := by
    rw [← Position.after_newline, ← Lexeme.lexemes_join hlist]
    simp [Lexeme.join]
  have hblank (p : Position) : Lexeme.tokensFrom p [⟨.blank, ['\n']⟩] = [] := rfl
  rw [tokenize_eq (a ++ "\n" ++ b), htext, Lexeme.lexemes_newline hlist, tokenize_eq b, htokens]
  generalize Lexeme.lexemes b.toList = found
  obtain ⟨more, unclosed⟩ := found
  have hsplit : list ++ ⟨.blank, ['\n']⟩ :: more = list ++ [⟨.blank, ['\n']⟩] ++ more := by simp
  have hjoin (first second : List Lexeme) :
      Lexeme.join (first ++ second) = Lexeme.join first ++ Lexeme.join second := by
    simp [Lexeme.join]
  simp only [hsplit]
  rw [hjoin, Position.after_append, hstart, Position.after_shift, Lexeme.tokensFrom_append, hstart,
    Lexeme.tokensFrom_shift, Lexeme.tokensFrom_append, hblank, List.append_nil]
  cases unclosed with
  | some what => rfl
  | none =>
    simp only [Span.between_shift]
    rfl

/-- A text has tokens, unless something in it is not closed, behind a part of the text
that gives its line. -/
theorem exists_unterminated {source : String} {e : ParseError} (h : tokenize source = .error e) :
    ∃ line column what, e = .unterminated line column what ∧
      ∃ before, before <+: source.toList ∧ line = UInt32.ofNat (1 + before.count '\n') := by
  rw [tokenize_eq] at h
  cases hunclosed : (Lexeme.lexemes source.toList).2 with
  | none => simp [hunclosed] at h
  | some what =>
    simp only [hunclosed] at h
    refine ⟨_, _, what, (Except.error.inj h).symm, _, Lexeme.join_lexemes_isPrefix _, ?_⟩
    rw [Position.line_after, UInt32.ofNat_add]
    rfl

/-- Behind a text and a line feed everything is moved by the bytes of both and by one line more
than the text has. -/
theorem Shift.past_newline (before : String) :
    Shift.past (before ++ "\n") = ⟨before.utf8ByteSize + 1, before.toList.count '\n' + 1⟩ := by
  have hfeed : "\n".utf8ByteSize = 1 := rfl
  simp [past, hfeed]

/-- Each token of a text, that for its end included, stands behind a part of the text
that gives its line. -/
theorem exists_line_of_mem {source : String} {s : TokenSequence} (h : tokenize source = .ok s)
    {t : Token} (ht : t ∈ s.toList) :
    ∃ before, before <+: source.toList ∧ t.span.line = UInt32.ofNat (1 + before.count '\n') := by
  rcases List.mem_append.1 ht with ht | ht
  · obtain ⟨list, hlist, htokens, -⟩ := tokenize_spec h
    obtain ⟨before, lexeme, after, -, -, -, hcovers⟩ := token_covers hlist (htokens ▸ ht)
    exact ⟨_, hcovers.isPrefix_before, hcovers.line⟩
  · obtain rfl := List.mem_singleton.1 ht
    have hcovers := (eof_covers h).2
    exact ⟨_, hcovers.isPrefix_before, hcovers.line⟩

/-- A line behind a text is moved by the lines of that text, as long as the line feeds of
both texts can be counted in 32 bits. -/
theorem toNat_line_behind {a b : String} {before : List Char} {line : UInt32}
    (hfeeds : (a ++ "\n" ++ b).toList.count '\n' < 2 ^ 32 - 1) (hbefore : before <+: b.toList)
    (hline : line = UInt32.ofNat (1 + before.count '\n')) :
    (line + UInt32.ofNat (a.toList.count '\n' + 1)).toNat =
      line.toNat + (a.toList.count '\n' + 1) := by
  have hle := hbefore.sublist.count_le '\n'
  have hcount : (a ++ "\n" ++ b).toList.count '\n' =
      a.toList.count '\n' + 1 + b.toList.count '\n' := by
    rw [String.toList_append, String.toList_append, List.count_append, List.count_append]
    rfl
  apply toNat_add_ofNat
  rw [hline, UInt32.toNat_ofNat']
  omega

/-- **A line feed splits a text.**  If the text in front of it has tokens, the whole
has tokens just where the text behind it has.  They are those of the text in front,
without the one for its end, and those of the text behind, moved by the bytes and
lines in front; and what is not closed behind the line feed is reported in the line
it is moved to.  Lines are added in the 32 bits they are counted in, which is plain
addition as long as the line feeds of the whole text can be counted there. -/
theorem tokenize_append_line {a b : String} {first : TokenSequence} (h : tokenize a = .ok first) :
    ((∃ s, tokenize (a ++ "\n" ++ b) = .ok s) ↔ ∃ s, tokenize b = .ok s) ∧
      (∀ second, tokenize b = .ok second → ∃ s, tokenize (a ++ "\n" ++ b) = .ok s ∧
        s.toList = first.tokens ++ second.toList.map
          (Token.shift ⟨a.utf8ByteSize + 1, a.toList.count '\n' + 1⟩) ∧
        ((a ++ "\n" ++ b).toList.count '\n' < 2 ^ 32 - 1 → ∀ t ∈ second.toList,
          (t.shift ⟨a.utf8ByteSize + 1, a.toList.count '\n' + 1⟩).span.line.toNat =
            t.span.line.toNat + (a.toList.count '\n' + 1))) ∧
      ∀ e, tokenize b = .error e → ∃ line column what, e = .unterminated line column what ∧
        tokenize (a ++ "\n" ++ b) =
          .error (.unterminated (line + UInt32.ofNat (a.toList.count '\n' + 1)) column what) ∧
        ((a ++ "\n" ++ b).toList.count '\n' < 2 ^ 32 - 1 →
          (line + UInt32.ofNat (a.toList.count '\n' + 1)).toNat =
            line.toNat + (a.toList.count '\n' + 1)) := by
  rw [tokenize_newline h, Shift.past_newline]
  cases hb : tokenize b with
  | error e =>
    obtain ⟨line, column, what, rfl, before, hbefore, hline⟩ := exists_unterminated hb
    refine ⟨by simp, by simp, ?_⟩
    intro e he
    exact ⟨line, column, what, (Except.error.inj he).symm, rfl,
      fun hfeeds => toNat_line_behind hfeeds hbefore hline⟩
  | ok second =>
    refine ⟨by simp, ?_, by simp⟩
    intro second' hsecond
    obtain rfl := Except.ok.inj hsecond
    refine ⟨_, rfl, by simp [TokenSequence.toList], fun hfeeds t ht => ?_⟩
    obtain ⟨before, hbefore, hline⟩ := exists_line_of_mem hb ht
    exact toNat_line_behind hfeeds hbefore hline

/-- A comment that ends with its line, and a string over two lines behind it. -/
theorem tokenize_append_line_of_comment : ∃ first second s,
    tokenize "x --'" = .ok first ∧ tokenize "'é\n' q" = .ok second ∧
      tokenize ("x --'" ++ "\n" ++ "'é\n' q") = .ok s ∧
      s.toList.map Token.span = [⟨0, 1, 1, 1⟩, ⟨6, 5, 2, 1⟩, ⟨12, 1, 3, 3⟩, ⟨13, 0, 3, 4⟩] ∧
      ∀ t ∈ second.toList, (t.shift ⟨6, 1⟩).span.line.toNat = t.span.line.toNat + 1 := by
  have hfirst : tokenize "x --'" =
      .ok ⟨[⟨.word, "x", ⟨0, 1, 1, 1⟩⟩], ⟨.eof, "", ⟨5, 0, 1, 6⟩⟩⟩ := by decide +kernel
  have hsecond : tokenize "'é\n' q" =
      .ok ⟨[⟨.string, "'é\n'", ⟨0, 5, 1, 1⟩⟩, ⟨.word, "q", ⟨6, 1, 2, 3⟩⟩],
        ⟨.eof, "", ⟨7, 0, 2, 4⟩⟩⟩ := by decide +kernel
  obtain ⟨s, hs, hlist, hlines⟩ := (tokenize_append_line hfirst).2.1 _ hsecond
  refine ⟨_, _, s, hfirst, hsecond, hs, ?_, hlines (by decide)⟩
  rw [hlist]
  decide +kernel

end PlsqlAudit
