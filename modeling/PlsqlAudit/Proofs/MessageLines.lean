import PlsqlAudit.Proofs.JoinedPrograms
import PlsqlAudit.Proofs.SearchAccount

/-!
# Lines for the command-line client

A command of the client ends with its line, and what stands on that line is free
text.  The line is cut into tokens all the same, before it is skipped.  So a message
in front of a program leaves the program as it is just where the message has tokens
of its own: where it opens a literal, a quoted identifier or a comment and does not
close it, the program behind it is taken for the rest of what was opened.
-/

namespace PlsqlAudit

open PlsqlAudit.Grammar PlsqlAudit.Parser

/-! ### What a line leaves open -/

namespace Lexeme

variable {cs rest : List Char}

theorem closeString_newline (h : closeString cs = none) : closeString (cs ++ ['\n']) = none := by
  fun_induction closeString cs with
  | case1 => rfl
  | case2 rest ih => simpa [closeString] using ih (Option.map_eq_none_iff.1 h)
  | case3 rest hrest => simp at h
  | case4 c rest hquotes hquote ih =>
    have hc : c ≠ '\'' := fun hc => hquote hc
    simpa [closeString, hc] using ih (Option.map_eq_none_iff.1 h)

theorem closePair_newline {first second : Char} (hsecond : '\n' ≠ second)
    (h : closePair first second cs = none) : closePair first second (cs ++ ['\n']) = none := by
  induction cs with
  | nil => simp [closePair]
  | cons c rest ih =>
    rw [closePair] at h
    rw [List.cons_append, closePair, head?_divided_beq hsecond]
    split at h
    case isTrue => cases h
    case isFalse hpair =>
      rw [if_neg hpair, ih (Option.map_eq_none_iff.1 h)]
      rfl

theorem closeChar_newline {close : Char} (hclose : '\n' ≠ close) (h : closeChar close cs = none) :
    closeChar close (cs ++ ['\n']) = none := by
  induction cs with
  | nil => simp [closeChar, hclose]
  | cons c rest ih =>
    rw [closeChar] at h
    rw [List.cons_append, closeChar]
    split at h
    case isTrue => cases h
    case isFalse hc =>
      rw [if_neg hc, ih (Option.map_eq_none_iff.1 h)]
      rfl

theorem closeQuotation_newline (h : closeQuotation cs = none) :
    closeQuotation (cs ++ ['\n']) = none := by
  cases cs with
  | nil => rfl
  | cons delimiter rest =>
    have hpair := closePair_newline (by decide) (Option.map_eq_none_iff.1 h)
    rw [List.cons_append, closeQuotation, hpair]
    rfl

theorem closed_error {kind : LexemeKind} {what what' : Unclosed} {found : Option Cut}
    (h : closed kind what found = .error what') : found = none ∧ what = what' := by
  cases found with
  | none => exact ⟨rfl, Except.error.inj h⟩
  | some cut => cases h

theorem literal_newline {letters : Nat} {quotation : Bool} {what : Unclosed}
    (hlength : letters + 1 ≤ cs.length) (h : literal letters quotation cs = .error what) :
    literal letters quotation (cs ++ ['\n']) = .error what := by
  unfold literal at h ⊢
  rw [List.take_append_of_le_length hlength, List.drop_append_of_le_length hlength]
  cases quotation with
  | true =>
    obtain ⟨hnone, rfl⟩ := closed_error h
    simp only [if_true, closeQuotation_newline (Option.map_eq_none_iff.1 hnone), Option.map_none]
    rfl
  | false =>
    obtain ⟨hnone, rfl⟩ := closed_error h
    simp only [Bool.false_eq_true, if_false, closeString_newline (Option.map_eq_none_iff.1 hnone),
      Option.map_none]
    rfl

/-- What is not closed in a text is not closed by a line feed. -/
theorem scan_newline {c : Char} {what : Unclosed} (h : scan c rest = .error what) :
    scan c (rest ++ ['\n']) = .error what := by
  have hshown := shown_opening c rest
  rw [scan_eq_read] at h
  rw [scan_eq_read, opening_divided (by decide)]
  generalize opening c rest = o at h hshown
  cases o with
  | blank | lineComment | word | number | bindVariable | operator => cases h
  | blockComment =>
    have htail : (rest ++ ['\n']).tail = rest.tail ++ ['\n'] := by
      cases rest with
      | nil => simp [Opening.Shown] at hshown
      | cons d rest => rfl
    obtain ⟨hnone, rfl⟩ := closed_error h
    rw [Opening.read, htail, closePair_newline (by decide) (Option.map_eq_none_iff.1 hnone)]
    rfl
  | literal letters quotation => exact literal_newline hshown.length_le h
  | quotedIdent =>
    obtain ⟨hnone, rfl⟩ := closed_error h
    rw [Opening.read, closeChar_newline (by decide) (Option.map_eq_none_iff.1 hnone)]
    rfl

theorem lexemesFrom_newline {done : List Lexeme} {what : Unclosed}
    (h : (lexemesFrom done cs).2 = some what) : (lexemes (cs ++ ['\n'])).2 = some what := by
  fun_induction lexemesFrom done cs with
  | case1 done => cases h
  | case2 done c rest what' hscan =>
    obtain rfl := Option.some.inj h
    rw [List.cons_append, lexemes, lexemesFrom, scan_newline hscan]
  | case3 done c rest lexeme after hscan ih =>
    rw [List.cons_append, lexemes_cons (scan_divided (by decide) hscan (fun _ => rfl) [])]
    exact ih h

/-- A line that ends in a line feed has all its lexemes only if it has them without. -/
theorem closed_of_newline (h : (lexemes (cs ++ ['\n'])).2 = none) : (lexemes cs).2 = none := by
  cases hopen : (lexemes cs).2 with
  | none => rfl
  | some what =>
    rw [lexemesFrom_newline hopen] at h
    cases h

/-- A word and a blank in front of a text are two lexemes more. -/
theorem lexemes_behind_word {word : List Char}
    (hword : lexemes word = ([⟨.token .word, word⟩], none)) (cs : List Char) :
    lexemes (word ++ ' ' :: cs) =
      (⟨.token .word, word⟩ :: ⟨.blank, [' ']⟩ :: (lexemes cs).1, (lexemes cs).2) := by
  have hblank : scan ' ' cs = .ok (⟨.blank, [' ']⟩, cs) := rfl
  rw [lexemes_divided (by decide) hword (by simp), lexemes_cons hblank]
  rfl

end Lexeme

theorem exists_tokenize_iff (source : String) :
    (∃ tokens, tokenize source = .ok tokens) ↔ (Lexeme.lexemes source.toList).2 = none := by
  rw [tokenize_eq]
  cases (Lexeme.lexemes source.toList).2 with
  | none => simp
  | some what => simp

/-! ### The line is skipped -/

theorem Stream.advanceFrom_line {line : UInt32} (source : String) (eof : Token) (last : Option Token)
    (skipped : List Token) {rest : List Token} (hskipped : ∀ t ∈ skipped, t.span.line = line)
    (hrest : ∀ t ∈ rest.head?, t.span.line ≠ line) :
    ∃ last', advanceFrom (fun s => s.peek.span.line != line) source eof last (skipped ++ rest) =
      ⟨source, last', rest, eof⟩ := by
  induction skipped generalizing last with
  | nil =>
    cases rest with
    | nil => exact ⟨last, rfl⟩
    | cons t rest =>
      have hline := hrest t rfl
      exact ⟨last, by simp [advanceFrom, peek, hline]⟩
  | cons t skipped ih =>
    have hline := hskipped t List.mem_cons_self
    obtain ⟨last', hlast⟩ := ih (some t) fun u hu => hskipped u (List.mem_cons_of_mem _ hu)
    exact ⟨last', by simpa [advanceFrom, peek, hline] using hlast⟩

/-- A command of the client is read with its line, and leaves no node. -/
theorem programUnit_command (r : Rules) (source : String) (last : Option Token) {first : Token}
    {others rest : List Token} (eof : Token) (hfirst : first.isAnyWord clientCommands = true)
    (hothers : ∀ t ∈ others, t.span.line = first.span.line)
    (hrest : ∀ t ∈ rest.head?, t.span.line ≠ first.span.line) :
    ∃ last', programUnit r ⟨source, last, first :: others ++ rest, eof⟩ =
      .ok (none, ⟨source, last', rest, eof⟩) := by
  obtain ⟨last', hskip⟩ := Stream.advanceFrom_line source eof last (first :: others)
    (by simpa using hothers) hrest
  refine ⟨last', ?_⟩
  have hword : first.kind = .word := by simp_all [Token.isAnyWord]
  have hcommand : clientCommands.contains first.lowerText = true := by simp_all [Token.isAnyWord]
  have hother (word : String) (hnone : clientCommands.contains word = false) :
      first.lowerText ≠ word := by
    rintro rfl
    rw [hcommand] at hnone
    cases hnone
  have hblock : first.isAnyWord ["declare", "begin"] = false := by
    simp [Token.isAnyWord, hother "declare" (by decide), hother "begin" (by decide)]
  rw [programUnit, get_bind]
  simp only [Stream.atKind, Stream.kind, Stream.atWord, Stream.atAnyWord, Stream.peek,
    List.cons_append, List.headD_cons, Token.isWord, hword, hfirst,
    hblock, beq_eq_false_iff_ne.2 (hother "create" (by decide))]
  exact congrArg (fun s => Except.ok (none, s)) hskip

/-- What is read as a unit without a node is passed over. -/
theorem units_of_none {depth fuel : Nat} {s u : Stream} (hmore : s.atEnd = false)
    (h : programUnit (rules (depth + 1)) s = .ok (none, u)) :
    (units depth (fuel + 1)).run' s = (none :: ·) <$> (units depth fuel).run' u := by
  have hrun : units depth (fuel + 1) s = (do
      let others ← units depth fuel
      return none :: others : Parser (List (Option Node))) u := by
    rw [units, repeated, get_bind, hmore]
    exact bind_of_ok h
  rw [StateT.run', hrun]
  cases hothers : units depth fuel u with
  | error e =>
    rw [bind_of_error hothers, run'_of_error hothers]
    rfl
  | ok others =>
    rw [bind_of_ok hothers, run'_of_ok hothers]
    rfl

/-! ### A line in front of a program -/

/-- A line for the client: its tokens start with a command and are all on one line. -/
structure ClientLine (line : String) (tokens : TokenSequence) : Prop where
  tokenized : tokenize line = .ok tokens
  command : ∃ first ∈ tokens.tokens.head?, first.isAnyWord clientCommands = true
  oneLine : ∀ t ∈ tokens.tokens, t.span.line = 1

/-- A token behind a line is not on the first line, as long as the line counter does not
come round to it again. -/
theorem line_ne_one_of_moved {line source : String} {tokens : TokenSequence} {t : Token}
    (hfeeds : (line ++ "\n" ++ source).toList.count '\n' < 2 ^ 32 - 1)
    (h : tokenize source = .ok tokens) (ht : t ∈ tokens.tokens) :
    (t.shift (.past (line ++ "\n"))).span.line ≠ 1 := by
  obtain ⟨before, hbefore, hline⟩ := exists_line_of_mem h (List.mem_append_left _ ht)
  have hmoved := toNat_line_behind hfeeds hbefore hline
  have hpast : (Shift.past (line ++ "\n")).lines = line.toList.count '\n' + 1 := by
    rw [Shift.past_newline]
  intro hone
  rw [Token.shift, Span.shift, hpast] at hone
  have hcount : (line ++ "\n" ++ source).toList.count '\n' =
      line.toList.count '\n' + 1 + source.toList.count '\n' := by
    rw [String.toList_append, String.toList_append, List.count_append, List.count_append]
    rfl
  have hle := hbefore.sublist.count_le '\n'
  have hfirst : (1 : UInt32).toNat = 1 := rfl
  rw [show t.span.line + UInt32.ofNat (line.toList.count '\n' + 1) = 1 from hone, hfirst, hline,
    UInt32.toNat_ofNat'] at hmoved
  omega

/-- The line is passed over, and the tokens behind it are left. -/
theorem ClientLine.units_eq {line source : String} {tokens more : TokenSequence}
    (hfeeds : (line ++ "\n" ++ source).toList.count '\n' < 2 ^ 32 - 1)
    (h : ClientLine line tokens) (hmore : tokenize source = .ok more) (depth fuel : Nat) :
    ∃ last, (units depth (fuel + 1)).run' ⟨line ++ "\n" ++ source, none,
        tokens.tokens ++ more.tokens.map (Token.shift (.past (line ++ "\n"))),
        more.eof.shift (.past (line ++ "\n"))⟩ =
      (none :: ·) <$> (units depth fuel).run' ⟨line ++ "\n" ++ source, last,
        more.tokens.map (Token.shift (.past (line ++ "\n"))),
        more.eof.shift (.past (line ++ "\n"))⟩ := by
  obtain ⟨first, hfirst, hcommand⟩ := h.command
  obtain ⟨others, htokens⟩ := List.head?_eq_some_iff.1 hfirst
  have hlines := h.oneLine
  rw [htokens] at hlines ⊢
  have hone := hlines first List.mem_cons_self
  have hothers (t : Token) (ht : t ∈ others) : t.span.line = first.span.line := by
    rw [hone, hlines t (List.mem_cons_of_mem _ ht)]
  have hrest : ∀ t ∈ (more.tokens.map (Token.shift (.past (line ++ "\n")))).head?,
      t.span.line ≠ first.span.line := by
    intro t ht
    obtain ⟨u, hu, rfl⟩ := List.mem_map.1 (List.mem_of_mem_head? ht)
    rw [hone]
    exact line_ne_one_of_moved hfeeds hmore hu
  obtain ⟨last, hskip⟩ := programUnit_command (rules (depth + 1)) (line ++ "\n" ++ source) none
    (more.eof.shift (.past (line ++ "\n"))) hcommand hothers hrest
  exact ⟨last, units_of_none rfl hskip⟩

/-- **A line for the client leaves the program behind it as it is.** -/
theorem ClientLine.parse_eq {line source : String} {tokens : TokenSequence} {t : Tree}
    (hfeeds : (line ++ "\n" ++ source).toList.count '\n' < 2 ^ 32 - 1)
    (h : ClientLine line tokens) (hparse : parse source = .ok t) :
    parse (line ++ "\n" ++ source) = .ok (Tree.ofUnits (line ++ "\n" ++ source)
      (t.root.children.map (Node.shift (.past (line ++ "\n"))))) := by
  cases hsource : tokenize source with
  | error e =>
    rw [parse_of_tokenize_error hsource] at hparse
    cases hparse
  | ok more =>
    obtain ⟨list, e, hunits, rfl⟩ := exists_units_of_parse hsource hparse
    have hwhole := tokenize_newline (b := source) h.tokenized
    rw [hsource] at hwhole
    obtain ⟨first, hfirst, -⟩ := h.command
    have hpos : 0 < tokens.tokens.length := List.length_pos_of_mem (List.mem_of_mem_head? hfirst)
    obtain ⟨last, hline⟩ := h.units_eq hfeeds hsource (tokens.tokens.length + more.tokens.length)
      (tokens.tokens.length + more.tokens.length)
    rw [units_appended (line ++ "\n") hfeeds hsource (by omega) (by omega), run'_of_ok hunits] at hline
    rw [parse_of_tokenize hwhole]
    simp only [List.length_append, List.length_map, Stream.start]
    rw [hline]
    have hmoved : (list.map (Option.map (Node.shift (.past (line ++ "\n"))))).filterMap id =
        (list.filterMap id).map (Node.shift (.past (line ++ "\n"))) :=
      (Embedding.move_filterMap_id (E := Embedding.appended (line ++ "\n") source more) list).symm
    exact congrArg (fun nodes => Except.ok (Tree.ofUnits (line ++ "\n" ++ source) nodes)) hmoved

/-- A word, a blank and a message without a line feed. -/
theorem clientLine_of_word {word message : String} {tokens : TokenSequence}
    (hword : Lexeme.lexemes word.toList = ([⟨.token .word, word.toList⟩], none))
    (hcommand : clientCommands.contains (word.map Char.toLower) = true)
    (hfeed : '\n' ∉ (word ++ " " ++ message).toList)
    (h : tokenize (word ++ " " ++ message) = .ok tokens) :
    ClientLine (word ++ " " ++ message) tokens := by
  obtain ⟨list, hlist, htokens, -⟩ := tokenize_spec h
  refine ⟨h, ?_, ?_⟩
  · have htext : (word ++ " " ++ message).toList = word.toList ++ ' ' :: message.toList := by simp
    rw [htext, Lexeme.lexemes_behind_word hword] at hlist
    rw [htokens, ← (Prod.mk.inj hlist).1]
    refine ⟨_, rfl, ?_⟩
    simp only [Token.isAnyWord, Token.lowerText, String.ofList_toList, hcommand]
    rfl
  · intro t ht
    rw [htokens] at ht
    obtain ⟨before, lexeme, after, -, -, -, hcovers⟩ := token_covers hlist ht
    have hnone : '\n' ∉ Lexeme.join before := by
      intro hmem
      rw [hcovers.text] at hfeed
      simp [hmem] at hfeed
    rw [hcovers.line, List.count_eq_zero.2 hnone]
    rfl

/-! ### Messages -/

/-- The commands that are followed by a message. -/
def messageCommands : List String := ["PROMPT", "REM"]

theorem messageCommands_spec : ∀ command ∈ messageCommands,
    Lexeme.lexemes command.toList = ([⟨.token .word, command.toList⟩], none) ∧
      clientCommands.contains (command.map Char.toLower) = true ∧ '\n' ∉ command.toList := by
  decide +kernel

/-- A message with its command has tokens just where the message has. -/
theorem tokenize_message {command : String} (hcommand : command ∈ messageCommands)
    (message : String) :
    (∃ tokens, tokenize (command ++ " " ++ message) = .ok tokens) ↔
      ∃ tokens, tokenize message = .ok tokens := by
  have htext : (command ++ " " ++ message).toList = command.toList ++ ' ' :: message.toList := by
    simp
  rw [exists_tokenize_iff, exists_tokenize_iff, htext,
    Lexeme.lexemes_behind_word (messageCommands_spec command hcommand).1]

/-- So has the message with a line feed behind it. -/
theorem tokenize_message_newline {command message : String} (hcommand : command ∈ messageCommands)
    (h : ∃ tokens, tokenize (command ++ " " ++ message ++ "\n") = .ok tokens) :
    ∃ tokens, tokenize message = .ok tokens := by
  have htext : (command ++ " " ++ message ++ "\n").toList =
      command.toList ++ ' ' :: (message.toList ++ ['\n']) := by simp
  rw [exists_tokenize_iff, htext,
    Lexeme.lexemes_behind_word (messageCommands_spec command hcommand).1] at h
  exact (exists_tokenize_iff message).2 (Lexeme.closed_of_newline h)

/-- **A message passes if it has tokens.**  Whatever program stands behind the line of
a message is read as on its own, moved by that line, if and only if the message can
be cut into tokens.  Where it cannot, not even the empty program can stand behind.  The
lines of the program and the one more in front must be few enough to be counted in 32
bits. -/
theorem message_passes_iff {command message : String} (hcommand : command ∈ messageCommands)
    (hfeed : '\n' ∉ message.toList) :
    (∀ source t, source.toList.count '\n' + 1 < 2 ^ 32 - 1 → parse source = .ok t →
      ∃ t', parse (command ++ " " ++ message ++ "\n" ++ source) = .ok t' ∧
        t'.root.children = t.root.children.map
          (Node.shift ⟨(command ++ " " ++ message).utf8ByteSize + 1, 1⟩)) ↔
      ∃ tokens, tokenize message = .ok tokens := by
  obtain ⟨hword, hclient, hplain⟩ := messageCommands_spec command hcommand
  have hnone : '\n' ∉ (command ++ " " ++ message).toList := by simp [hplain, hfeed]
  constructor
  · intro hall
    obtain ⟨empty, hempty, -⟩ := exists_parse "" (fun _ => true) (by decide +kernel)
    obtain ⟨t', ht', -⟩ := hall "" empty (by decide) hempty
    rw [String.append_empty] at ht'
    apply tokenize_message_newline hcommand
    cases htokens : tokenize (command ++ " " ++ message ++ "\n") with
    | ok tokens => exact ⟨tokens, rfl⟩
    | error e =>
      rw [parse_of_tokenize_error htokens] at ht'
      cases ht'
  · intro htokens source t hfeeds h
    obtain ⟨tokens, htokens⟩ := (tokenize_message hcommand message).2 htokens
    have hline := clientLine_of_word hword hclient hnone htokens
    have hwhole : (command ++ " " ++ message ++ "\n" ++ source).toList.count '\n' < 2 ^ 32 - 1 := by
      rw [String.toList_append, String.toList_append, List.count_append, List.count_append,
        List.count_eq_zero.2 hnone, Nat.zero_add, Nat.add_comm]
      exact hfeeds
    refine ⟨_, hline.parse_eq hwhole h, ?_⟩
    rw [Shift.past_newline, List.count_eq_zero.2 hnone]
    rfl

/-- A message with quotation marks that close, in front of a block. -/
theorem message_passes_iff_of_quotation : ∃ t',
    ("REM" ∈ messageCommands ∧ '\n' ∉ "say \"it's\" --'".toList) ∧
      (∃ tokens, tokenize "say \"it's\" --'" = .ok tokens) ∧
      parse ("REM" ++ " " ++ "say \"it's\" --'" ++ "\n" ++ "BEGIN NULL; END;") = .ok t' ∧
      t'.root.children.map Node.span = [⟨19, 16, 2, 1⟩] := by
  have hcommand : "REM" ∈ messageCommands := by decide
  have hfeed : '\n' ∉ "say \"it's\" --'".toList := by decide
  have htokens : ∃ tokens, tokenize "say \"it's\" --'" = .ok tokens :=
    (exists_tokenize_iff _).2 (by decide +kernel)
  obtain ⟨t, ht, hspan⟩ := exists_parse "BEGIN NULL; END;"
    (fun t => t.root.children.map Node.span == [⟨0, 16, 1, 1⟩]) (by decide +kernel)
  obtain ⟨t', ht', hchildren⟩ := (message_passes_iff hcommand hfeed).2 htokens _ t (by decide) ht
  refine ⟨t', ⟨hcommand, hfeed⟩, htokens, ht', ?_⟩
  have hmove : ("REM" ++ " " ++ "say \"it's\" --'").utf8ByteSize + 1 = 19 := by decide +kernel
  rw [hchildren, hmove, List.map_map, Function.comp_def]
  simp only [Node.span_shift]
  rw [← Function.comp_def (Span.shift ⟨19, 1⟩) Node.span, ← List.map_map, eq_of_beq hspan]
  rfl

/-- An apostrophe in a message opens a string, and the program behind is lost. -/
theorem apostrophe_not_passed :
    '\n' ∉ "don't".toList ∧ (∃ t, parse "BEGIN NULL; END;" = .ok t) ∧
      parse ("PROMPT" ++ " " ++ "don't" ++ "\n" ++ "BEGIN NULL; END;") =
        .error (.unterminated 1 11 .stringLiteral) := by
  refine ⟨by decide, ?_, parse_of_tokenize_error (by decide +kernel)⟩
  obtain ⟨t, ht, -⟩ := exists_parse "BEGIN NULL; END;" (fun _ => true) (by decide +kernel)
  exact ⟨t, ht⟩

end PlsqlAudit
