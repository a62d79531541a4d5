import PlsqlAudit.Proofs.LineBreaks
import PlsqlAudit.Proofs.Precedence

/-!
# Printed expressions are parsed to what they are

The pieces of an expression, printed with blanks between them, are the tokens of
the text; and a program that assigns the expression to a variable is parsed to a
tree with the outline of the expression in it.
-/

namespace PlsqlAudit

open PlsqlAudit.Grammar PlsqlAudit.Parser

/-! ### Pieces as tokens -/

/-- The piece that a lexeme is, if it is a token. -/
def Lexeme.piece? (l : Lexeme) : Option Piece :=
  match l.kind with
  | .token kind => some ⟨kind, String.ofList l.text⟩
  | _ => none

/-- The pieces of the tokens that lexemes make are the lexemes that are tokens, wherever the text
starts. -/
theorem Lexeme.map_piece_tokensFrom (list : List Lexeme) (p : Position) :
    (tokensFrom p list).map Token.piece = list.filterMap Lexeme.piece? := by
  induction list generalizing p with
  | nil => rfl
  | cons l list ih =>
    rw [tokensFrom, List.filterMap_cons, piece?]
    cases l.kind with
    | token kind =>
      rw [List.map_cons, ih]
      rfl
    | blank | lineComment | blockComment => exact ih _

/-- A blank in front of a text is one lexeme, with the lexemes of the text behind it. -/
theorem Lexeme.lexemes_blank (cs : List Char) :
    lexemes (' ' :: cs) = (⟨.blank, [' ']⟩ :: (lexemes cs).1, (lexemes cs).2) := by
  apply lexemes_cons
  rw [scan, if_pos (by decide)]

/-- A line of pieces is cut into the pieces, with nothing but blanks between. -/
theorem exists_lexemes_line {ps : List Piece} (hps : ∀ p ∈ ps, p.StandsAlone) :
    ∃ list, Lexeme.lexemes (Piece.line ps).toList = (list, none) ∧
      list.filterMap Lexeme.piece? = ps ∧ ∀ l ∈ list, l.kind ≠ .lineComment := by
  induction ps with
  | nil => exact ⟨[], by simp [Piece.line, Lexeme.lexemes, Lexeme.lexemesFrom], rfl, by simp⟩
  | cons p ps ih =>
    have hp := hps p List.mem_cons_self
    rw [Piece.StandsAlone] at hp
    have hpiece : Lexeme.piece? ⟨.token p.kind, p.text.toList⟩ = some p := by
      simp [Lexeme.piece?]
    cases ps with
    | nil => exact ⟨_, by simpa [Piece.line] using hp, by simp [hpiece], by simp⟩
    | cons q ps =>
      obtain ⟨list, hlist, hpieces, hlines⟩ := ih fun q hq => hps q (List.mem_cons_of_mem _ hq)
      have htext : (Piece.line (p :: q :: ps)).toList =
          p.text.toList ++ ' ' :: (Piece.line (q :: ps)).toList := by
        simp [Piece.line]
      refine ⟨⟨.token p.kind, p.text.toList⟩ :: ⟨.blank, [' ']⟩ :: list, ?_, ?_, ?_⟩
      · rw [htext, Lexeme.lexemes_divided (by decide) hp (by simp), Lexeme.lexemes_blank,
          hlist]
        rfl
      · rw [List.filterMap_cons, hpiece, List.filterMap_cons]
        simp [Lexeme.piece?, hpieces]
      · simpa using hlines

def Piece.assign : Piece := ⟨.assign, ":="⟩

def Piece.semicolon : Piece := ⟨.semicolon, ";"⟩

/-- The words, operators and marks that a program around an expression is printed
with. -/
def Piece.fixed : List Piece :=
  ["BEGIN", "CASE", "ELSE", "END", "ESCAPE", "IS", "NOT", "NULL", "PRIOR", "THEN", "WHEN"].map
    keyword ++
  [.or, .and, .eq, .notEq, .lt, .gt, .ltEq, .gtEq, .like, .member, .between, .concat, .add, .sub,
    .mul, .div, .mod, .power].map BinaryOp.piece ++
  [lParen, rParen, comma, dot, arrow, assign]

/-- Each of the fixed words, operators and marks is read as one token when a blank follows it. -/
theorem Piece.standsAlone_of_mem_fixed {p : Piece} (h : p ∈ fixed) : p.StandsAlone := by
  revert p
  decide +kernel

/-- An operator between two operands is read as one token when a blank follows it. -/
theorem BinaryOp.piece_standsAlone (op : BinaryOp) : op.piece.StandsAlone := by
  apply Piece.standsAlone_of_mem_fixed
  cases op <;> decide

/-- A sign is read as one token when a blank follows it. -/
theorem Sign.piece_standsAlone (op : Sign) : op.piece.StandsAlone := by
  apply Piece.standsAlone_of_mem_fixed
  cases op <;> decide

/-- A `NOT` that is printed or left out stands alone. -/
theorem Piece.negation_standsAlone (negated : Bool) :
    ∀ p ∈ negation negated, p.StandsAlone := by
  cases negated with
  | false => simp [negation]
  | true => simpa [negation] using standsAlone_of_mem_fixed (by decide)

/-- A label stands alone, its name as well as its arrow. -/
theorem Identifier.labelPieces_standAlone (label : Option Identifier) :
    ∀ p ∈ labelPieces label, p.StandsAlone := by
  cases label with
  | none => simp [labelPieces]
  | some id =>
    simp only [labelPieces, List.forall_mem_cons]
    exact ⟨id.standsAlone, Piece.standsAlone_of_mem_fixed (by decide), by simp⟩

/-- A part that may be missing stands alone, with the word in front of it, if its pieces do. -/
theorem Expr.optionPieces_standAlone {front : Piece} {e? : Option Expr}
    (hfront : front.StandsAlone) (h : ∀ e ∈ e?, ∀ p ∈ e.pieces, p.StandsAlone) :
    ∀ p ∈ optionPieces [front] e?, p.StandsAlone := by
  cases e? with
  | none => simp [optionPieces]
  | some e =>
    simp only [optionPieces, List.singleton_append, List.forall_mem_cons]
    exact ⟨hfront, h e rfl⟩

/-- The arguments of a call stand alone if each of them does, with the commas and labels between
them. -/
theorem Expr.argumentPieces_standAlone {front : List Piece}
    {arguments : List (Option Identifier × Expr)} (hfront : ∀ p ∈ front, p.StandsAlone)
    (h : ∀ a ∈ arguments, ∀ p ∈ a.2.pieces, p.StandsAlone) :
    ∀ p ∈ argumentPieces front arguments, p.StandsAlone := by
  induction arguments generalizing front with
  | nil => simp [argumentPieces]
  | cons a rest ih =>
    obtain ⟨label, e⟩ := a
    simp only [argumentPieces, List.forall_mem_append]
    refine ⟨⟨⟨hfront, Identifier.labelPieces_standAlone label⟩, h _ List.mem_cons_self⟩, ?_⟩
    apply ih
    · simpa using Piece.standsAlone_of_mem_fixed (by decide)
    · exact fun a ha => h a (List.mem_cons_of_mem _ ha)

/-- The branches of a `CASE` expression stand alone if their choices and their results do. -/
theorem Expr.branchPieces_standAlone {branches : List (Expr × Expr)}
    (hchoices : ∀ b ∈ branches, ∀ p ∈ b.1.pieces, p.StandsAlone)
    (hresults : ∀ b ∈ branches, ∀ p ∈ b.2.pieces, p.StandsAlone) :
    ∀ p ∈ branchPieces branches, p.StandsAlone := by
  induction branches with
  | nil => simp [branchPieces]
  | cons b rest ih =>
    obtain ⟨choice, result⟩ := b
    simp only [branchPieces, List.forall_mem_append, List.forall_mem_cons]
    refine ⟨⟨⟨Piece.standsAlone_of_mem_fixed (by decide), hchoices _ List.mem_cons_self⟩,
      Piece.standsAlone_of_mem_fixed (by decide), hresults _ List.mem_cons_self⟩, ?_⟩
    apply ih
    · exact fun b hb => hchoices b (List.mem_cons_of_mem _ hb)
    · exact fun b hb => hresults b (List.mem_cons_of_mem _ hb)

/-- Every piece of an expression is one token when a blank follows it, whichever level the
expression stands at. -/
theorem Expr.Stands.standAlone {listed level : Level} {e : Expr} (h : e.Stands listed level) :
    ∀ p ∈ e.pieces, p.StandsAlone := by
  have hfixed := @Piece.standsAlone_of_mem_fixed
  induction h with
  | name id => simpa [pieces] using id.standsAlone
  | literal l => simpa [pieces, Literal.piece] using l.standsAlone
  | list hfirst hrest ihfirst ihrest =>
    simp only [pieces, itemPieces_eq, List.forall_mem_append, List.forall_mem_cons,
      List.forall_mem_flatMap]
    exact ⟨⟨⟨hfixed (by decide), ihfirst⟩, fun e he => ⟨hfixed (by decide), ihrest e he⟩⟩,
      hfixed (by decide), by simp⟩
  | @case selector _ _ _ _ _ _ _ ihselector ihchoices ihresults ihotherwise =>
    simp only [pieces, List.forall_mem_append, List.forall_mem_cons]
    refine ⟨⟨⟨⟨hfixed (by decide), ?_⟩, branchPieces_standAlone ihchoices ihresults⟩,
      optionPieces_standAlone (hfixed (by decide)) ihotherwise⟩, hfixed (by decide), by simp⟩
    cases selector with
    | none => simp [optionPieces]
    | some e => exact ihselector e rfl
  | member hbase field ih =>
    simp only [pieces, List.forall_mem_append, List.forall_mem_cons]
    exact ⟨ih, hfixed (by decide), field.standsAlone, by simp⟩
  | call hcallee harguments ihcallee iharguments =>
    simp only [pieces, List.forall_mem_append, List.forall_mem_cons]
    exact ⟨⟨ihcallee, hfixed (by decide), argumentPieces_standAlone (by simp) iharguments⟩,
      hfixed (by decide), by simp⟩
  | sign op hoperand ih =>
    simp only [pieces, List.forall_mem_cons]
    exact ⟨op.piece_standsAlone, ih⟩
  | binary hop hlevel hlhs hrhs ihlhs ihrhs =>
    simp only [pieces, List.forall_mem_append, List.forall_mem_cons]
    exact ⟨ihlhs, BinaryOp.piece_standsAlone _, ihrhs⟩
  | comparison hop hlhs hrhs ihlhs ihrhs =>
    simp only [pieces, List.forall_mem_append, List.forall_mem_cons]
    exact ⟨ihlhs, BinaryOp.piece_standsAlone _, ihrhs⟩
  | nullTest negated hoperand ih =>
    simp only [pieces, List.forall_mem_append, List.forall_mem_cons]
    exact ⟨⟨ih, hfixed (by decide), Piece.negation_standsAlone negated⟩, hfixed (by decide),
      by simp⟩
  | like negated hoperand hpattern hescape ihoperand ihpattern ihescape =>
    simp only [pieces, List.forall_mem_append, List.forall_mem_cons]
    exact ⟨⟨⟨ihoperand, Piece.negation_standsAlone negated⟩, hfixed (by decide), ihpattern⟩,
      optionPieces_standAlone (hfixed (by decide)) ihescape⟩
  | isIn negated hoperand hitems ihoperand ihitems =>
    simp only [pieces, List.forall_mem_append, List.forall_mem_cons]
    exact ⟨⟨ihoperand, Piece.negation_standsAlone negated⟩, hfixed (by decide), ihitems⟩
  | between negated hoperand hlow hhigh ihoperand ihlow ihhigh =>
    simp only [pieces, List.forall_mem_append, List.forall_mem_cons]
    exact ⟨⟨⟨ihoperand, Piece.negation_standsAlone negated⟩, hfixed (by decide), ihlow⟩,
      hfixed (by decide), ihhigh⟩
  | not hoperand ih =>
    simp only [pieces, List.forall_mem_cons]
    exact ⟨hfixed (by decide), ih⟩
  | looser h ih => exact ih

/-! ### The program around an expression -/

/-- The variable that the program assigns to. -/
def assignedVariable : Identifier := .word "x" (by decide +kernel) (by decide +kernel)

/-- The variable that the printed program assigns to is spelled in lower case already. -/
theorem assignedVariable_lowerText : assignedVariable.lowerText = "x" := by
  simp [Piece.lowerText_eq, assignedVariable, Identifier.word]

/-- The tokens of the assignment. -/
def Expr.assignmentPieces (e : Expr) : List Piece :=
  assignedVariable.toPiece :: .assign :: e.pieces ++ [.semicolon]

/-- The tokens of the program. -/
def Expr.programPieces (e : Expr) : List Piece :=
  .keyword "BEGIN" :: e.assignmentPieces ++ [.keyword "END", .semicolon]

/-- The printed program is an assignment of the expression with `BEGIN` in front and `END`
behind. -/
theorem Expr.programPieces_eq (e : Expr) :
    e.programPieces = (.keyword "BEGIN" :: assignedVariable.toPiece :: .assign :: e.pieces) ++
      [.semicolon, .keyword "END", .semicolon] := by
  simp [programPieces, assignmentPieces]

/-- The text of the program, cut at the semicolon behind the expression. -/
theorem Expr.toList_program {e : Expr} (hne : e.pieces ≠ []) :
    e.program.toList =
      (Piece.line (.keyword "BEGIN" :: assignedVariable.toPiece :: .assign :: e.pieces)).toList ++
        ';' :: " END;".toList := by
  obtain ⟨p, ps, hps⟩ := List.exists_cons_of_ne_nil hne
  rw [program, hps]
  simp [Piece.line, Piece.keyword, Piece.assign, assignedVariable, Identifier.word]

/-- The program that is printed around an expression is cut into its pieces again, one token for
each. -/
theorem Expr.Stands.exists_tokens {listed level : Level} {e : Expr} (h : e.Stands listed level) :
    ∃ tokens, tokenize e.program = .ok tokens ∧
      tokens.tokens.map Token.piece = e.programPieces := by
  have halone : ∀ p ∈ .keyword "BEGIN" :: assignedVariable.toPiece :: .assign :: e.pieces,
      p.StandsAlone := by
    simp only [List.forall_mem_cons]
    exact ⟨Piece.standsAlone_of_mem_fixed (by decide), assignedVariable.standsAlone,
      Piece.standsAlone_of_mem_fixed (by decide), h.standAlone⟩
  obtain ⟨list, hlist, hpieces, hlines⟩ := exists_lexemes_line halone
  have htail : Lexeme.lexemes (';' :: " END;".toList) =
      ([⟨.token .semicolon, [';']⟩, ⟨.blank, [' ']⟩, ⟨.token .word, ['E', 'N', 'D']⟩,
        ⟨.token .semicolon, [';']⟩], none) := by decide +kernel
  have hdivides : Lexeme.divides ';' = true := by decide
  have hall := Lexeme.lexemes_divided hdivides hlist
    (fun l hl hline => absurd hline (hlines l hl)) " END;".toList
  rw [← toList_program h.lead.ne_nil, htail] at hall
  rw [tokenize_eq, hall]
  refine ⟨_, rfl, ?_⟩
  rw [Lexeme.map_piece_tokensFrom, List.filterMap_append, hpieces, programPieces_eq]
  rfl

/-- A stream whose tokens have the texts they cover shows their pieces, up to its end. -/
theorem Stream.exists_shows {source : String} {s : Stream}
    (h : ∀ t ∈ s.rest, t.text = t.span.text source) :
    ∃ s', s.Shows source (s.rest.map Token.piece) s' ∧ s'.rest = [] := by
  generalize hrest : s.rest = rest at h
  induction rest generalizing s with
  | nil => exact ⟨s, .nil s, hrest⟩
  | cons t rest ih =>
    have hpeek : s.peek = t := by simp [Stream.peek, hrest]
    have hadvance : s.advance.rest = rest := by simp [Stream.advance, hrest]
    obtain ⟨s', hshows, hend⟩ := ih hadvance fun t ht => h t (List.mem_cons_of_mem _ ht)
    refine ⟨s', .cons ⟨by simp [hrest], by rw [hpeek], ?_⟩ hshows, hend⟩
    rw [hpeek, ← h t List.mem_cons_self]
    rfl

section Program

variable {source : String} {e : Expr} {s s' : Stream}

/-- An assignment of an expression is read to its semicolon, and the node that comes out has the
outline of the expression on its right side. -/
theorem exists_simpleStatement {depth : Nat} (h : e.Stands .primary .or)
    (hdepth : e.pieces.length < depth) (hshows : s.Shows source e.assignmentPieces s') :
    ∃ n, simpleStatement (rules depth) s = .ok (n, s') ∧
      n.outline source = .node .assignment [.leaf .name "x", e.outline] := by
  simp only [Expr.assignmentPieces, List.cons_append, Stream.Shows.cons_iff,
    Stream.Shows.append_iff, Stream.Shows.nil_iff] at hshows
  obtain ⟨hvariable, hassign, t, hvalue, hsemicolon, rfl⟩ := hshows
  have hname : (Expr.name assignedVariable).Stands .primary .suffix :=
    (Expr.Stands.name _).of_le (by decide)
  have htarget : s.Shows source (Expr.name assignedVariable).pieces s.advance :=
    .cons hvariable (.nil _)
  obtain ⟨n, hn, hnOutline⟩ := hname.reached.readsBack (Nat.lt_of_le_of_lt (Nat.zero_le _) hdepth)
    htarget (hassign.stops_of_none rfl _)
  obtain ⟨m, hm, hmOutline⟩ := h.reached.inside hdepth hvalue
    (hsemicolon.stops_of_none rfl _)
  rw [reader] at hn
  refine ⟨.mk .assignment (s.peek.span.cover t.peek.span) [n, m], ?_, ?_⟩
  · rw [simpleStatement, ask_bind, bind_of_ok hn, bind_of_ok (eat_of_atKind (hassign.atKind _))]
    simp only [if_true]
    rw [bind_of_ok hm, pure_bind_run]
    exact bind_of_ok (expect_of_atKind _ (hsemicolon.atKind _))
  · rw [Node.outline_mk rfl (by simp), List.map_cons, List.map_singleton, hnOutline, hmOutline]
    rfl

/-- The name of the assigned variable is no word that starts a statement of another kind. -/
theorem wordStatement_variable (r : Rules) (s : Stream) :
    wordStatement r "x" s = simpleStatement r := by
  simp [wordStatement, sqlStatements, otherStatements]

/-- The statement that is read where an assignment of an expression stands is this assignment. -/
theorem exists_statement {depth : Nat} (h : e.Stands .primary .or)
    (hdepth : e.pieces.length < depth) (hshows : s.Shows source e.assignmentPieces s') :
    ∃ n, statement (rules depth) s = .ok (some n, s') ∧
      n.outline source = .node .assignment [.leaf .name "x", e.outline] := by
  obtain ⟨n, hn, houtline⟩ := exists_simpleStatement h hdepth hshows
  refine ⟨n, ?_, houtline⟩
  have hat : s.At source assignedVariable.toPiece := hshows.at_of_cons
  have hkind : s.kind = .word := hat.kind
  have hlower : s.peek.lowerText = "x" := hat.lowerText.trans assignedVariable_lowerText
  rw [statement, get_bind]
  simp only [hkind, hlower, wordStatement_variable]
  rw [bind_of_ok hn]
  rfl

/-- The statements of the program are one, the assignment, and reading them stops in front of
`END`. -/
theorem exists_statements {depth : Nat} (h : e.Stands .primary .or)
    (hdepth : e.pieces.length < depth) (hshows : s.Shows source e.assignmentPieces s')
    (hend : s'.At source (.keyword "END")) :
    ∃ n, statements (rules (depth + 1)) ["exception", "end"] s = .ok ([n], s') ∧
      n.outline source = .node .assignment [.leaf .name "x", e.outline] := by
  obtain ⟨n, hn, houtline⟩ := exists_statement h hdepth hshows
  refine ⟨n, ?_, houtline⟩
  have hat : s.At source assignedVariable.toPiece := hshows.at_of_cons
  have hmore : (!s.atEnd && !s.atAnyWord ["exception", "end"]) = true := by
    rw [hat.atAnyWord, Stream.atEnd, List.isEmpty_eq_false_iff.2 hat.rest,
      assignedVariable_lowerText]
    simp
  have hlast : (!s'.atEnd && !s'.atAnyWord ["exception", "end"]) = false := by
    rw [hend.atAnyWord, Stream.atEnd, List.isEmpty_eq_false_iff.2 hend.rest]
    simp
  have hturn : Turn (manyStep (fun s => !s.atEnd && !s.atAnyWord ["exception", "end"])
      (rules (depth + 1)).statement) ([], s) ([some n], s') := by
    constructor
    · rw [manyStep, get_bind, if_pos hmore]
      exact bind_of_ok hn
    · have hlength := hshows.length
      rw [Expr.assignmentPieces, List.cons_append, List.length_cons] at hlength
      dsimp only
      omega
  rw [statements, bind_of_ok (many_of_turns (.single hturn) hlast)]
  rfl

/-- The body of the program is read with the assignment as its only statement. -/
theorem exists_body {depth : Nat} (h : e.Stands .primary .or) (hdepth : e.pieces.length < depth)
    (hshows : s.Shows source e.programPieces s') :
    ∃ n, body (rules (depth + 1)) s = .ok (n, s') ∧
      n.outline source = .node .body [.node .assignment [.leaf .name "x", e.outline]] := by
  simp only [Expr.programPieces, List.cons_append, Stream.Shows.cons_iff,
    Stream.Shows.append_iff, Stream.Shows.nil_iff] at hshows
  obtain ⟨hbegin, t, hassignment, hend, hsemicolon, rfl⟩ := hshows
  obtain ⟨n, hn, houtline⟩ := exists_statements h hdepth hassignment hend
  have hlabel : eatEndLabel t.advance = .ok ((), t.advance) := by
    rw [eatEndLabel, get_bind, Stream.atIdentifier, hsemicolon.kind]
    rfl
  refine ⟨.mk .body (s.peek.span.cover t.advance.lastSpan) [n], ?_, ?_⟩
  · rw [body, bind_of_ok (expectWord_of_atWord ((hbegin.atWord _).trans (by simp))),
      bind_of_ok hn,
      bind_of_ok (eatWord_of_not ((hend.atWord _).trans (by simp)))]
    simp only [Bool.false_eq_true, if_false]
    rw [pure_bind_run,
      bind_of_ok (expectWord_of_atWord ((hend.atWord _).trans (by simp))),
      bind_of_ok hlabel, lastSpan_bind, bind_of_ok (eat_of_atKind (hsemicolon.atKind _))]
    rfl
  · rw [Node.outline_mk rfl (by simp), List.map_singleton, houtline]

/-- The block that the program is has no labels and no declarations, only its body. -/
theorem exists_block {depth : Nat} (h : e.Stands .primary .or) (hdepth : e.pieces.length < depth)
    (hshows : s.Shows source e.programPieces s') :
    ∃ n, block (rules (depth + 1)) s = .ok (n, s') ∧ n.outline source =
      .node .anonymousBlock [.node .body [.node .assignment [.leaf .name "x", e.outline]]] := by
  obtain ⟨n, hn, houtline⟩ := exists_body h hdepth hshows
  have hbegin : s.At source (.keyword "BEGIN") := hshows.at_of_cons
  have hlabels : many (·.atKind .labelOpen) label s = .ok ([], s) :=
    many_of_turns .refl (hbegin.atKind _)
  refine ⟨.mk .anonymousBlock (s.peek.span.cover s'.lastSpan) [n], ?_, ?_⟩
  · rw [block, bind_of_ok hlabels, ask_bind,
      bind_of_ok (eatWord_of_not ((hbegin.atWord _).trans (by simp)))]
    simp only [Bool.false_eq_true, if_false]
    rw [pure_bind_run, bind_of_ok hn]
    rfl
  · rw [Node.outline_mk rfl (by simp), List.map_singleton, houtline]

/-- The program unit that is read from the printed program is an anonymous block with the
assignment as the only statement of its body. -/
theorem exists_programUnit {depth : Nat} (h : e.Stands .primary .or)
    (hdepth : e.pieces.length < depth) (hshows : s.Shows source e.programPieces s') :
    ∃ n, programUnit (rules (depth + 1)) s = .ok (some n, s') ∧ n.outline source =
      .node .anonymousBlock [.node .body [.node .assignment [.leaf .name "x", e.outline]]] := by
  obtain ⟨n, hn, houtline⟩ := exists_block h hdepth hshows
  refine ⟨n, ?_, houtline⟩
  have hbegin : s.At source (.keyword "BEGIN") := hshows.at_of_cons
  have hmark : (s.atKind .slash || s.atKind .semicolon) = false := by
    rw [hbegin.atKind, hbegin.atKind]
    rfl
  have hcreate : s.atWord "create" = false := (hbegin.atWord _).trans (by simp)
  have hblock : s.atAnyWord ["declare", "begin"] = true :=
    (hbegin.atAnyWord _).trans (by simp)
  rw [programUnit, get_bind, if_neg (by simp [hmark]), if_neg (by simp [hcreate]),
    if_pos (by simp [hblock]), bind_of_ok hn]
  rfl

/-- The printed program is read to its end as one program unit, at any depth beyond the number of
pieces. -/
theorem exists_program (h : e.Stands .primary .or) (hshows : s.Shows source e.programPieces s')
    (hend : s'.rest = []) {depth : Nat} (hdepth : e.pieces.length < depth) :
    ∃ n, program depth s = .ok ([n], s') ∧ n.outline source =
      .node .anonymousBlock [.node .body [.node .assignment [.leaf .name "x", e.outline]]] := by
  obtain ⟨n, hn, houtline⟩ := exists_programUnit h hdepth hshows
  refine ⟨n, ?_, houtline⟩
  have hbegin : s.At source (.keyword "BEGIN") := hshows.at_of_cons
  have hturn : Turn (manyStep (fun s => !s.atEnd) (programUnit (rules (depth + 1)))) ([], s)
      ([some n], s') := by
    constructor
    · rw [manyStep, get_bind,
        if_pos (by simp [Stream.atEnd, List.isEmpty_eq_false_iff.2 hbegin.rest])]
      exact bind_of_ok hn
    · have hlength := hshows.length
      rw [Expr.programPieces, List.cons_append, List.length_cons] at hlength
      dsimp only
      omega
  rw [program, bind_of_ok (many_of_turns (.single hturn) (by simp [Stream.atEnd, hend]))]
  rfl

end Program

/-- **Printing and parsing give an expression back.**  The program that assigns an
expression to a variable is parsed, and what it assigns has the kinds, the shape
and the texts of the expression. -/
theorem outline_parse_program {e : Expr} (h : e.Stands .primary .or) :
    ∃ t, parse e.program = .ok t ∧ t.root.outline e.program = e.programOutline := by
  obtain ⟨tokens, htokens, hpieces⟩ := h.exists_tokens
  obtain ⟨s', hshows, hend⟩ := Stream.exists_shows (s := Stream.start e.program tokens)
    fun t ht => token_text htokens ht
  have hlength : tokens.tokens.length = e.pieces.length + 6 := by
    rw [← List.length_map (f := Token.piece), hpieces, Expr.programPieces_eq]
    simp
  have hrest : (Stream.start e.program tokens).rest.map Token.piece = e.programPieces := hpieces
  rw [hrest] at hshows
  have hdepth : e.pieces.length < tokens.tokens.length := by omega
  obtain ⟨n, hn, houtline⟩ := exists_program h hshows hend hdepth
  refine ⟨⟨e.program, .mk .compilationUnit ⟨0, e.program.utf8ByteSize, 1, 1⟩ [n]⟩, ?_, ?_⟩
  · have hrun : (program tokens.tokens.length).run (Stream.start e.program tokens) =
        .ok ([n], s') := hn
    rw [parse, htokens]
    show (do
      let run ← (program tokens.tokens.length).run (Stream.start e.program tokens)
      return _) = _
    rw [hrun]
    rfl
  · rw [Node.outline_mk rfl (by simp), List.map_singleton, houtline]
    rfl

/-- `NOT - a ** 2 NOT BETWEEN b AND c` -/
def rangeTest : Expr :=
  .not (.between true
    (.binary .power (.sign .neg (.name (.word "a" (by decide +kernel) (by decide +kernel))))
      (.literal ⟨.number, "2", by decide +kernel⟩))
    (.name (.word "b" (by decide +kernel) (by decide +kernel)))
    (.name (.word "c" (by decide +kernel) (by decide +kernel))))

/-- `:v IN ( 'é' , f ( p => d . "e" ) )` -/
def listTest : Expr :=
  .isIn false (.literal ⟨.bindVariable, ":v", by decide +kernel⟩)
    (.list (.literal ⟨.string, "'é'", by decide +kernel⟩)
      [.call (.name (.word "f" (by decide +kernel) (by decide +kernel)))
        [(some (.word "p" (by decide +kernel) (by decide +kernel)),
          .member (.name (.word "d" (by decide +kernel) (by decide +kernel)))
            ⟨⟨.quotedIdent, "\"e\""⟩, rfl, by decide +kernel, by simp⟩)]])

/-- The range test stands at the level of `NOT`: its bounds are operands that bind more tightly
than the comparison. -/
theorem rangeTest_stands : rangeTest.Stands .primary .not := by
  apply Expr.Stands.not
  apply Expr.Stands.looser
  apply Expr.Stands.between
  · refine Expr.Stands.of_le (?_ : Expr.Stands _ .power _) (by decide)
    apply Expr.Stands.binary rfl (by decide)
    · exact .looser (.sign _ ((Expr.Stands.name _).of_le (by decide)))
    · exact (Expr.Stands.literal _).of_le (by decide)
  · exact (Expr.Stands.name _).of_le (by decide)
  · exact (Expr.Stands.name _).of_le (by decide)

/-- The list test stands at the level of comparisons, with a list in parentheses on its right
side. -/
theorem listTest_stands : listTest.Stands .primary .comparison := by
  apply Expr.Stands.isIn
  · exact (Expr.Stands.literal _).of_le (by decide)
  · apply Expr.Stands.list
    · exact (Expr.Stands.literal _).of_le (by decide)
    · simp only [List.forall_mem_cons]
      refine ⟨?_, by simp⟩
      refine Expr.Stands.of_le (?_ : Expr.Stands _ .suffix _) (by decide)
      apply Expr.Stands.call ((Expr.Stands.name _).of_le (by decide))
      simp only [List.forall_mem_cons]
      refine ⟨?_, by simp⟩
      refine Expr.Stands.of_le (?_ : Expr.Stands _ .suffix _) (by decide)
      exact .member ((Expr.Stands.name _).of_le (by decide)) _

/-- One of the two tests or the other: `BETWEEN` keeps its own `AND`, and `NOT` is read
both in front of a test and inside it. -/
theorem outline_parse_program_of_tests :
    (Expr.binary .or rangeTest listTest).program = "BEGIN x := " ++
        "NOT - a ** 2 NOT BETWEEN b AND c OR :v IN ( 'é' , f ( p => d . \"e\" ) )" ++ "; END;" ∧
      ∃ t, parse (Expr.binary .or rangeTest listTest).program = .ok t ∧
        t.root.outline (Expr.binary .or rangeTest listTest).program =
          (Expr.binary .or rangeTest listTest).programOutline := by
  have hstands : (Expr.binary .or rangeTest listTest).Stands .primary .or :=
    .binary rfl (by decide) (rangeTest_stands.of_le (by decide)) (listTest_stands.of_le (by decide))
  exact ⟨by decide +kernel, outline_parse_program hstands⟩

/-- `a IN b . c` -/
def memberTest : Expr :=
  .isIn false (.name (.word "a" (by decide +kernel) (by decide +kernel)))
    (.member (.name (.word "b" (by decide +kernel) (by decide +kernel)))
      (.word "c" (by decide +kernel) (by decide +kernel)))

/-- Behind `IN` no suffix is read.  The members of a record can stand behind any other
comparison, but not there. -/
theorem memberTest_not_parsed :
    memberTest.Stands .additive .or ∧ memberTest.program = "BEGIN x := a IN b . c; END;" ∧
      ∀ t, parse memberTest.program ≠ .ok t := by
  have hstands : memberTest.Stands .additive .comparison := by
    apply Expr.Stands.isIn _ ((Expr.Stands.name _).of_le (by decide))
    refine Expr.Stands.of_le (?_ : Expr.Stands _ .suffix _) (by decide)
    exact .member ((Expr.Stands.name _).of_le (by decide)) _
  have hfails : (parse memberTest.program).toOption.isNone = true := by decide +kernel
  refine ⟨hstands.of_le (by decide), by decide +kernel, ?_⟩
  intro t ht
  rw [ht] at hfails
  cases hfails

end PlsqlAudit
