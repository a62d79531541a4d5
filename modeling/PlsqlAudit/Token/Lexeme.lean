import PlsqlAudit.Text.Blank
import PlsqlAudit.Text.Numeric
import PlsqlAudit.Token.Basic

/-!
# Lexemes

A program text is cut into lexemes: blanks, comments and tokens.  `scan` reads
one lexeme off the front of a text and `lexemes` reads them all, so what it
returns joins up to the text it was given, except that a literal or comment
which is never closed ends the reading there.

Two rules look further than the next character.  A number takes a decimal point
only when no second point follows it, so that `1..10` is a range; and a word that
is `n`, `q` or `nq` in front of an apostrophe starts a string literal.
-/

namespace PlsqlAudit

/-- What a lexeme is. -/
inductive LexemeKind where
  | blank
  | lineComment
  | blockComment
  | token (kind : TokenKind)
  deriving DecidableEq, Repr, Inhabited

/-- A piece of text between two cuts. -/
structure Lexeme where
  kind : LexemeKind
  text : List Char
  deriving DecidableEq, Repr, Inhabited

/-- A construct that was opened and not closed before the text ended. -/
inductive Unclosed where
  | stringLiteral
  | quotedIdentifier
  | quotedStringLiteral
  | blockComment
  deriving DecidableEq, Repr, Inhabited

/-- What error messages call the construct. -/
def Unclosed.name : Unclosed → String
  | .stringLiteral => "string literal"
  | .quotedIdentifier => "quoted identifier"
  | .quotedStringLiteral => "quoted string literal"
  | .blockComment => "block comment"

namespace Lexeme

/-- A text cut in two: what was read, and what follows. -/
abbrev Cut := List Char × List Char

/-- The cut with `c` put in front of what was read. -/
def Cut.push (c : Char) (cut : Cut) : Cut := (c :: cut.1, cut.2)

/-- Characters that may continue a word. -/
def continuesWord (c : Char) : Bool :=
  Text.isAlphanumeric c || c == '_' || c == '$' || c == '#'

/-- Reads up to and with the apostrophe that closes a string; two apostrophes in
a row stand for one and do not close it. -/
def closeString : List Char → Option Cut
  | [] => none
  | '\'' :: '\'' :: rest => (closeString rest).map fun cut => (cut.push '\'').push '\''
  | '\'' :: rest => some (['\''], rest)
  | c :: rest => (closeString rest).map (·.push c)

/-- Reads up to and with the first `first` that has `second` right after it. -/
def closePair (first second : Char) : List Char → Option Cut
  | [] => none
  | c :: rest =>
    if c == first && rest.head? == some second then some ([c, second], rest.tail)
    else (closePair first second rest).map (·.push c)

/-- Reads up to and with the next `close`. -/
def closeChar (close : Char) : List Char → Option Cut
  | [] => none
  | c :: rest => if c == close then some ([c], rest) else (closeChar close rest).map (·.push c)

/-- The character that closes an alternative quotation opened by `c`. -/
def closerOf : Char → Char
  | '[' => ']'
  | '\x7b' => '\x7d'
  | '(' => ')'
  | '<' => '>'
  | c => c

/-- Reads an alternative quotation from just after its apostrophe: a delimiter,
the text, and the closing delimiter in front of an apostrophe. -/
def closeQuotation : List Char → Option Cut
  | [] => none
  | delimiter :: rest => (closePair (closerOf delimiter) '\'' rest).map (·.push delimiter)

/-- Reads the fraction of a number, if one follows. -/
def fraction : List Char → Cut
  | '.' :: rest =>
    if rest.head? == some '.' then ([], '.' :: rest)
    else ('.' :: rest.takeWhile Char.isDigit, rest.dropWhile Char.isDigit)
  | cs => ([], cs)

/-- Reads the exponent of a number, if one follows. -/
def exponent (cs : List Char) : Cut :=
  match cs with
  | e :: sign :: digit :: rest =>
    if (e == 'e' || e == 'E') && sign.isDigit then
      (e :: (sign :: digit :: rest).takeWhile Char.isDigit,
        (sign :: digit :: rest).dropWhile Char.isDigit)
    else if (e == 'e' || e == 'E') && (sign == '+' || sign == '-') && digit.isDigit then
      (e :: sign :: (digit :: rest).takeWhile Char.isDigit, (digit :: rest).dropWhile Char.isDigit)
    else ([], cs)
  | [e, digit] =>
    if (e == 'e' || e == 'E') && digit.isDigit then ([e, digit], []) else ([], cs)
  | _ => ([], cs)

/-- Reads a number: digits, a fraction and an exponent, each of which may be
missing. -/
def number (cs : List Char) : Cut :=
  let digits := cs.takeWhile Char.isDigit
  let (point, rest) := fraction (cs.dropWhile Char.isDigit)
  let (power, rest) := exponent rest
  (digits ++ point ++ power, rest)

/-- The token of one character. -/
def single : Char → TokenKind
  | '(' => .lParen
  | ')' => .rParen
  | ',' => .comma
  | ';' => .semicolon
  | '+' => .plus
  | '-' => .minus
  | '/' => .slash
  | '%' => .percent
  | '@' => .atSign
  | ':' => .colon
  | '=' => .eq
  | '.' => .dot
  | '*' => .star
  | '<' => .lt
  | '>' => .gt
  | _ => .other

/-- The token of two characters, where they make one. -/
def double : Char → Char → Option TokenKind
  | ':', '=' => some .assign
  | '=', '>' => some .arrow
  | '|', '|' => some .concat
  | '.', '.' => some .dotDot
  | '*', '*' => some .power
  | '<', '=' => some .ltEq
  | '<', '>' => some .notEq
  | '<', '<' => some .labelOpen
  | '>', '=' => some .gtEq
  | '>', '>' => some .labelClose
  | '!', '=' => some .notEq
  | '~', '=' => some .notEq
  | '^', '=' => some .notEq
  | _, _ => none

/-- Reads an operator or a mark of punctuation. -/
def operator (c : Char) (rest : List Char) : TokenKind × Cut :=
  match rest with
  | d :: after =>
    match double c d with
    | some kind => (kind, [c, d], after)
    | none => (single c, [c], rest)
  | [] => (single c, [c], rest)

/-- The letters in front of an apostrophe that make a string literal of what
follows: how many they are, and whether an alternative quotation follows. -/
def literalLetters : List Char → Option (Nat × Bool)
  | a :: b :: c :: _ =>
    if (a == 'n' || a == 'N') && b == '\'' then some (1, false)
    else if (a == 'n' || a == 'N') && (b == 'q' || b == 'Q') && c == '\'' then some (2, true)
    else if (a == 'q' || a == 'Q') && b == '\'' then some (1, true)
    else none
  | [a, b] =>
    if (a == 'n' || a == 'N') && b == '\'' then some (1, false)
    else if (a == 'q' || a == 'Q') && b == '\'' then some (1, true)
    else none
  | _ => none

/-- The outcome of reading one lexeme: it and the rest of the text, or what is
not closed. -/
abbrev Scan := Except Unclosed (Lexeme × List Char)

/-- The lexeme of a cut, or the construct that was not closed. -/
def closed (kind : LexemeKind) (what : Unclosed) : Option Cut → Scan
  | some (text, rest) => .ok (⟨kind, text⟩, rest)
  | none => .error what

/-- Reads a string literal that starts with `letters` letters and an
apostrophe. -/
def literal (letters : Nat) (quotation : Bool) (cs : List Char) : Scan :=
  let opening := cs.take (letters + 1)
  let body := cs.drop (letters + 1)
  if quotation then
    closed (.token .string) .quotedStringLiteral
      ((closeQuotation body).map fun cut => (opening ++ cut.1, cut.2))
  else
    closed (.token .string) .stringLiteral
      ((closeString body).map fun cut => (opening ++ cut.1, cut.2))

/-- Reads one token off the front of `c :: rest`, which starts with neither a
blank nor a comment. -/
def scanToken (c : Char) (rest : List Char) : Scan :=
  match literalLetters (c :: rest) with
  | some (letters, quotation) => literal letters quotation (c :: rest)
  | none =>
    if Text.isAlphabetic c then
      .ok (⟨.token .word, c :: rest.takeWhile continuesWord⟩, rest.dropWhile continuesWord)
    else if c.isDigit || (c == '.' && rest.head?.any Char.isDigit) then
      let (text, after) := number (c :: rest)
      .ok (⟨.token .number, text⟩, after)
    else if c == '\'' then literal 0 false (c :: rest)
    else if c == '"' then
      closed (.token .quotedIdent) .quotedIdentifier ((closeChar '"' rest).map (·.push c))
    else if c == ':' && rest.head?.any Text.isAlphanumeric then
      .ok (⟨.token .bindVar, c :: rest.takeWhile continuesWord⟩, rest.dropWhile continuesWord)
    else
      let (kind, text, after) := operator c rest
      .ok (⟨.token kind, text⟩, after)

/-- Reads one lexeme off the front of `c :: rest`. -/
def scan (c : Char) (rest : List Char) : Scan :=
  if Text.isBlank c then .ok (⟨.blank, [c]⟩, rest)
  else if c == '-' && rest.head? == some '-' then
    .ok (⟨.lineComment, c :: rest.takeWhile (· != '\n')⟩, rest.dropWhile (· != '\n'))
  else if c == '/' && rest.head? == some '*' then
    closed .blockComment .blockComment
      ((closePair '*' '/' rest.tail).map fun cut => (cut.push '*').push c)
  else scanToken c rest

/-! ### Nothing is lost

What a reader took and what it left join up to what it was given. -/

/-- A cut of `cs`: its two parts join up to `cs`. -/
def Cut.Of (cut : Cut) (cs : List Char) : Prop := cut.1 ++ cut.2 = cs

/-- Reading to the end of a string cuts the text in two and loses nothing of it. -/
theorem closeString_of {cs : List Char} {cut : Cut} (h : closeString cs = some cut) :
    cut.Of cs := by
  fun_induction closeString cs generalizing cut with
  | case1 => simp at h
  | case2 rest ih =>
    obtain ⟨inner, hinner, rfl⟩ := Option.map_eq_some_iff.1 h
    simpa [Cut.Of, Cut.push] using ih hinner
  | case3 rest _ =>
    obtain rfl := Option.some.inj h
    rfl
  | case4 c rest _ _ ih =>
    obtain ⟨inner, hinner, rfl⟩ := Option.map_eq_some_iff.1 h
    simpa [Cut.Of, Cut.push] using ih hinner

/-- Reading to a closing pair of characters cuts the text in two. -/
theorem closePair_of {first second : Char} {cs : List Char} {cut : Cut}
    (h : closePair first second cs = some cut) : cut.Of cs := by
  induction cs generalizing cut with
  | nil => simp [closePair] at h
  | cons c rest ih =>
    rw [closePair] at h
    split at h
    case isTrue hpair =>
      obtain rfl := Option.some.inj h
      obtain ⟨_, hhead⟩ := Bool.and_eq_true_iff.1 hpair
      cases rest with
      | nil => simp at hhead
      | cons d tail => simp_all [Cut.Of]
    case isFalse =>
      obtain ⟨inner, hinner, rfl⟩ := Option.map_eq_some_iff.1 h
      simpa [Cut.Of, Cut.push] using ih hinner

/-- Reading to a closing character cuts the text in two. -/
theorem closeChar_of {close : Char} {cs : List Char} {cut : Cut}
    (h : closeChar close cs = some cut) : cut.Of cs := by
  induction cs generalizing cut with
  | nil => simp [closeChar] at h
  | cons c rest ih =>
    rw [closeChar] at h
    split at h
    · obtain rfl := Option.some.inj h
      rfl
    · obtain ⟨inner, hinner, rfl⟩ := Option.map_eq_some_iff.1 h
      simpa [Cut.Of, Cut.push] using ih hinner

/-- Reading to the end of a quotation with delimiters of its own cuts the text in two. -/
theorem closeQuotation_of {cs : List Char} {cut : Cut} (h : closeQuotation cs = some cut) :
    cut.Of cs := by
  cases cs with
  | nil => simp [closeQuotation] at h
  | cons delimiter rest =>
    obtain ⟨inner, hinner, rfl⟩ := Option.map_eq_some_iff.1 h
    simpa [Cut.Of, Cut.push] using closePair_of hinner

/-- Reading a fraction, or nothing in its place, cuts the text in two. -/
theorem fraction_of (cs : List Char) : (fraction cs).Of cs := by
  unfold fraction
  split
  · split <;> simp [Cut.Of]
  · simp [Cut.Of]

/-- Reading an exponent, or nothing in its place, cuts the text in two. -/
theorem exponent_of (cs : List Char) : (exponent cs).Of cs := by
  unfold exponent
  split
  · split
    · simp only [Cut.Of, List.cons_append, List.takeWhile_append_dropWhile]
    · split
      · simp only [Cut.Of, List.cons_append, List.takeWhile_append_dropWhile]
      · simp [Cut.Of]
  · split <;> simp [Cut.Of]
  · simp [Cut.Of]

/-- Reading a number cuts the text in two, behind its fraction and its exponent. -/
theorem number_of (cs : List Char) : (number cs).Of cs := by
  have hfraction := fraction_of (cs.dropWhile Char.isDigit)
  have hexponent := exponent_of (fraction (cs.dropWhile Char.isDigit)).2
  simp only [Cut.Of] at hfraction hexponent
  simp [Cut.Of, number, hfraction, hexponent]

/-- Reading an operator of one or two characters cuts the text in two. -/
theorem operator_of (c : Char) (rest : List Char) : (operator c rest).2.Of (c :: rest) := by
  unfold operator
  split
  · split <;> rfl
  · rfl

/-- What is read as closed was cut off by the reader that looked for its end. -/
theorem closed_ok {kind : LexemeKind} {what : Unclosed} {cut : Option Cut} {l : Lexeme}
    {after : List Char} (h : closed kind what cut = .ok (l, after)) : cut = some (l.text, after) := by
  cases cut with
  | none => simp [closed] at h
  | some cut =>
    simp only [closed, Except.ok.injEq, Prod.mk.injEq] at h
    obtain ⟨rfl, rfl⟩ := h
    rfl

/-- Reading a literal, with the letters in front of it, cuts the text in two. -/
theorem literal_of {letters : Nat} {quotation : Bool} {cs : List Char} {l : Lexeme}
    {after : List Char} (h : literal letters quotation cs = .ok (l, after)) :
    Cut.Of (l.text, after) cs := by
  have joins : ∀ inner : Cut, inner.Of (cs.drop (letters + 1)) →
      (cs.take (letters + 1) ++ inner.1, inner.2) = (l.text, after) →
      Cut.Of (l.text, after) cs := by
    intro inner hof hcut
    obtain ⟨htext, rfl⟩ := Prod.mk.inj hcut
    change l.text ++ inner.2 = cs
    rw [← htext, List.append_assoc, hof, List.take_append_drop]
  unfold literal at h
  cases quotation with
  | true =>
    obtain ⟨inner, hinner, hcut⟩ := Option.map_eq_some_iff.1 (closed_ok h)
    exact joins inner (closeQuotation_of hinner) hcut
  | false =>
    obtain ⟨inner, hinner, hcut⟩ := Option.map_eq_some_iff.1 (closed_ok h)
    exact joins inner (closeString_of hinner) hcut

/-- Reading a token of any kind cuts the text in two: the text of the token and what is left. -/
theorem scanToken_of {c : Char} {rest after : List Char} {l : Lexeme}
    (h : scanToken c rest = .ok (l, after)) : Cut.Of (l.text, after) (c :: rest) := by
  unfold scanToken at h
  split at h
  · exact literal_of h
  · split at h
    · obtain ⟨rfl, rfl⟩ := Prod.mk.inj (Except.ok.inj h)
      simp [Cut.Of]
    · split at h
      · obtain ⟨rfl, rfl⟩ := Prod.mk.inj (Except.ok.inj h)
        exact number_of _
      · split at h
        · exact literal_of h
        · split at h
          · obtain ⟨inner, hinner, hcut⟩ := Option.map_eq_some_iff.1 (closed_ok h)
            have hof := closeChar_of hinner
            obtain ⟨htext, rfl⟩ := Prod.mk.inj hcut
            simpa [Cut.Of, ← htext] using hof
          · split at h
            · obtain ⟨rfl, rfl⟩ := Prod.mk.inj (Except.ok.inj h)
              simp [Cut.Of]
            · obtain ⟨rfl, rfl⟩ := Prod.mk.inj (Except.ok.inj h)
              exact operator_of c rest

/-- The lexeme that `scan` reads and the text it leaves join up to the text it
was given. -/
theorem scan_of {c : Char} {rest after : List Char} {l : Lexeme}
    (h : scan c rest = .ok (l, after)) : l.text ++ after = c :: rest := by
  unfold scan at h
  split at h
  · obtain ⟨rfl, rfl⟩ := Prod.mk.inj (Except.ok.inj h)
    rfl
  · split at h
    · obtain ⟨rfl, rfl⟩ := Prod.mk.inj (Except.ok.inj h)
      simp
    · split at h
      case isTrue hopen =>
        obtain ⟨inner, hinner, hcut⟩ := Option.map_eq_some_iff.1 (closed_ok h)
        have hof := closePair_of hinner
        obtain ⟨htext, rfl⟩ := Prod.mk.inj hcut
        cases rest with
        | nil => simp at hopen
        | cons d tail => simp_all [Cut.Of, Cut.push, ← htext]
      case isFalse => exact scanToken_of h

/-! ### Every lexeme takes something -/

/-- A literal is at least one character long. -/
theorem literal_ne_nil {letters : Nat} {quotation : Bool} {c : Char} {rest after : List Char}
    {l : Lexeme} (h : literal letters quotation (c :: rest) = .ok (l, after)) : l.text ≠ [] := by
  unfold literal at h
  cases quotation with
  | true =>
    obtain ⟨inner, _, hcut⟩ := Option.map_eq_some_iff.1 (closed_ok h)
    simp [← (Prod.mk.inj hcut).1]
  | false =>
    obtain ⟨inner, _, hcut⟩ := Option.map_eq_some_iff.1 (closed_ok h)
    simp [← (Prod.mk.inj hcut).1]

/-- A number is at least one character long where it starts with a digit, or with a point and a
digit. -/
theorem number_ne_nil {c : Char} {rest : List Char}
    (h : (c.isDigit || (c == '.' && rest.head?.any Char.isDigit)) = true) :
    (number (c :: rest)).1 ≠ [] := by
  by_cases hdigit : c.isDigit = true
  · simp [number, hdigit]
  · have hpoint : c = '.' := by simp_all
    subst hpoint
    cases rest with
    | nil => simp [hdigit] at h
    | cons d tail =>
      have hd : d.isDigit = true := by simpa [hdigit] using h
      have hne : d ≠ '.' := by
        rintro rfl
        exact absurd hd (by decide)
      simp [number, hdigit, fraction, hne]

/-- An operator is at least one character long. -/
theorem operator_ne_nil (c : Char) (rest : List Char) : (operator c rest).2.1 ≠ [] := by
  unfold operator
  split
  · split <;> simp
  · simp

/-- A token is at least one character long, so that the text gets shorter with every token. -/
theorem scanToken_ne_nil {c : Char} {rest after : List Char} {l : Lexeme}
    (h : scanToken c rest = .ok (l, after)) : l.text ≠ [] := by
  unfold scanToken at h
  split at h
  · exact literal_ne_nil h
  · split at h
    · obtain ⟨rfl, _⟩ := Prod.mk.inj (Except.ok.inj h)
      simp
    · split at h
      case isTrue hnumber =>
        obtain ⟨rfl, _⟩ := Prod.mk.inj (Except.ok.inj h)
        exact number_ne_nil hnumber
      case isFalse =>
        split at h
        · exact literal_ne_nil h
        · split at h
          · obtain ⟨inner, _, hcut⟩ := Option.map_eq_some_iff.1 (closed_ok h)
            simp [← (Prod.mk.inj hcut).1]
          · split at h
            · obtain ⟨rfl, _⟩ := Prod.mk.inj (Except.ok.inj h)
              simp
            · obtain ⟨rfl, _⟩ := Prod.mk.inj (Except.ok.inj h)
              exact operator_ne_nil c rest

/-- A lexeme holds at least one character. -/
theorem scan_ne_nil {c : Char} {rest after : List Char} {l : Lexeme}
    (h : scan c rest = .ok (l, after)) : l.text ≠ [] := by
  unfold scan at h
  split at h
  · obtain ⟨rfl, _⟩ := Prod.mk.inj (Except.ok.inj h)
    simp
  · split at h
    · obtain ⟨rfl, _⟩ := Prod.mk.inj (Except.ok.inj h)
      simp
    · split at h
      · obtain ⟨inner, _, hcut⟩ := Option.map_eq_some_iff.1 (closed_ok h)
        simp [← (Prod.mk.inj hcut).1, Cut.push]
      · exact scanToken_ne_nil h

/-- So the text that is left is shorter. -/
theorem scan_length_lt {c : Char} {rest after : List Char} {l : Lexeme}
    (h : scan c rest = .ok (l, after)) : after.length < (c :: rest).length := by
  have hjoin := congrArg List.length (scan_of h)
  have htaken := List.length_pos_iff.2 (scan_ne_nil h)
  rw [List.length_append] at hjoin
  omega

end Lexeme

end PlsqlAudit
