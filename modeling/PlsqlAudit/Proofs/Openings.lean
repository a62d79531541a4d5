import PlsqlAudit.Token.Lexeme

/-!
# How lexemes are opened and closed

The first characters of a text decide what stands at its front: a blank, a comment,
a literal, a word and so on.  This is the opening of the text (`Lexeme.opening`), and
each opening has a reader of its own (`Lexeme.Opening.read`).  Reading a lexeme is no
more than that (`Lexeme.scan_eq_read`).  So a fact about lexemes comes down to two
questions: what becomes of the opening, and what its reader does.

A mark that closes something closes it whatever follows, except that a second
apostrophe would make the two stand for one inside a string.
-/

namespace PlsqlAudit

namespace Lexeme

variable {cs rest after : List Char} {cut : Cut} {c : Char} {l : Lexeme}

/-! ### Openings -/

/-- What the first characters of a text make of what stands there. -/
inductive Opening where
  | blank
  | lineComment
  | blockComment
  /-- A string, with so many letters in front of its apostrophe. -/
  | literal (letters : Nat) (quotation : Bool)
  | word
  | number
  | quotedIdent
  | bindVariable
  | operator

/-- What stands at the front of `c :: rest`. -/
def opening (c : Char) (rest : List Char) : Opening :=
  if Text.isBlank c then .blank
  else if c == '-' && rest.head? == some '-' then .lineComment
  else if c == '/' && rest.head? == some '*' then .blockComment
  else
    match literalLetters (c :: rest) with
    | some (letters, quotation) => .literal letters quotation
    | none =>
      if Text.isAlphabetic c then .word
      else if c.isDigit || (c == '.' && rest.head?.any Char.isDigit) then .number
      else if c == '\'' then .literal 0 false
      else if c == '"' then .quotedIdent
      else if c == ':' && rest.head?.any Text.isAlphanumeric then .bindVariable
      else .operator

namespace Opening

/-- Reads what is opened off the front of `c :: rest`. -/
def read (c : Char) (rest : List Char) : Opening → Scan
  | .blank => .ok (⟨.blank, [c]⟩, rest)
  | .lineComment =>
    .ok (⟨.lineComment, c :: rest.takeWhile (· != '\n')⟩, rest.dropWhile (· != '\n'))
  | .blockComment =>
    closed .blockComment .blockComment
      ((closePair '*' '/' rest.tail).map fun cut => (cut.push '*').push c)
  | .literal letters quotation => Lexeme.literal letters quotation (c :: rest)
  | .word => .ok (⟨.token .word, c :: rest.takeWhile continuesWord⟩, rest.dropWhile continuesWord)
  | .number => .ok (⟨.token .number, (Lexeme.number (c :: rest)).1⟩, (Lexeme.number (c :: rest)).2)
  | .quotedIdent =>
    closed (.token .quotedIdent) .quotedIdentifier ((closeChar '"' rest).map (·.push c))
  | .bindVariable =>
    .ok (⟨.token .bindVar, c :: rest.takeWhile continuesWord⟩, rest.dropWhile continuesWord)
  | .operator =>
    .ok (⟨.token (Lexeme.operator c rest).1, (Lexeme.operator c rest).2.1⟩,
      (Lexeme.operator c rest).2.2)

/-- What an opening is read as. -/
def kind (c : Char) (rest : List Char) : Opening → LexemeKind
  | .blank => .blank
  | .lineComment => .lineComment
  | .blockComment => .blockComment
  | .literal _ _ => .token .string
  | .word => .token .word
  | .number => .token .number
  | .quotedIdent => .token .quotedIdent
  | .bindVariable => .token .bindVar
  | .operator => .token (Lexeme.operator c rest).1

/-- The characters at the front of `c :: rest` can be those of an opening. -/
def Shown (c : Char) (rest : List Char) : Opening → Prop
  | .blank => Text.isBlank c = true
  | .lineComment => c = '-' ∧ rest.head? = some '-'
  | .blockComment => c = '/' ∧ rest.head? = some '*'
  | .literal letters quotation =>
    literalLetters (c :: rest) = some (letters, quotation) ∨
      c = '\'' ∧ letters = 0 ∧ quotation = false
  | .word => Text.isAlphabetic c = true
  | .number => c.isDigit = true ∨ c = '.' ∧ rest.head?.any Char.isDigit = true
  | .quotedIdent => c = '"'
  | .bindVariable => c = ':' ∧ rest.head?.any Text.isAlphanumeric = true
  | .operator => True

end Opening

/-- To read a lexeme is to read what is opened. -/
theorem scan_eq_read (c : Char) (rest : List Char) : scan c rest = (opening c rest).read c rest := by
  unfold opening scan scanToken
  split
  · rfl
  split
  · rfl
  split
  · rfl
  cases literalLetters (c :: rest) with
  | some found => rfl
  | none =>
    dsimp only
    split
    · rfl
    split
    · rfl
    split
    · rfl
    split
    · rfl
    split
    · rfl
    · rfl

/-- The characters of an opening are there. -/
theorem shown_opening (c : Char) (rest : List Char) : (opening c rest).Shown c rest := by
  unfold opening
  split
  · assumption
  split
  case isTrue hline =>
    simpa [Opening.Shown] using hline
  split
  case isTrue hblock =>
    simpa [Opening.Shown] using hblock
  cases hletters : literalLetters (c :: rest) with
  | some found => exact .inl hletters
  | none =>
    dsimp only
    split
    · assumption
    split
    case isTrue hnumber =>
      simpa [Opening.Shown] using hnumber
    split
    case isTrue hquote =>
      exact .inr ⟨by simpa using hquote, rfl, rfl⟩
    split
    case isTrue hident =>
      simpa [Opening.Shown] using hident
    split
    case isTrue hbind =>
      simpa [Opening.Shown] using hbind
    case isFalse => trivial

/-! ### Kinds -/

theorem closed_kind {kind : LexemeKind} {what : Unclosed} {found : Option Cut}
    (h : closed kind what found = .ok (l, after)) : l.kind = kind := by
  cases found with
  | none => simp [closed] at h
  | some cut =>
    simp only [closed, Except.ok.injEq, Prod.mk.injEq] at h
    rw [← h.1]

theorem literal_kind {letters : Nat} {quotation : Bool}
    (h : literal letters quotation cs = .ok (l, after)) : l.kind = .token .string := by
  unfold literal at h
  cases quotation with
  | true => exact closed_kind h
  | false => exact closed_kind h

/-- The kind of a lexeme is that of its opening. -/
theorem kind_of_scan (h : scan c rest = .ok (l, after)) : l.kind = (opening c rest).kind c rest := by
  rw [scan_eq_read] at h
  cases hopening : opening c rest with
  | blank | lineComment | word | number | bindVariable | operator =>
    rw [hopening] at h
    obtain ⟨rfl, -⟩ := Prod.mk.inj (Except.ok.inj h)
    rfl
  | blockComment | quotedIdent =>
    rw [hopening] at h
    exact closed_kind h
  | literal letters quotation =>
    rw [hopening] at h
    exact literal_kind h

/-! ### Literals -/

/-- A literal with letters in front has them in front of its first apostrophe. -/
theorem exists_of_literalLetters {letters : Nat} {quotation : Bool}
    (h : literalLetters cs = some (letters, quotation)) :
    ∃ front body, cs = front ++ '\'' :: body ∧ front.length = letters ∧ '\'' ∉ front := by
  match cs with
  | a :: b :: c :: rest =>
    rw [literalLetters] at h
    by_cases hb : b = '\''
    · refine ⟨[a], c :: rest, ?_, ?_, ?_⟩ <;> grind
    · refine ⟨[a, b], rest, ?_, ?_, ?_⟩ <;> grind
  | [a, b] =>
    rw [literalLetters] at h
    refine ⟨[a], [], ?_, ?_, ?_⟩ <;> grind
  | [] => simp [literalLetters] at h
  | [_] => simp [literalLetters] at h

/-- So has any literal, with letters or without. -/
theorem Opening.Shown.exists_front {letters : Nat} {quotation : Bool}
    (h : (Opening.literal letters quotation).Shown c rest) :
    ∃ front body, c :: rest = front ++ '\'' :: body ∧ front.length = letters ∧ '\'' ∉ front := by
  rcases h with h | ⟨rfl, rfl, -⟩
  · exact exists_of_literalLetters h
  · exact ⟨[], rest, rfl, rfl, List.not_mem_nil⟩

theorem Opening.Shown.length_le {letters : Nat} {quotation : Bool}
    (h : (Opening.literal letters quotation).Shown c rest) :
    letters + 1 ≤ (c :: rest).length := by
  obtain ⟨front, body, hopen, rfl, -⟩ := h.exists_front
  rw [hopen, List.length_append, List.length_cons]
  omega

/-! ### What is closed is closed whatever follows -/

theorem closeString_append (h : closeString cs = some cut) {more : List Char}
    (hmore : more.head? ≠ some '\'') : closeString (cut.1 ++ more) = some (cut.1, more) := by
  fun_induction closeString cs generalizing cut with
  | case1 => simp at h
  | case2 rest ih =>
    obtain ⟨inner, hinner, rfl⟩ := Option.map_eq_some_iff.1 h
    simp [closeString, ih hinner, Cut.push]
  | case3 rest hrest =>
    obtain rfl := Option.some.inj h
    cases more with
    | nil => rfl
    | cons d more =>
      have hd : d ≠ '\'' := by simpa using hmore
      simp [closeString, hd]
  | case4 c rest hquotes hquote ih =>
    obtain ⟨inner, hinner, rfl⟩ := Option.map_eq_some_iff.1 h
    have hc : c ≠ '\'' := fun hc => hquote hc
    simp [closeString, hc, ih hinner, Cut.push]

/-- A string is closed by the last of its apostrophes. -/
theorem head?_of_closeString (h : closeString cs = some cut) : cut.2.head? ≠ some '\'' := by
  fun_induction closeString cs generalizing cut with
  | case1 => simp at h
  | case2 rest ih | case4 c rest hquotes hquote ih =>
    obtain ⟨inner, hinner, rfl⟩ := Option.map_eq_some_iff.1 h
    simpa [Cut.push] using ih hinner
  | case3 rest hrest =>
    obtain rfl := Option.some.inj h
    intro hhead
    obtain ⟨more, hmore⟩ := List.head?_eq_some_iff.1 hhead
    exact hrest more hmore

theorem closePair_ne_nil {first second : Char} (h : closePair first second cs = some cut) :
    cut.1 ≠ [] := by
  cases cs with
  | nil => simp [closePair] at h
  | cons c rest =>
    rw [closePair] at h
    split at h
    · obtain rfl := Option.some.inj h
      simp
    · obtain ⟨inner, -, rfl⟩ := Option.map_eq_some_iff.1 h
      simp [Cut.push]

theorem closePair_append {first second : Char} (h : closePair first second cs = some cut)
    (more : List Char) : closePair first second (cut.1 ++ more) = some (cut.1, more) := by
  induction cs generalizing cut with
  | nil => simp [closePair] at h
  | cons c rest ih =>
    rw [closePair] at h
    split at h
    case isTrue hpair =>
      obtain rfl := Option.some.inj h
      obtain ⟨hc, -⟩ := Bool.and_eq_true_iff.1 hpair
      simp [closePair, hc]
    case isFalse hpair =>
      obtain ⟨inner, hinner, rfl⟩ := Option.map_eq_some_iff.1 h
      have hhead : (inner.1 ++ more).head? = rest.head? := by
        have hof : inner.1 ++ inner.2 = rest := closePair_of hinner
        cases hread : inner.1 with
        | nil => exact absurd hread (closePair_ne_nil hinner)
        | cons e read => simp [← hof, hread]
      show closePair first second (c :: (inner.1 ++ more)) = _
      rw [closePair, hhead, if_neg hpair, ih hinner]
      rfl

theorem closeChar_append {close : Char} (h : closeChar close cs = some cut) (more : List Char) :
    closeChar close (cut.1 ++ more) = some (cut.1, more) := by
  induction cs generalizing cut with
  | nil => simp [closeChar] at h
  | cons c rest ih =>
    rw [closeChar] at h
    split at h
    case isTrue hc =>
      obtain rfl := Option.some.inj h
      simp [closeChar, hc]
    case isFalse hc =>
      obtain ⟨inner, hinner, rfl⟩ := Option.map_eq_some_iff.1 h
      simp [closeChar, hc, ih hinner, Cut.push]

theorem closeQuotation_append (h : closeQuotation cs = some cut) (more : List Char) :
    closeQuotation (cut.1 ++ more) = some (cut.1, more) := by
  cases cs with
  | nil => simp [closeQuotation] at h
  | cons delimiter rest =>
    obtain ⟨inner, hinner, rfl⟩ := Option.map_eq_some_iff.1 h
    simp [closeQuotation, Cut.push, closePair_append hinner]

end Lexeme

end PlsqlAudit
