import PlsqlAudit.Proofs.Openings
import PlsqlAudit.Proofs.TokenPlaces

/-!
# Lexemes in front of a divider

Every reader of a lexeme looks ahead a little: whether a word goes on, whether two
characters make one operator, whether a point starts a fraction.  A character that
none of these questions is about divides the text: what stands in front of it is
read as if the text ended there.  Blanks, line feeds and semicolons are dividers.

Only a line comment goes on past a divider, unless it is a line feed.
-/

namespace PlsqlAudit

namespace Lexeme

/-- True for a character that no lexeme goes on with. -/
def divides (b : Char) : Bool :=
  !continuesWord b && !b.isDigit &&
    !(['\'', '.', '+', '-', '=', '<', '>', '|', '*', '/'].contains b)

variable {cs rest after : List Char} {cut : Cut} {b : Char}

/-- A divider is none of the characters that do not divide. -/
theorem ne_of_divides (hb : divides b = true) {c : Char} (hc : divides c = false) : b ≠ c := by
  rintro rfl
  rw [hb] at hc
  cases hc

/-- A divider does not continue a word. -/
theorem not_continuesWord_of_divides (hb : divides b = true) : continuesWord b = false := by
  simp only [divides, Bool.and_eq_true, Bool.not_eq_true'] at hb
  exact hb.1.1

/-- A divider does not continue the digits of a number. -/
theorem not_isDigit_of_divides (hb : divides b = true) : b.isDigit = false := by
  simp only [divides, Bool.and_eq_true, Bool.not_eq_true'] at hb
  exact hb.1.2

/-- A divider is no letter or digit of any script. -/
theorem not_isAlphanumeric_of_divides (hb : divides b = true) : Text.isAlphanumeric b = false := by
  have hword := not_continuesWord_of_divides hb
  simp only [continuesWord, Bool.or_eq_false_iff] at hword
  exact hword.1.1.1

/-- The characters taken up to one that fails the test are not changed by such a character behind
them. -/
theorem takeWhile_divided {p : Char → Bool} (hp : p b = false) (cs more : List Char) :
    (cs ++ b :: more).takeWhile p = cs.takeWhile p := by
  induction cs with
  | nil => simp [hp]
  | cons c cs ih => simp only [List.cons_append, List.takeWhile_cons, ih]

/-- What is left behind these characters is only longer by what was added. -/
theorem dropWhile_divided {p : Char → Bool} (hp : p b = false) (cs more : List Char) :
    (cs ++ b :: more).dropWhile p = cs.dropWhile p ++ b :: more := by
  induction cs with
  | nil => simp [hp]
  | cons c cs ih =>
    simp only [List.cons_append, List.dropWhile_cons, ih]
    split <;> rfl

/-- A question about the next character takes a divider for the end. -/
theorem head?_divided_any {p : Char → Bool} (hp : p b = false) (cs more : List Char) :
    (cs ++ b :: more).head?.any p = cs.head?.any p := by
  cases cs with
  | nil => simp [hp]
  | cons c cs => rfl

/-- Whether a text starts with a certain character does not depend on what follows a divider behind
it. -/
theorem head?_divided_beq {c : Char} (hc : b ≠ c) (cs more : List Char) :
    ((cs ++ b :: more).head? == some c) = (cs.head? == some c) := by
  cases cs with
  | nil => simpa using hc
  | cons c cs => rfl

/-! ### What is closed stays closed -/

/-- A string that is closed in front of a divider is closed at the same place, even though a quote
behind the end would have changed it. -/
theorem closeString_divided (hb : divides b = true) (h : closeString cs = some cut)
    (more : List Char) : closeString (cs ++ b :: more) = some (cut.1, cut.2 ++ b :: more) := by
  have hquote : b ≠ '\'' := ne_of_divides hb (by decide)
  have hnext : (cut.2 ++ b :: more).head? ≠ some '\'' := by
    have hhead := head?_of_closeString h
    cases hrest : cut.2 with
    | nil => simpa using hquote
    | cons d rest => simpa [hrest] using hhead
  rw [← closeString_of h, List.append_assoc]
  exact closeString_append h hnext

/-- What two characters close stays closed at the same place, whatever is added behind. -/
theorem closePair_divided {first second : Char} (h : closePair first second cs = some cut)
    (more : List Char) :
    closePair first second (cs ++ b :: more) = some (cut.1, cut.2 ++ b :: more) := by
  rw [← closePair_of h, List.append_assoc]
  exact closePair_append h _

/-- What one character closes stays closed at the same place, whatever is added behind. -/
theorem closeChar_divided {close : Char} (h : closeChar close cs = some cut) (more : List Char) :
    closeChar close (cs ++ b :: more) = some (cut.1, cut.2 ++ b :: more) := by
  rw [← closeChar_of h, List.append_assoc]
  exact closeChar_append h _

/-- A quoted text with delimiters of its own stays closed at the same place, whatever is added
behind. -/
theorem closeQuotation_divided (h : closeQuotation cs = some cut) (more : List Char) :
    closeQuotation (cs ++ b :: more) = some (cut.1, cut.2 ++ b :: more) := by
  rw [← closeQuotation_of h, List.append_assoc]
  exact closeQuotation_append h _

/-! ### Numbers, operators and letters in front of a literal -/

/-- A fraction does not go on past a divider, nor does a divider make a fraction of a point. -/
theorem fraction_divided (hb : divides b = true) (cs more : List Char) :
    fraction (cs ++ b :: more) = ((fraction cs).1, (fraction cs).2 ++ b :: more) := by
  have hdigit := not_isDigit_of_divides hb
  have hpoint : b ≠ '.' := ne_of_divides hb (by decide)
  cases cs with
  | nil => simp [fraction, hpoint]
  | cons c rest =>
    by_cases hc : c = '.'
    · subst hc
      rw [List.cons_append, fraction, fraction, head?_divided_beq hpoint,
        takeWhile_divided hdigit, dropWhile_divided hdigit]
      split <;> rfl
    · simp [fraction, hc]

/-- An exponent does not go on past a divider, nor does a divider make an exponent of a letter. -/
theorem exponent_divided (hb : divides b = true) (cs more : List Char) :
    exponent (cs ++ b :: more) = ((exponent cs).1, (exponent cs).2 ++ b :: more) := by
  have hdigit := not_isDigit_of_divides hb
  have hsmall : b ≠ 'e' := ne_of_divides hb (by decide)
  have hlarge : b ≠ 'E' := ne_of_divides hb (by decide)
  have hplus : b ≠ '+' := ne_of_divides hb (by decide)
  have hminus : b ≠ '-' := ne_of_divides hb (by decide)
  match cs with
  | [] =>
    match more with
    | [] => rfl
    | [d] => simp [exponent, hsmall, hlarge]
    | d :: d' :: more => simp [exponent, hsmall, hlarge]
  | [e] => cases more <;> simp [exponent, hdigit, hplus, hminus]
  | [e, digit] =>
    cases he : e == 'e' || e == 'E' <;> cases hd : digit.isDigit <;>
      simp [exponent, he, hd, hdigit]
  | e :: sign :: digit :: rest =>
    have htake (cs : List Char) := takeWhile_divided hdigit cs more
    have hdrop (cs : List Char) := dropWhile_divided hdigit cs more
    simp only [List.cons_append, exponent]
    rw [← List.cons_append, ← List.cons_append, htake, hdrop, ← List.cons_append, htake, hdrop]
    split
    · rfl
    · split <;> rfl

/-- A number does not go on past a divider: its digits, its fraction and its exponent all end in
front of it. -/
theorem number_divided (hb : divides b = true) (cs more : List Char) :
    number (cs ++ b :: more) = ((number cs).1, (number cs).2 ++ b :: more) := by
  have hdigit := not_isDigit_of_divides hb
  simp only [number, takeWhile_divided hdigit, dropWhile_divided hdigit, fraction_divided hb,
    exponent_divided hb]

/-- No divider is the second character of an operator of two. -/
theorem double_divided (hb : divides b = true) (c : Char) : double c b = none := by
  unfold double
  split <;> first | rfl | exact absurd hb (by decide)

/-- The operator at the start of a text is the same with a divider behind the text. -/
theorem operator_divided (hb : divides b = true) (c : Char) (rest more : List Char) :
    operator c (rest ++ b :: more) =
      ((operator c rest).1, (operator c rest).2.1, (operator c rest).2.2 ++ b :: more) := by
  cases rest with
  | nil => simp [operator, double_divided hb]
  | cons d rest =>
    simp only [operator, List.cons_append]
    split <;> rfl

/-- The letters in front of an apostrophe that make a literal of it are the same with a divider
behind the text. -/
theorem literalLetters_divided (hb : divides b = true) (c : Char) (rest more : List Char) :
    literalLetters (c :: rest ++ b :: more) = literalLetters (c :: rest) := by
  have hquote : b ≠ '\'' := ne_of_divides hb (by decide)
  have hsmall : b ≠ 'q' := ne_of_divides hb (by decide)
  have hlarge : b ≠ 'Q' := ne_of_divides hb (by decide)
  match rest with
  | [] => cases more <;> simp [literalLetters, hquote, hsmall, hlarge]
  | [d] => simp [literalLetters, hquote]
  | d :: e :: rest => rfl

/-- A text opens as it does in front of a divider. -/
theorem opening_divided (hb : divides b = true) (c : Char) (rest more : List Char) :
    opening c (rest ++ b :: more) = opening c rest := by
  unfold opening
  rw [← List.cons_append, literalLetters_divided hb,
    head?_divided_any (not_isDigit_of_divides hb),
    head?_divided_any (not_isAlphanumeric_of_divides hb),
    head?_divided_beq (ne_of_divides hb (c := '-') (by decide)),
    head?_divided_beq (ne_of_divides hb (c := '*') (by decide))]

/-- What was closed in a text is closed in the longer one. -/
theorem closed_divided {kind : LexemeKind} {what : Unclosed} {found found' : Option Cut}
    {l : Lexeme} {more : List Char} (h : closed kind what found = .ok (l, after))
    (hfound : ∀ cut, found = some cut → found' = some (cut.1, cut.2 ++ b :: more)) :
    closed kind what found' = .ok (l, after ++ b :: more) := by
  cases found with
  | none => simp [closed] at h
  | some cut =>
    simp only [closed, Except.ok.injEq, Prod.mk.injEq] at h
    obtain ⟨rfl, rfl⟩ := h
    rw [hfound cut rfl]
    rfl

/-- A literal that is complete in front of a divider is read the same way with the divider behind
it. -/
theorem literal_divided (hb : divides b = true) {letters : Nat} {quotation : Bool} {l : Lexeme}
    (hlength : letters + 1 ≤ cs.length) (h : literal letters quotation cs = .ok (l, after))
    (more : List Char) :
    literal letters quotation (cs ++ b :: more) = .ok (l, after ++ b :: more) := by
  unfold literal at h ⊢
  rw [List.take_append_of_le_length hlength, List.drop_append_of_le_length hlength]
  cases quotation with
  | true =>
    apply closed_divided h
    intro cut hcut
    obtain ⟨inner, hinner, rfl⟩ := Option.map_eq_some_iff.1 hcut
    rw [closeQuotation_divided hinner]
    rfl
  | false =>
    apply closed_divided h
    intro cut hcut
    obtain ⟨inner, hinner, rfl⟩ := Option.map_eq_some_iff.1 hcut
    rw [closeString_divided hb hinner]
    rfl

/-! ### One lexeme -/

/-- A lexeme that ends in a text is read in the same way where a divider and more
text follow. -/
theorem scan_divided (hb : divides b = true) {c : Char} {l : Lexeme}
    (h : scan c rest = .ok (l, after)) (hline : l.kind = .lineComment → b = '\n')
    (more : List Char) : scan c (rest ++ b :: more) = .ok (l, after ++ b :: more) := by
  have hword := not_continuesWord_of_divides hb
  have hshown := shown_opening c rest
  rw [scan_eq_read] at h
  rw [scan_eq_read, opening_divided hb]
  generalize opening c rest = o at h hshown
  cases o with
  | blank =>
    obtain ⟨rfl, rfl⟩ := Prod.mk.inj (Except.ok.inj h)
    rfl
  | lineComment =>
    obtain ⟨rfl, rfl⟩ := Prod.mk.inj (Except.ok.inj h)
    obtain rfl := hline rfl
    rw [Opening.read, takeWhile_divided (by decide), dropWhile_divided (by decide)]
  | blockComment =>
    have htail : (rest ++ b :: more).tail = rest.tail ++ b :: more := by
      cases rest with
      | nil => simp [Opening.Shown] at hshown
      | cons d rest => rfl
    apply closed_divided h
    intro cut hcut
    obtain ⟨inner, hinner, rfl⟩ := Option.map_eq_some_iff.1 hcut
    rw [htail, closePair_divided hinner]
    rfl
  | literal letters quotation => exact literal_divided hb hshown.length_le h more
  | word | bindVariable =>
    obtain ⟨rfl, rfl⟩ := Prod.mk.inj (Except.ok.inj h)
    rw [Opening.read, takeWhile_divided hword, dropWhile_divided hword]
  | number =>
    obtain ⟨rfl, rfl⟩ := Prod.mk.inj (Except.ok.inj h)
    rw [Opening.read, ← List.cons_append, number_divided hb]
  | quotedIdent =>
    apply closed_divided h
    intro cut hcut
    obtain ⟨inner, hinner, rfl⟩ := Option.map_eq_some_iff.1 hcut
    rw [closeChar_divided hinner]
    rfl
  | operator =>
    obtain ⟨rfl, rfl⟩ := Prod.mk.inj (Except.ok.inj h)
    rw [Opening.read, operator_divided hb]

/-- The lexemes of a text stay what they are in front of a divider. -/
theorem lexemes_divided (hb : divides b = true) {list : List Lexeme}
    (h : lexemes cs = (list, none)) (hline : ∀ l ∈ list, l.kind = .lineComment → b = '\n')
    (more : List Char) :
    lexemes (cs ++ b :: more) = (list ++ (lexemes (b :: more)).1, (lexemes (b :: more)).2) := by
  induction list generalizing cs with
  | nil =>
    obtain rfl : [] = cs := lexemes_join h
    rfl
  | cons l list ih =>
    obtain ⟨c, rest, after, rfl, hscan, hafter⟩ := exists_scan_of_lexemes h
    have hscan' := scan_divided hb hscan (hline l List.mem_cons_self) more
    have hrest := ih hafter fun l hl => hline l (List.mem_cons_of_mem _ hl)
    rw [List.cons_append, lexemes_cons hscan', hrest, List.cons_append]

end Lexeme

end PlsqlAudit
