import PlsqlAudit.Proofs.TokenGaps

/-!
# Tokens on lines of their own

What a token is does not depend on what follows it.  Every reader of a lexeme looks
ahead, but what it found further on only told it where to stop: given no more than
the text it took, it takes all of it again (`Lexeme.scan_alone`).

So the text of a token is a single token, and the tokens of a program, written one
on each line, are the same tokens once more.
-/

namespace PlsqlAudit

namespace Lexeme

variable {cs rest after : List Char} {cut : Cut} {c : Char} {l : Lexeme}

/-! ### Numbers -/

/-- Digits are read up to what does not go on with one. -/
theorem takeWhile_digits {digits tail : List Char} (hdigits : ∀ c ∈ digits, c.isDigit = true)
    (htail : ∀ c ∈ tail.head?, c.isDigit = false) :
    (digits ++ tail).takeWhile Char.isDigit = digits ∧
      (digits ++ tail).dropWhile Char.isDigit = tail := by
  have hnone : tail.takeWhile Char.isDigit = [] ∧ tail.dropWhile Char.isDigit = tail := by
    cases tail with
    | nil => simp
    | cons c tail => simp [htail c rfl]
  rw [List.takeWhile_append_of_pos hdigits, List.dropWhile_append_of_pos hdigits, hnone.1, hnone.2]
  simp

/-- What is taken while digits come are digits. -/
theorem isDigit_of_mem_takeWhile (h : c ∈ cs.takeWhile Char.isDigit) : c.isDigit = true :=
  List.mem_takeWhile_imp h

/-- The fraction of a number: nothing, or a point and digits. -/
theorem fraction_shape (cs : List Char) : (fraction cs).1 = [] ∨
    ∃ digits, (fraction cs).1 = '.' :: digits ∧ ∀ c ∈ digits, c.isDigit = true := by
  unfold fraction
  split
  · split
    · exact .inl rfl
    · exact .inr ⟨_, rfl, fun c => isDigit_of_mem_takeWhile⟩
  · exact .inl rfl

/-- The exponent of a number: nothing, or a letter, perhaps a sign, and digits. -/
theorem exponent_shape (cs : List Char) : (exponent cs).1 = [] ∨
    ∃ e sign digit digits, (exponent cs).1 = e :: (sign ++ digit :: digits) ∧
      (e = 'e' ∨ e = 'E') ∧ (sign = [] ∨ sign = ['+'] ∨ sign = ['-']) ∧
      ∀ c ∈ digit :: digits, c.isDigit = true := by
  match cs with
  | e :: sign :: digit :: rest =>
    rw [exponent]
    split
    case isTrue hplain =>
      simp only [Bool.and_eq_true, Bool.or_eq_true, beq_iff_eq] at hplain
      refine .inr ⟨e, [], sign, (digit :: rest).takeWhile Char.isDigit, ?_, hplain.1, .inl rfl, ?_⟩
      · simp [List.takeWhile_cons_of_pos hplain.2]
      · rw [← List.takeWhile_cons_of_pos hplain.2]
        exact fun c => isDigit_of_mem_takeWhile
    split
    case isTrue hsigned =>
      simp only [Bool.and_eq_true, Bool.or_eq_true, beq_iff_eq] at hsigned
      obtain ⟨⟨he, hsign⟩, hdigit⟩ := hsigned
      refine .inr ⟨e, [sign], digit, rest.takeWhile Char.isDigit, ?_, he, ?_, ?_⟩
      · simp [List.takeWhile_cons_of_pos hdigit]
      · rcases hsign with rfl | rfl <;> simp
      · rw [← List.takeWhile_cons_of_pos hdigit]
        exact fun c => isDigit_of_mem_takeWhile
    case isFalse => exact .inl rfl
  | [e, digit] =>
    rw [exponent]
    split
    case isTrue hplain =>
      simp only [Bool.and_eq_true, Bool.or_eq_true, beq_iff_eq] at hplain
      exact .inr ⟨e, [], digit, [], rfl, hplain.1, .inl rfl, by simpa using hplain.2⟩
    case isFalse => exact .inl rfl
  | [] => exact .inl rfl
  | [_] => exact .inl rfl

/-- Read on its own, an exponent is the same exponent and nothing is left. -/
theorem exponent_alone (cs : List Char) : exponent (exponent cs).1 = ((exponent cs).1, []) := by
  rcases exponent_shape cs with hnone | ⟨e, sign, digit, digits, htext, he, hsign, hdigits⟩
  · rw [hnone]
    rfl
  have hdigit := hdigits digit List.mem_cons_self
  have hnone : ∀ c ∈ ([] : List Char).head?, c.isDigit = false := by simp
  have hread := takeWhile_digits hdigits hnone
  rw [List.append_nil] at hread
  have hletter : (e == 'e' || e == 'E') = true := by simpa using he
  rw [htext]
  rcases hsign with rfl | rfl | rfl
  · cases digits with
    | nil => simp [exponent, hletter, hdigit]
    | cons d digits => simp [exponent, hletter, hdigit, hread.1, hread.2]
  all_goals
    have hplus : Char.isDigit '+' = false := by decide
    have hminus : Char.isDigit '-' = false := by decide
    simp [exponent, hletter, hplus, hminus, hdigit, hread.1, hread.2]

/-- The letter of an exponent is neither a digit nor a point. -/
theorem head?_exponent (cs : List Char) (hc : c ∈ (exponent cs).1.head?) :
    c.isDigit = false ∧ c ≠ '.' := by
  rcases exponent_shape cs with hnone | ⟨e, sign, digit, digits, htext, he, -⟩
  · simp [hnone] at hc
  · obtain rfl : e = c := by simpa [htext] using hc
    rcases he with rfl | rfl <;> decide

/-- Read with no more than an exponent behind it, a fraction is the same fraction. -/
theorem fraction_alone (cs more : List Char) :
    fraction ((fraction cs).1 ++ (exponent more).1) = ((fraction cs).1, (exponent more).1) := by
  have hhead (c : Char) (hc : c ∈ (exponent more).1.head?) := head?_exponent more hc
  rcases fraction_shape cs with hnone | ⟨digits, htext, hdigits⟩
  · rw [hnone, List.nil_append]
    cases hexponent : (exponent more).1 with
    | nil => rfl
    | cons e tail =>
      have he := (hhead e (by simp [hexponent])).2
      simp [fraction, he]
  · obtain ⟨htake, hdrop⟩ := takeWhile_digits hdigits fun c hc => (hhead c hc).1
    have hpoint : (digits ++ (exponent more).1).head? ≠ some '.' := by
      intro hpoint
      cases digits with
      | nil => exact (hhead '.' hpoint).2 rfl
      | cons d digits =>
        obtain rfl : d = '.' := by simpa using hpoint
        exact absurd (hdigits '.' List.mem_cons_self) (by decide)
    rw [htext, List.cons_append, fraction, if_neg (by simpa using hpoint), htake, hdrop]

/-- Read on its own, a number is the same number and nothing is left. -/
theorem number_alone (cs : List Char) : number (number cs).1 = ((number cs).1, []) := by
  have hdigits : ∀ c ∈ cs.takeWhile Char.isDigit, c.isDigit = true :=
    fun c => isDigit_of_mem_takeWhile
  have hstop : ∀ c ∈ ((fraction (cs.dropWhile Char.isDigit)).1 ++
      (exponent (fraction (cs.dropWhile Char.isDigit)).2).1).head?, c.isDigit = false := by
    intro c hc
    rcases fraction_shape (cs.dropWhile Char.isDigit) with hnone | ⟨digits, htext, -⟩
    · rw [hnone, List.nil_append] at hc
      exact (head?_exponent _ hc).1
    · obtain rfl : '.' = c := by simpa [htext] using hc
      decide
  obtain ⟨htake, hdrop⟩ := takeWhile_digits hdigits hstop
  simp only [number, List.append_assoc]
  rw [htake, hdrop, fraction_alone, exponent_alone]

/-! ### Letters in front of a literal -/

/-- Letters that make a literal of what follows do so whatever comes later. -/
theorem literalLetters_append {found : Nat × Bool} (h : literalLetters cs = some found)
    (more : List Char) : literalLetters (cs ++ more) = some found := by
  match cs with
  | [] => simp [literalLetters] at h
  | [a] => simp [literalLetters] at h
  | [a, b] =>
    cases more with
    | nil => simpa using h
    | cons d more =>
      simp only [literalLetters] at h
      simp only [List.cons_append, List.nil_append, literalLetters]
      split at h
      case isTrue hnational =>
        rwa [if_pos hnational]
      split at h
      case isTrue hnational hquotation =>
        have hb : b = '\'' := by simpa using (Bool.and_eq_true_iff.1 hquotation).2
        rw [if_neg hnational, if_neg (by simp [hb]), if_pos hquotation]
        exact h
      case isFalse => simp at h
  | a :: b :: d :: rest => exact h

/-- The letters that make a literal are seen in the text up to the apostrophe already. -/
theorem literalLetters_take {letters : Nat} {quotation : Bool}
    (h : literalLetters cs = some (letters, quotation)) :
    literalLetters (cs.take (letters + 1)) = some (letters, quotation) := by
  match cs with
  | a :: b :: c :: rest =>
    rw [literalLetters] at h
    split at h
    case isTrue hnational =>
      obtain ⟨rfl, rfl⟩ : 1 = letters ∧ false = quotation := by simpa using h
      simp [literalLetters, hnational]
    split at h
    case isTrue hnational hboth =>
      obtain ⟨rfl, rfl⟩ : 2 = letters ∧ true = quotation := by simpa using h
      simp [literalLetters, hnational, hboth]
    split at h
    case isTrue hnational hboth hquotation =>
      obtain ⟨rfl, rfl⟩ : 1 = letters ∧ true = quotation := by simpa using h
      simp [literalLetters, hnational, hquotation]
    case isFalse => simp at h
  | [a, b] =>
    obtain ⟨hall, -⟩ : letters = 1 ∧ True := by
      rw [literalLetters] at h
      split at h
      · simp_all
      split at h
      · simp_all
      · simp at h
    subst hall
    simpa [literalLetters] using h
  | [] => simp [literalLetters] at h
  | [_] => simp [literalLetters] at h

/-- A word is no literal if the text it is cut from was none. -/
theorem literalLetters_of_prefix {text : List Char} (h : literalLetters cs = none)
    (hbegins : text <+: cs) : literalLetters text = none := by
  obtain ⟨more, rfl⟩ := hbegins
  rw [Option.eq_none_iff_forall_ne_some]
  intro found hfound
  rw [literalLetters_append hfound] at h
  cases h

/-! ### Readers -/

/-- What is closed is closed in the same way when nothing follows it. -/
theorem closed_alone {kind : LexemeKind} {what : Unclosed} {found : Option Cut}
    (h : closed kind what found = .ok (l, after)) :
    closed kind what (some (l.text, [])) = .ok (l, []) := by
  rw [← closed_kind h]
  rfl

/-- A literal starts with its letters and the apostrophe; read on its own it is the same literal
and nothing is left. -/
theorem literal_alone {letters : Nat} {quotation : Bool} (hlength : letters + 1 ≤ cs.length)
    (h : literal letters quotation cs = .ok (l, after)) :
    cs.take (letters + 1) <+: l.text ∧ literal letters quotation l.text = .ok (l, []) := by
  have hopening : (cs.take (letters + 1)).length = letters + 1 := by simpa using hlength
  unfold literal at h ⊢
  cases quotation with
  | true =>
    obtain ⟨inner, hinner, hcut⟩ := Option.map_eq_some_iff.1 (closed_ok h)
    obtain ⟨htext, -⟩ := Prod.mk.inj hcut
    refine ⟨⟨inner.1, htext⟩, ?_⟩
    have hbody : closeQuotation inner.1 = some (inner.1, []) := by
      simpa using closeQuotation_append hinner []
    have hread := closed_alone h
    rw [← htext] at hread ⊢
    simp only [List.take_left' hopening, List.drop_left' hopening, hbody, if_true, Option.map_some]
    exact hread
  | false =>
    obtain ⟨inner, hinner, hcut⟩ := Option.map_eq_some_iff.1 (closed_ok h)
    obtain ⟨htext, -⟩ := Prod.mk.inj hcut
    refine ⟨⟨inner.1, htext⟩, ?_⟩
    have hbody : closeString inner.1 = some (inner.1, []) := by
      simpa using closeString_append hinner (show ([] : List Char).head? ≠ some '\'' by simp)
    have hread := closed_alone h
    rw [← htext] at hread ⊢
    simp only [List.take_left' hopening, List.drop_left' hopening, hbody, Bool.false_eq_true,
      if_false, Option.map_some]
    exact hread

/-- Read on its own, an operator is the same operator, and nothing is left. -/
theorem operator_alone (c : Char) (rest : List Char) :
    ∃ tail, tail <+: rest ∧ (operator c rest).2.1 = c :: tail ∧
      operator c tail = ((operator c rest).1, c :: tail, []) := by
  cases rest with
  | nil => exact ⟨[], List.nil_prefix, rfl, rfl⟩
  | cons d after =>
    cases hdouble : double c d with
    | none => exact ⟨[], List.nil_prefix, by simp [operator, hdouble], by simp [operator, hdouble]⟩
    | some kind => exact ⟨[d], ⟨after, rfl⟩, by simp [operator, hdouble], by simp [operator, hdouble]⟩

/-- Characters that were taken by a test are all taken again, and nothing is left. -/
theorem takeWhile_alone (p : Char → Bool) (cs : List Char) :
    (cs.takeWhile p).takeWhile p = cs.takeWhile p ∧ (cs.takeWhile p).dropWhile p = [] := by
  have hall : ∀ c ∈ cs.takeWhile p, p c = true := fun c => List.mem_takeWhile_imp
  exact ⟨List.takeWhile_eq_self_iff.2 hall, List.dropWhile_eq_nil_iff.2 hall⟩

/-- The text of a number starts with a digit, or with a point and a digit. -/
theorem number_shown {tail : List Char} (h : Opening.number.Shown c rest)
    (htail : (number (c :: rest)).1 = c :: tail) : Opening.number.Shown c tail := by
  rcases h with hdigit | ⟨rfl, hnext⟩
  · exact .inl hdigit
  · cases rest with
    | nil => simp at hnext
    | cons d rest =>
      have hd : d.isDigit = true := by simpa using hnext
      have hpoint : Char.isDigit '.' = false := by decide
      have hne : d ≠ '.' := by
        rintro rfl
        exact absurd hd (by decide)
      have hhead : tail.head? = some d := by
        simp [number, hpoint, fraction, hne, hd] at htail
        simp [← htail]
      exact .inr ⟨rfl, by simp [hhead, hd]⟩

/-- The text of a bind variable starts with a colon and what can stand in a name. -/
theorem bindVariable_shown (h : Opening.bindVariable.Shown c rest) :
    Opening.bindVariable.Shown c (rest.takeWhile continuesWord) := by
  obtain ⟨rfl, hnext⟩ := h
  cases rest with
  | nil => simp at hnext
  | cons d rest =>
    have hd : Text.isAlphanumeric d = true := by simpa using hnext
    have hword : continuesWord d = true := by simp [continuesWord, hd]
    exact ⟨rfl, by simp [hword, hd]⟩

/-! ### The opening of a shorter text -/

/-- An apostrophe has no letters in front of it that would make another literal of it. -/
theorem literalLetters_quote (rest : List Char) : literalLetters ('\'' :: rest) = none := by
  rcases rest with _ | ⟨b, _ | ⟨d, rest⟩⟩
  · rfl
  · simp [literalLetters]
  · simp [literalLetters]

/-- One test for an opening `o`, of a text and of a shorter one.  What the shorter text
passes, the longer one passes. -/
theorem ite_eq_of_shown {tail : List Char} {test short : Bool} {o next next' : Opening}
    (h : (if test then o else next).Shown c tail) (hlonger : short = true → test = true)
    (hshown : o.Shown c tail → test = true → short = true)
    (hnext : next.Shown c tail → next' = next) :
    (if short then o else next') = if test then o else next := by
  cases test with
  | true =>
    have hshort : short = true := hshown h rfl
    rw [hshort]
    rfl
  | false =>
    have hshort : short = false := by simpa using hlonger
    rw [hshort]
    exact hnext h

/-- A text opens as a longer one does if it shows what the longer one opens with. -/
theorem opening_of_prefix {tail : List Char} (hbegins : tail <+: rest)
    (hshown : (opening c rest).Shown c tail) : opening c tail = opening c rest := by
  have hmark {d e : Char} (h : (c == d && tail.head? == some e) = true) :
      (c == d && rest.head? == some e) = true := by
    obtain ⟨more, rfl⟩ := hbegins
    cases tail with
    | nil => simp at h
    | cons b tail => exact h
  have hany {p : Char → Bool} (h : tail.head?.any p = true) : rest.head?.any p = true := by
    obtain ⟨more, rfl⟩ := hbegins
    cases tail with
    | nil => simp at h
    | cons b tail => exact h
  unfold opening at hshown ⊢
  refine ite_eq_of_shown hshown id (fun _ => id) fun hshown => ?_
  refine ite_eq_of_shown hshown hmark (fun h _ => by simpa [Opening.Shown] using h) fun hshown => ?_
  refine ite_eq_of_shown hshown hmark (fun h _ => by simpa [Opening.Shown] using h) fun hshown => ?_
  cases hletters : literalLetters (c :: rest) with
  | some found =>
    rw [hletters] at hshown
    rcases hshown with hfound | ⟨rfl, -⟩
    · rw [hfound]
    · rw [literalLetters_quote] at hletters
      cases hletters
  | none =>
    rw [hletters] at hshown
    have hnone := literalLetters_of_prefix hletters ((List.prefix_cons_inj c).2 hbegins)
    rw [hnone]
    refine ite_eq_of_shown hshown id (fun _ => id) fun hshown => ?_
    refine ite_eq_of_shown hshown ?_ (fun h _ => by simpa [Opening.Shown] using h) fun hshown => ?_
    · simp only [Bool.or_eq_true, Bool.and_eq_true]
      exact Or.imp_right (And.imp_right hany)
    refine ite_eq_of_shown hshown id (fun _ => id) fun hshown => ?_
    refine ite_eq_of_shown hshown id (fun _ => id) fun hshown => ?_
    refine ite_eq_of_shown hshown ?_ (fun h _ => by simpa [Opening.Shown] using h) fun _ => rfl
    simp only [Bool.and_eq_true]
    exact And.imp_right hany

/-! ### One lexeme -/

/-- The text of a lexeme begins what it was read from. -/
theorem exists_tail_of_scan (h : scan c rest = .ok (l, after)) :
    ∃ tail, tail <+: rest ∧ l.text = c :: tail := by
  have hof := scan_of h
  cases htext : l.text with
  | nil => exact absurd htext (scan_ne_nil h)
  | cons d tail =>
    rw [htext] at hof
    obtain ⟨rfl, htail⟩ := List.cons.inj hof
    exact ⟨tail, ⟨after, htail⟩, rfl⟩

/-- **A token is read alone.**  Given no more than the text of the token it read, the
reader reads that token. -/
theorem scan_alone {kind : TokenKind} (h : scan c rest = .ok (l, after))
    (hkind : l.kind = .token kind) :
    ∃ tail, l.text = c :: tail ∧ scan c tail = .ok (l, []) := by
  obtain ⟨tail, hbegins, htail⟩ := exists_tail_of_scan h
  have hshown := shown_opening c rest
  have hopening : (opening c rest).Shown c tail → _ := opening_of_prefix hbegins
  refine ⟨tail, htail, ?_⟩
  rw [kind_of_scan h] at hkind
  rw [scan_eq_read] at h ⊢
  generalize opening c rest = o at h hshown hopening hkind
  cases o with
  | blank | lineComment | blockComment => cases hkind
  | literal letters quotation =>
    obtain ⟨⟨more, hmore⟩, hread⟩ := literal_alone hshown.length_le h
    have hagain : (Opening.literal letters quotation).Shown c tail := by
      refine hshown.imp_left fun hletters => ?_
      rw [← htail, ← hmore]
      exact literalLetters_append (literalLetters_take hletters) more
    rw [hopening hagain, Opening.read, ← htail]
    exact hread
  | word =>
    obtain ⟨rfl, -⟩ := Prod.mk.inj (Except.ok.inj h)
    obtain rfl := (List.cons.inj htail).2
    obtain ⟨htake, hdrop⟩ := takeWhile_alone continuesWord rest
    rw [hopening hshown, Opening.read, htake, hdrop]
  | number =>
    obtain ⟨rfl, -⟩ := Prod.mk.inj (Except.ok.inj h)
    rw [hopening (number_shown hshown htail), Opening.read, ← htail, number_alone]
  | quotedIdent =>
    obtain ⟨inner, hinner, hcut⟩ := Option.map_eq_some_iff.1 (closed_ok h)
    have htext : c :: inner.1 = c :: tail := (Prod.mk.inj hcut).1.trans htail
    have hbody : closeChar '"' inner.1 = some (inner.1, []) := by
      simpa using closeChar_append hinner []
    have hread := closed_alone h
    rw [htail, ← htext] at hread
    rw [hopening hshown, Opening.read, ← (List.cons.inj htext).2, hbody]
    exact hread
  | bindVariable =>
    obtain ⟨rfl, -⟩ := Prod.mk.inj (Except.ok.inj h)
    obtain rfl := (List.cons.inj htail).2
    obtain ⟨htake, hdrop⟩ := takeWhile_alone continuesWord rest
    rw [hopening (bindVariable_shown hshown), Opening.read, htake, hdrop]
  | operator =>
    obtain ⟨rfl, -⟩ := Prod.mk.inj (Except.ok.inj h)
    obtain ⟨short, -, htext, hread⟩ := operator_alone c rest
    obtain rfl : tail = short := (List.cons.inj (htail.symm.trans htext)).2
    rw [hopening trivial, Opening.read, hread, htext]

/-- The text of a token is a single lexeme. -/
theorem lexemes_alone {list : List Lexeme} {kind : TokenKind} (h : lexemes cs = (list, none))
    (hl : l ∈ list) (hkind : l.kind = .token kind) : lexemes l.text = ([l], none) := by
  induction list generalizing cs with
  | nil => cases hl
  | cons first list ih =>
    obtain ⟨c, rest, after, rfl, hscan, hafter⟩ := exists_scan_of_lexemes h
    rcases List.mem_cons.1 hl with rfl | hl
    · obtain ⟨tail, htail, hread⟩ := scan_alone hscan hkind
      rw [htail, lexemes_cons hread]
      simp [lexemes, lexemesFrom]
    · exact ih hafter hl

end Lexeme

/-! ### Tokens -/

/-- What a token is and how it is spelled, wherever it stands. -/
def Token.spelled (t : Token) : TokenKind × String := (t.kind, t.text)

/-- Moving a token does not change what it spells. -/
theorem Token.spelled_shift (d : Shift) (t : Token) : (t.shift d).spelled = t.spelled := rfl

variable {source : String} {s : TokenSequence} {t : Token}

/-- The token for the end of the input spells nothing. -/
theorem eof_spelled (h : tokenize source = .ok s) : s.eof.spelled = (.eof, "") := by
  obtain ⟨-, -, -, hkind⟩ := tokenize_spec h
  rw [Token.spelled, hkind, (eof_covers h).1]

/-- The empty text has no tokens but the one for its end. -/
theorem tokenize_empty : tokenize "" = .ok ⟨[], ⟨.eof, "", ⟨0, 0, 1, 1⟩⟩⟩ := by
  have hnone : Lexeme.lexemes "".toList = ([], none) := by
    simp [Lexeme.lexemes, Lexeme.lexemesFrom]
  rw [tokenize_eq, hnone]
  rfl

/-- The text of a token is that token and nothing else. -/
theorem tokenize_alone (h : tokenize source = .ok s) (ht : t ∈ s.tokens) :
    ∃ alone, tokenize t.text = .ok alone ∧ alone.tokens.map Token.spelled = [t.spelled] := by
  obtain ⟨list, hlist, htokens, -⟩ := tokenize_spec h
  obtain ⟨before, lexeme, after, rfl, hkind, htext, -⟩ := token_covers hlist (htokens ▸ ht)
  have hread := Lexeme.lexemes_alone hlist (by simp) hkind
  rw [tokenize_eq, htext, String.toList_ofList, hread]
  refine ⟨_, rfl, ?_⟩
  simp [Lexeme.tokensFrom, hkind, Token.spelled, htext]

/-- Tokens that are tokens alone are the tokens of the text that holds one of them
on each line. -/
theorem tokenize_intercalate {tokens : List Token}
    (h : ∀ t ∈ tokens, ∃ alone, tokenize t.text = .ok alone ∧
      alone.tokens.map Token.spelled = [t.spelled]) :
    ∃ s, tokenize ("\n".intercalate (tokens.map Token.text)) = .ok s ∧
      s.tokens.map Token.spelled = tokens.map Token.spelled := by
  induction tokens with
  | nil => exact ⟨_, tokenize_empty, rfl⟩
  | cons t tokens ih =>
    obtain ⟨alone, halone, hspelled⟩ := h t List.mem_cons_self
    cases tokens with
    | nil => exact ⟨alone, by simpa [String.intercalate_singleton] using halone, hspelled⟩
    | cons u tokens =>
      obtain ⟨s, hs, hmore⟩ := ih fun t ht => h t (List.mem_cons_of_mem _ ht)
      rw [List.map_cons, List.map_cons, String.intercalate_cons_cons, ← List.map_cons,
        tokenize_newline halone, hs]
      refine ⟨_, rfl, ?_⟩
      have hshift (d : Shift) : Token.spelled ∘ Token.shift d = Token.spelled :=
        funext (Token.spelled_shift d)
      rw [List.map_append, hspelled, List.map_map, hshift, hmore]
      rfl

/-- **Tokens survive being respaced.**  The texts of the tokens of a program, written
one on each line, with or without a line feed behind the last, are the same tokens
again; and each of these texts alone is that one token. -/
theorem tokenize_respaced (h : tokenize source = .ok s) :
    (∀ ending, ending = "" ∨ ending = "\n" → ∃ again,
        tokenize ("\n".intercalate (s.tokens.map Token.text) ++ ending) = .ok again ∧
          again.toList.map Token.spelled = s.toList.map Token.spelled) ∧
      ∀ t ∈ s.tokens, ∃ alone, tokenize t.text = .ok alone ∧
        alone.tokens.map Token.spelled = [t.spelled] := by
  have halone (t : Token) (ht : t ∈ s.tokens) := tokenize_alone h ht
  refine ⟨?_, halone⟩
  intro ending hending
  obtain ⟨lines, hlines, hspelled⟩ := tokenize_intercalate halone
  obtain ⟨again, hagain, htokens⟩ : ∃ again,
      tokenize ("\n".intercalate (s.tokens.map Token.text) ++ ending) = .ok again ∧
        again.tokens = lines.tokens := by
    rcases hending with rfl | rfl
    · exact ⟨lines, by simpa using hlines, rfl⟩
    · have hread := tokenize_newline (b := "") hlines
      rw [tokenize_empty, String.append_empty] at hread
      exact ⟨_, hread, by simp⟩
  refine ⟨again, hagain, ?_⟩
  simp only [TokenSequence.toList, List.map_append, List.map_singleton, htokens, hspelled,
    eof_spelled hagain, eof_spelled h]

/-- A range right behind a number, letters in front of a quotation over two lines, a
minus in front of a slash, and a point in front of a digit. -/
theorem tokenize_respaced_of_range : ∃ s again,
    tokenize "1..2e5n-/Nq'[é\n]'.5." = .ok s ∧
      s.tokens.map Token.spelled = [(.number, "1"), (.dotDot, ".."), (.number, "2e5"), (.word, "n"),
        (.minus, "-"), (.slash, "/"), (.string, "Nq'[é\n]'"), (.number, ".5"), (.dot, ".")] ∧
      tokenize "1\n..\n2e5\nn\n-\n/\nNq'[é\n]'\n.5\n.\n" = .ok again ∧
      again.toList.map Token.spelled = s.toList.map Token.spelled := by
  have htokens : tokenize "1..2e5n-/Nq'[é\n]'.5." =
      .ok ⟨[⟨.number, "1", ⟨0, 1, 1, 1⟩⟩, ⟨.dotDot, "..", ⟨1, 2, 1, 2⟩⟩,
        ⟨.number, "2e5", ⟨3, 3, 1, 4⟩⟩, ⟨.word, "n", ⟨6, 1, 1, 7⟩⟩, ⟨.minus, "-", ⟨7, 1, 1, 8⟩⟩, ⟨.slash, "/", ⟨8, 1, 1, 9⟩⟩,
        ⟨.string, "Nq'[é\n]'", ⟨9, 9, 1, 10⟩⟩, ⟨.number, ".5", ⟨18, 2, 2, 3⟩⟩,
        ⟨.dot, ".", ⟨20, 1, 2, 5⟩⟩], ⟨.eof, "", ⟨21, 0, 2, 6⟩⟩⟩ := by decide +kernel
  obtain ⟨hlines, -⟩ := tokenize_respaced htokens
  obtain ⟨again, hagain, hspelled⟩ := hlines "\n" (.inr rfl)
  exact ⟨_, again, htokens, rfl, hagain, hspelled⟩

end PlsqlAudit
