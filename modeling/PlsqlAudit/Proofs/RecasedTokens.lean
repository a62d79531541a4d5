import PlsqlAudit.Proofs.LineBreaks
import PlsqlAudit.Proofs.SameLetters

/-!
# Tokens in other letters

If the case of ASCII letters is changed in a text, but not in the quoted part of a
string, the text is cut into lexemes at the same places, and its tokens have the
same kinds and spans (`tokenize_recased`).

No reader of a lexeme sees the case of letters, with one exception: the delimiter
of an alternative quotation may be a letter.  It belongs to the quoted part of its
string; and what a quotation is closed by depends on that part alone
(`closeQuotation_append`).
-/

namespace PlsqlAudit

open List (Forall₂)
open Text (SameLetters IgnoresCase ignoresCase_of_ascii ignoresCase_beq)

namespace Lexeme

variable {cs ds rest rest' after : List Char} {c d : Char} {cut : Cut}

/-! ### Characters -/

theorem ignoresCase_isDigit : IgnoresCase Char.isDigit := ignoresCase_of_ascii (by decide)

/-- Whether a character is a letter does not depend on its case. -/
theorem ignoresCase_isAlphabetic : IgnoresCase Text.isAlphabetic := ignoresCase_of_ascii (by decide)

/-- Whether a character is a letter or a digit does not depend on its case. -/
theorem ignoresCase_isAlphanumeric : IgnoresCase Text.isAlphanumeric :=
  ignoresCase_of_ascii (by decide)

/-- Whether a character continues a word does not depend on its case. -/
theorem ignoresCase_continuesWord : IgnoresCase continuesWord := ignoresCase_of_ascii (by decide)

/-- The operator of one character does not depend on case, since no letter is one. -/
theorem ignoresCase_single : IgnoresCase single := ignoresCase_of_ascii (by decide)

/-- Characters in the same letter are the same, or letters. -/
theorem eq_or_isAlpha (h : c.toLower = d.toLower) : c = d ∨ c.isAlpha = true ∧ d.isAlpha = true := by
  have halpha : IgnoresCase Char.isAlpha := ignoresCase_of_ascii (by decide)
  cases hc : c.isAlpha with
  | true => exact .inr ⟨rfl, halpha c d h ▸ hc⟩
  | false =>
    have hself (c : Char) (hc : c.isAlpha = false) : c.toLower = c := by
      by_cases hlt : c.toNat < 128
      · exact Text.forall_ascii (P := fun c => c.isAlpha = false → c.toLower = c) (by decide) hlt hc
      · exact Text.toLower_of_not_ascii hlt
    have hd : d.isAlpha = false := (halpha c d h).symm.trans hc
    rw [hself c hc, hself d hd] at h
    exact .inl h

/-- No operator of two characters begins with a letter. -/
theorem double_of_isAlpha_left (h : c.isAlpha = true) (d : Char) : double c d = none := by
  unfold double
  split <;> first | rfl | exact absurd h (by decide)

/-- No operator of two characters ends with a letter. -/
theorem double_of_isAlpha_right (c : Char) (h : d.isAlpha = true) : double c d = none := by
  unfold double
  split <;> first | rfl | exact absurd h (by decide)

/-- No letter belongs to a token of two characters. -/
theorem double_eq {c' d' : Char} (hc : c.toLower = c'.toLower) (hd : d.toLower = d'.toLower) :
    double c d = double c' d' := by
  rcases eq_or_isAlpha hc with rfl | ⟨hc, hc'⟩
  · rcases eq_or_isAlpha hd with rfl | ⟨hd, hd'⟩
    · rfl
    · rw [double_of_isAlpha_right c hd, double_of_isAlpha_right c hd']
  · rw [double_of_isAlpha_left hc, double_of_isAlpha_left hc']

/-! ### Cuts -/

/-- Cuts in the same letters. -/
structure SameCut (cut cut' : Cut) : Prop where
  read : SameLetters cut.1 cut'.1
  rest : SameLetters cut.2 cut'.2

/-- A character in front of two cuts that differ in case only keeps them so, if it differs in case
only itself. -/
theorem SameCut.push {cut' : Cut} (h : SameCut cut cut') (hcd : c.toLower = d.toLower) :
    SameCut (cut.push c) (cut'.push d) := ⟨.cons hcd h.read, h.rest⟩

/-- Whether a character is an apostrophe does not depend on case. -/
theorem ignoresCase_quote : IgnoresCase (· == '\'') := ignoresCase_beq (by decide)

/-- A string that is closed stays closed if its letters change their case, and the same part of it
is read. -/
theorem closeString_recased (hds : SameLetters cs ds) (h : closeString cs = some cut) :
    ∃ cut', closeString ds = some cut' ∧ SameCut cut cut' := by
  have hquote {d : Char} (hd : Char.toLower '\'' = d.toLower) : d = '\'' :=
    Text.eq_of_toLower_eq ignoresCase_quote hd
  fun_induction closeString cs generalizing cut ds with
  | case1 => simp at h
  | case2 rest ih =>
    obtain ⟨inner, hinner, rfl⟩ := Option.map_eq_some_iff.1 h
    obtain ⟨d, ds₁, hd, hds₁, rfl⟩ := List.forall₂_cons_left_iff.1 hds
    obtain ⟨e, ds₂, he, hds₂, rfl⟩ := List.forall₂_cons_left_iff.1 hds₁
    obtain rfl := hquote hd
    obtain rfl := hquote he
    obtain ⟨inner', hinner', hsame⟩ := ih hds₂ hinner
    exact ⟨_, by rw [closeString, hinner']; rfl, (hsame.push rfl).push rfl⟩
  | case3 rest hrest =>
    obtain rfl := Option.some.inj h
    obtain ⟨d, ds₁, hd, hds₁, rfl⟩ := List.forall₂_cons_left_iff.1 hds
    obtain rfl := hquote hd
    refine ⟨(['\''], ds₁), ?_, .cons rfl .nil, hds₁⟩
    rw [closeString]
    rintro after rfl
    obtain ⟨c, rest₁, hc, -, rfl⟩ := List.forall₂_cons_right_iff.1 hds₁
    obtain rfl := hquote hc.symm
    exact hrest rest₁ rfl
  | case4 c rest _ hne ih =>
    obtain ⟨inner, hinner, rfl⟩ := Option.map_eq_some_iff.1 h
    obtain ⟨d, ds₁, hd, hds₁, rfl⟩ := List.forall₂_cons_left_iff.1 hds
    obtain ⟨inner', hinner', hsame⟩ := ih hds₁ hinner
    have hne' : d ≠ '\'' := by
      rintro rfl
      exact hne (hquote hd.symm)
    exact ⟨inner'.push d, by simp [closeString, hne', hinner'], hsame.push hd⟩

/-- A pair of characters that closes something is found at the same place if letters change their
case, unless the pair is made of letters. -/
theorem closePair_recased {first second : Char} (hfirst : IgnoresCase (· == first))
    (hsecond : IgnoresCase (· == second)) (hds : SameLetters cs ds)
    (h : closePair first second cs = some cut) :
    ∃ cut', closePair first second ds = some cut' ∧ SameCut cut cut' := by
  induction hds generalizing cut with
  | nil => simp [closePair] at h
  | @cons c d rest rest' hcd hrest ih =>
    have htest : (c == first) = (d == first) := hfirst c d hcd
    rw [closePair, htest, SameLetters.head?_beq hsecond hrest] at h
    rw [closePair]
    split at h
    case isTrue hpair =>
      rw [if_pos hpair]
      obtain rfl := Option.some.inj h
      exact ⟨_, rfl, .cons hcd (.cons rfl .nil), rel_tail hrest⟩
    case isFalse hpair =>
      rw [if_neg hpair]
      obtain ⟨inner, hinner, rfl⟩ := Option.map_eq_some_iff.1 h
      obtain ⟨inner', hinner', hsame⟩ := ih hinner
      rw [hinner']
      exact ⟨_, rfl, hsame.push hcd⟩

/-- A character that closes something is found at the same place if letters change their case,
unless it is a letter. -/
theorem closeChar_recased {close : Char} (hclose : IgnoresCase (· == close))
    (hds : SameLetters cs ds) (h : closeChar close cs = some cut) :
    ∃ cut', closeChar close ds = some cut' ∧ SameCut cut cut' := by
  induction hds generalizing cut with
  | nil => simp [closeChar] at h
  | @cons c d rest rest' hcd hrest ih =>
    have htest : (c == close) = (d == close) := hclose c d hcd
    rw [closeChar, htest] at h
    rw [closeChar]
    split at h
    case isTrue hc =>
      rw [if_pos hc]
      obtain rfl := Option.some.inj h
      exact ⟨_, rfl, .cons hcd .nil, hrest⟩
    case isFalse hc =>
      rw [if_neg hc]
      obtain ⟨inner, hinner, rfl⟩ := Option.map_eq_some_iff.1 h
      obtain ⟨inner', hinner', hsame⟩ := ih hinner
      rw [hinner']
      exact ⟨_, rfl, hsame.push hcd⟩

/-! ### Numbers and operators -/

/-- A fraction is a dot and the digits behind it, unless a second dot follows, as in a range. -/
theorem fraction_cons (c : Char) (rest : List Char) :
    fraction (c :: rest) =
      if c == '.' then
        if rest.head? == some '.' then ([], c :: rest)
        else (c :: rest.takeWhile Char.isDigit, rest.dropWhile Char.isDigit)
      else ([], c :: rest) := by
  by_cases hc : c = '.'
  · subst hc
    rfl
  · simp [fraction, hc]

/-- A fraction is read to the same length if letters change their case. -/
theorem fraction_recased (h : SameLetters cs ds) : SameCut (fraction cs) (fraction ds) := by
  have hpoint : IgnoresCase (· == '.') := ignoresCase_beq (by decide)
  cases h with
  | nil => exact ⟨.nil, .nil⟩
  | @cons c d rest rest' hcd hrest =>
    have htest : (c == '.') = (d == '.') := hpoint c d hcd
    rw [fraction_cons, fraction_cons, htest, SameLetters.head?_beq hpoint hrest]
    split
    · split
      · exact ⟨.nil, .cons hcd hrest⟩
      · exact ⟨.cons hcd (SameLetters.takeWhile ignoresCase_isDigit hrest),
          SameLetters.dropWhile ignoresCase_isDigit hrest⟩
    · exact ⟨.nil, .cons hcd hrest⟩

/-- An exponent is read to the same length if letters change their case, its `E` included. -/
theorem exponent_recased (h : SameLetters cs ds) : SameCut (exponent cs) (exponent ds) := by
  have hletter : IgnoresCase fun c => c == 'e' || c == 'E' := ignoresCase_of_ascii (by decide)
  have hsign : IgnoresCase fun c => c == '+' || c == '-' := ignoresCase_of_ascii (by decide)
  match h with
  | .nil => exact ⟨.nil, .nil⟩
  | .cons hc .nil => exact ⟨.nil, .cons hc .nil⟩
  | .cons hc (.cons hd .nil) =>
    simp only [exponent, hletter _ _ hc, ignoresCase_isDigit _ _ hd]
    split
    · exact ⟨.cons hc (.cons hd .nil), .nil⟩
    · exact ⟨.nil, .cons hc (.cons hd .nil)⟩
  | .cons hc (.cons hd (.cons he hrest)) =>
    simp only [exponent, hletter _ _ hc, hsign _ _ hd, ignoresCase_isDigit _ _ hd,
      ignoresCase_isDigit _ _ he]
    split
    · exact ⟨.cons hc (SameLetters.takeWhile ignoresCase_isDigit (.cons hd (.cons he hrest))),
        SameLetters.dropWhile ignoresCase_isDigit (.cons hd (.cons he hrest))⟩
    · split
      · exact ⟨.cons hc (.cons hd (SameLetters.takeWhile ignoresCase_isDigit (.cons he hrest))),
          SameLetters.dropWhile ignoresCase_isDigit (.cons he hrest)⟩
      · exact ⟨.nil, .cons hc (.cons hd (.cons he hrest))⟩

/-- A number is read to the same length if letters change their case. -/
theorem number_recased (h : SameLetters cs ds) : SameCut (number cs) (number ds) := by
  have hfraction := fraction_recased (SameLetters.dropWhile ignoresCase_isDigit h)
  have hexponent := exponent_recased hfraction.rest
  have hdigits := SameLetters.takeWhile ignoresCase_isDigit h
  exact ⟨List.rel_append (List.rel_append hdigits hfraction.read) hexponent.read, hexponent.rest⟩

/-- An operator is the same if letters change their case, and as much is read for it. -/
theorem operator_recased (hcd : c.toLower = d.toLower) (h : SameLetters rest rest') :
    (operator c rest).1 = (operator d rest').1 ∧
      SameCut (operator c rest).2 (operator d rest').2 := by
  cases h with
  | nil => exact ⟨ignoresCase_single c d hcd, .cons hcd .nil, .nil⟩
  | @cons a b rest rest' hab hrest =>
    simp only [operator]
    rw [double_eq hcd hab]
    cases double d b with
    | none => exact ⟨ignoresCase_single c d hcd, .cons hcd .nil, .cons hab hrest⟩
    | some kind => exact ⟨rfl, .cons hcd (.cons hab .nil), hrest⟩

/-! ### One lexeme -/

/-- The part of a string that stands in quotes: the text from its first apostrophe
on. -/
def quotedPart (text : List Char) : List Char := text.dropWhile (· != '\'')

/-- `text` is the text of the lexeme with the case of some letters changed, none of
them in the quoted part of a string. -/
structure Recased (l : Lexeme) (text : List Char) : Prop where
  letters : SameLetters l.text text
  quoted : l.kind = .token .string → quotedPart text = quotedPart l.text

/-- A lexeme of the same kind and in the same letters is read. -/
def Reread (l : Lexeme) (after : List Char) (s : Scan) : Prop :=
  ∃ text' after', s = .ok (⟨l.kind, text'⟩, after') ∧ SameCut (l.text, after) (text', after')

/-- What is closed with the same letters up to case is read again as one lexeme of the same
kind. -/
theorem reread_closed {kind : LexemeKind} {what : Unclosed} {found found' : Option Cut} {l : Lexeme}
    (h : closed kind what found = .ok (l, after))
    (hfound : ∀ cut, found = some cut → ∃ cut', found' = some cut' ∧ SameCut cut cut') :
    Reread l after (closed kind what found') := by
  obtain ⟨⟨text', after'⟩, hcut', hsame⟩ := hfound _ (closed_ok h)
  rw [hcut', ← closed_kind h]
  exact ⟨text', after', rfl, hsame⟩

/-- Whether letters in front of an apostrophe make a literal of it does not depend on their
case. -/
theorem literalLetters_eq (h : SameLetters cs ds) : literalLetters cs = literalLetters ds := by
  have hn : IgnoresCase fun c => c == 'n' || c == 'N' := ignoresCase_of_ascii (by decide)
  have hq : IgnoresCase fun c => c == 'q' || c == 'Q' := ignoresCase_of_ascii (by decide)
  match h with
  | .nil => rfl
  | .cons _ .nil => rfl
  | .cons ha (.cons hb .nil) =>
    simp only [literalLetters, hn _ _ ha, hq _ _ ha, ignoresCase_quote _ _ hb]
  | .cons ha (.cons hb (.cons hc _)) =>
    simp only [literalLetters, hn _ _ ha, hq _ _ ha, hq _ _ hb, ignoresCase_quote _ _ hb,
      ignoresCase_quote _ _ hc]

/-- The quoted part of a literal begins with its first apostrophe. -/
theorem quotedPart_append {front : List Char} (hfront : '\'' ∉ front) (body : List Char) :
    quotedPart (front ++ '\'' :: body) = '\'' :: body := by
  unfold quotedPart
  rw [List.dropWhile_append_of_pos]
  · simp
  · intro c hc
    simpa using fun hquote : c = '\'' => hfront (hquote ▸ hc)

/-- A literal is read exactly if what stands behind its first apostrophe is closed, as a string or
as an alternative quotation. -/
theorem literal_ok_iff {front body : List Char} {quotation : Bool} {l : Lexeme} :
    literal front.length quotation (front ++ '\'' :: body) = .ok (l, after) ↔
      ∃ read, l = ⟨.token .string, front ++ '\'' :: read⟩ ∧
        (if quotation then closeQuotation body else closeString body) = some (read, after) := by
  have htake : (front ++ '\'' :: body).take (front.length + 1) = front ++ ['\''] := by
    simp [List.take_append, List.take_of_length_le]
  have hdrop : (front ++ '\'' :: body).drop (front.length + 1) = body := by
    simp [List.drop_append, List.drop_eq_nil_of_le]
  rw [literal, htake, hdrop]
  cases quotation with
  | true => cases hbody : closeQuotation body <;> simp [closed, eq_comm, Prod.ext_iff]
  | false => cases hbody : closeString body <;> simp [closed, eq_comm, Prod.ext_iff]

/-- A string is read again: with letters in front in any case, and if it is an
alternative quotation, because its quoted part is as it was. -/
theorem literal_recased {front body text' after' : List Char} {quotation : Bool} {l : Lexeme}
    (hfront : '\'' ∉ front)
    (h : literal front.length quotation (front ++ '\'' :: body) = .ok (l, after))
    (hl : l.Recased text') (hafter : SameLetters after after') :
    Reread l after (literal front.length quotation (text' ++ after')) := by
  obtain ⟨read, rfl, hread⟩ := literal_ok_iff.1 h
  obtain ⟨front', back, rfl, hfront', hback⟩ := SameLetters.split hl.letters
  obtain ⟨d, read', hd, hread', rfl⟩ := List.forall₂_cons_left_iff.1 hback
  obtain rfl : d = '\'' := Text.eq_of_toLower_eq ignoresCase_quote hd
  have hclose : ∃ cut, (if quotation then closeQuotation (read' ++ after')
      else closeString (read' ++ after')) = some cut ∧ SameCut (read, after) cut := by
    cases quotation with
    | true =>
      have hquote : '\'' ∉ front' := by
        intro hmem
        obtain ⟨c, hc, hcd⟩ := exists_of_mem_left hfront'.flip hmem
        exact hfront (Text.eq_of_toLower_eq ignoresCase_quote hcd.symm ▸ hc)
      have hquoted := hl.quoted rfl
      rw [quotedPart_append hquote, quotedPart_append hfront] at hquoted
      obtain rfl := List.tail_eq_of_cons_eq hquoted
      exact ⟨_, closeQuotation_append hread after', SameLetters.refl _, hafter⟩
    | false =>
      have hof : read ++ after = body := closeString_of hread
      apply closeString_recased _ hread
      rw [← hof]
      exact List.rel_append hread' hafter
  obtain ⟨⟨read'', after''⟩, hcut, hsame⟩ := hclose
  rw [List.Forall₂.length_eq hfront', List.append_assoc, List.cons_append]
  exact ⟨_, _, literal_ok_iff.2 ⟨read'', rfl, hcut⟩,
    List.rel_append hfront' (.cons rfl hsame.read), hsame.rest⟩

/-- A text in other letters opens in the same way. -/
theorem opening_recased (h : SameLetters (c :: rest) (d :: rest')) :
    opening c rest = opening d rest' := by
  obtain ⟨hcd, hrest⟩ := List.forall₂_cons.1 h
  have hsign {x : Char} (hx : IgnoresCase (· == x)) : (c == x) = (d == x) := hx c d hcd
  have hstar : IgnoresCase (· == '*') := ignoresCase_beq (by decide)
  have hminus : IgnoresCase (· == '-') := ignoresCase_beq (by decide)
  unfold opening
  rw [literalLetters_eq h, Text.ignoresCase_isBlank c d hcd, ignoresCase_isAlphabetic c d hcd,
    ignoresCase_isDigit c d hcd, hsign hminus, hsign (x := '/') (ignoresCase_beq (by decide)),
    hsign (x := '.') (ignoresCase_beq (by decide)), hsign (x := '"') (ignoresCase_beq (by decide)),
    hsign (x := ':') (ignoresCase_beq (by decide)), hsign ignoresCase_quote,
    SameLetters.head?_beq hminus hrest, SameLetters.head?_beq hstar hrest,
    SameLetters.head?_any ignoresCase_isDigit hrest,
    SameLetters.head?_any ignoresCase_isAlphanumeric hrest]

/-- What is opened is read again in other letters. -/
theorem read_recased {o : Opening} {l : Lexeme} {text' after' : List Char}
    (hshown : o.Shown c rest) (h : o.read c rest = .ok (l, after)) (hl : l.Recased text')
    (hafter : SameLetters after after') (hds : SameLetters (c :: rest) (d :: rest'))
    (hjoin : text' ++ after' = d :: rest') : Reread l after (o.read d rest') := by
  obtain ⟨hcd, hrest⟩ := List.forall₂_cons.1 hds
  cases o with
  | blank =>
    obtain ⟨rfl, rfl⟩ := Prod.mk.inj (Except.ok.inj h)
    exact ⟨_, _, rfl, .cons hcd .nil, hrest⟩
  | lineComment =>
    have hline : IgnoresCase (· != '\n') := ignoresCase_of_ascii (by decide)
    obtain ⟨rfl, rfl⟩ := Prod.mk.inj (Except.ok.inj h)
    exact ⟨_, _, rfl, .cons hcd (SameLetters.takeWhile hline hrest),
      SameLetters.dropWhile hline hrest⟩
  | blockComment =>
    have hstar : IgnoresCase (· == '*') := ignoresCase_beq (by decide)
    have hslash : IgnoresCase (· == '/') := ignoresCase_beq (by decide)
    apply reread_closed h
    intro cut hcut
    obtain ⟨inner, hinner, rfl⟩ := Option.map_eq_some_iff.1 hcut
    obtain ⟨inner', hinner', hsame⟩ := closePair_recased hstar hslash (rel_tail hrest) hinner
    rw [hinner']
    exact ⟨_, rfl, (hsame.push rfl).push hcd⟩
  | literal letters quotation =>
    obtain ⟨front, body, hopen, rfl, hfront⟩ := hshown.exists_front
    rw [Opening.read, hopen] at h
    rw [Opening.read, ← hjoin]
    exact literal_recased hfront h hl hafter
  | word | bindVariable =>
    obtain ⟨rfl, rfl⟩ := Prod.mk.inj (Except.ok.inj h)
    exact ⟨_, _, rfl, .cons hcd (SameLetters.takeWhile ignoresCase_continuesWord hrest),
      SameLetters.dropWhile ignoresCase_continuesWord hrest⟩
  | number =>
    obtain ⟨rfl, rfl⟩ := Prod.mk.inj (Except.ok.inj h)
    exact ⟨_, _, rfl, number_recased hds⟩
  | quotedIdent =>
    apply reread_closed h
    intro cut hcut
    obtain ⟨inner, hinner, rfl⟩ := Option.map_eq_some_iff.1 hcut
    obtain ⟨inner', hinner', hsame⟩ :=
      closeChar_recased (ignoresCase_beq (by decide)) hrest hinner
    rw [hinner']
    exact ⟨_, rfl, hsame.push hcd⟩
  | operator =>
    obtain ⟨hkind, hsame⟩ := operator_recased hcd hrest
    obtain ⟨rfl, rfl⟩ := Prod.mk.inj (Except.ok.inj h)
    exact ⟨_, _, by rw [Opening.read, hkind], hsame⟩

/-- A lexeme whose letters change their case is read again as one, with the rest of the text.  What
is read is as long as the lexeme was. -/
theorem scan_recased {l : Lexeme} {text' after' : List Char} (h : scan c rest = .ok (l, after))
    (hl : l.Recased text') (hafter : SameLetters after after') (hjoin : text' ++ after' = d :: rest') :
    scan d rest' = .ok (⟨l.kind, text'⟩, after') := by
  have hds : SameLetters (c :: rest) (d :: rest') := by
    rw [← scan_of h, ← hjoin]
    exact List.rel_append hl.letters hafter
  have hreread : Reread l after (scan d rest') := by
    rw [scan_eq_read] at h
    rw [scan_eq_read, ← opening_recased hds]
    exact read_recased (shown_opening c rest) h hl hafter hds hjoin
  obtain ⟨text, rest, hscan, hsame⟩ := hreread
  have hlength : text.length = text'.length :=
    (List.Forall₂.length_eq hsame.read).symm.trans (List.Forall₂.length_eq hl.letters)
  obtain ⟨rfl, rfl⟩ := List.append_inj ((scan_of hscan).trans hjoin.symm) hlength
  exact hscan

/-! ### All lexemes -/

/-- Two lexemes of one kind, in the same letters. -/
structure Same (l l' : Lexeme) : Prop where
  kind : l'.kind = l.kind
  letters : SameLetters l.text l'.text

/-- Lexemes whose letters change their case join up to a text that differs in case only. -/
theorem join_recased {list : List Lexeme} {texts : List (List Char)}
    (h : Forall₂ Recased list texts) : SameLetters (join list) texts.flatten := by
  induction h with
  | nil => exact .nil
  | cons hl _ ih => exact List.rel_append hl.letters ih

/-- Lexemes that are written in other letters are cut in the same way. -/
theorem lexemes_recased {list : List Lexeme} {texts : List (List Char)}
    (h : lexemes cs = (list, none)) (htexts : Forall₂ Recased list texts) :
    ∃ list', lexemes texts.flatten = (list', none) ∧ Forall₂ Same list list' := by
  induction htexts generalizing cs with
  | nil => exact ⟨[], by simp [lexemes, lexemesFrom], .nil⟩
  | @cons l text list texts hl htexts ih =>
    obtain ⟨c, rest, after, rfl, hscan, hafter⟩ := exists_scan_of_lexemes h
    obtain ⟨list', hlist', hsame⟩ := ih hafter
    have hletters : SameLetters after texts.flatten := lexemes_join hafter ▸ join_recased htexts
    cases text with
    | nil => exact absurd (List.forall₂_nil_right_iff.1 hl.letters) (scan_ne_nil hscan)
    | cons d text =>
      have hscan' : scan d (text ++ texts.flatten) = .ok (⟨l.kind, d :: text⟩, texts.flatten) :=
        scan_recased hscan hl hletters rfl
      refine ⟨⟨l.kind, d :: text⟩ :: list', ?_, .cons ⟨rfl, hl.letters⟩ hsame⟩
      rw [List.flatten_cons, List.cons_append, lexemes_cons hscan', hlist']

end Lexeme

/-! ### Tokens -/

/-- A position behind a text depends on the bytes and the line feeds in it, and these do not depend
on case. -/
theorem Position.after_eq (p : Position) {text text' : List Char} (h : SameLetters text text') :
    p.after text = p.after text' := by
  have hline : IgnoresCase (· == '\n') := ignoresCase_beq (by decide)
  induction h generalizing p with
  | nil => rfl
  | @cons c d text text' hcd _ ih =>
    have hsize : c.utf8Size = d.utf8Size := Text.ignoresCase_utf8Size c d hcd
    have hbreak : c = '\n' ↔ d = '\n' := by
      have hbeq : (c == '\n') = (d == '\n') := hline c d hcd
      rw [← beq_iff_eq, hbeq, beq_iff_eq]
    have hadvance : p.advance c = p.advance d := by
      simp only [advance, hbreak, hsize]
    show (p.advance c).after text = (p.advance d).after text'
    rw [hadvance, ih]

/-- Two tokens of one kind at one place, in the same letters. -/
structure Token.Same (t t' : Token) : Prop where
  kind : t'.kind = t.kind
  span : t'.span = t.span
  letters : Text.Recased t.text t'.text

/-- Lexemes that differ in case only join up to texts that differ in case only. -/
theorem Lexeme.join_same {list list' : List Lexeme} (h : Forall₂ Same list list') :
    SameLetters (join list) (join list') := by
  induction h with
  | nil => exact .nil
  | cons hl _ ih => exact List.rel_append hl.letters ih

/-- Lexemes that differ in case only make tokens that differ in case only, at the same places. -/
theorem Lexeme.tokensFrom_same (p : Position) {list list' : List Lexeme}
    (h : Forall₂ Same list list') : Forall₂ Token.Same (tokensFrom p list) (tokensFrom p list') := by
  induction h generalizing p with
  | nil => exact .nil
  | @cons l l' list list' hl _ ih =>
    have hplace := p.after_eq hl.letters
    rw [tokensFrom, tokensFrom, hl.kind, ← hplace]
    cases l.kind with
    | token kind =>
      refine .cons ⟨rfl, rfl, ?_⟩ (ih _)
      simpa [Text.Recased] using hl.letters
    | blank => exact ih _
    | lineComment => exact ih _
    | blockComment => exact ih _

/-- `source'` is the text `source` of the given tokens with the case of ASCII
letters changed, but not in the quoted part of a string. -/
structure Recasing (source source' : String) (tokens : TokenSequence) : Prop where
  letters : Text.Recased source source'
  quoted : ∀ t ∈ tokens.tokens, t.kind = .string →
    Lexeme.quotedPart (t.span.text source').toList = Lexeme.quotedPart t.text.toList

/-- The text in other letters has a text for each lexeme. -/
theorem Lexeme.exists_texts {source' : String} {p : Position} {before' rest' : List Char}
    {list : List Lexeme} (hsource : source'.toList = before' ++ rest')
    (hoffset : p.offset = String.utf8Len before') (hletters : SameLetters (join list) rest')
    (hquoted : ∀ t ∈ tokensFrom p list, t.kind = .string →
      quotedPart (t.span.text source').toList = quotedPart t.text.toList) :
    ∃ texts, Forall₂ Recased list texts ∧ texts.flatten = rest' := by
  induction list generalizing p before' rest' with
  | nil =>
    obtain rfl := List.forall₂_nil_left_iff.1 hletters
    exact ⟨[], .nil, rfl⟩
  | cons l list ih =>
    obtain ⟨text, rest, rfl, htext, hrest⟩ := SameLetters.split hletters
    have hnext : (p.after l.text).offset = String.utf8Len (before' ++ text) := by
      rw [Position.offset_after, hoffset, String.utf8Len_append, SameLetters.utf8Len_eq htext]
    have hspan : (Span.between p (p.after l.text)).text source' = String.ofList text := by
      have hwhole : source'.toList = before' ++ text ++ rest := by simp [hsource]
      apply Span.text_eq_ofList hwhole hoffset
      rw [String.utf8Len_append] at hnext
      simp only [Span.between, Span.stop]
      omega
    have hlater : ∀ t ∈ tokensFrom (p.after l.text) list, t ∈ tokensFrom p (l :: list) := by
      intro t ht
      rw [tokensFrom]
      split
      · exact List.mem_cons_of_mem _ ht
      · exact ht
    have hsplit : source'.toList = (before' ++ text) ++ rest := by simp [hsource]
    obtain ⟨texts, htexts, rfl⟩ := ih hsplit hnext hrest fun t ht => hquoted t (hlater t ht)
    refine ⟨text :: texts, .cons ⟨htext, ?_⟩ htexts, rfl⟩
    intro hkind
    have hmem : ⟨.string, String.ofList l.text, Span.between p (p.after l.text)⟩ ∈
        tokensFrom p (l :: list) := by
      rw [tokensFrom, hkind]
      exact List.mem_cons_self
    simpa [hspan] using hquoted _ hmem rfl

/-- **Tokens do not depend on the case of letters.** -/
theorem tokenize_recased {source source' : String} {tokens : TokenSequence}
    (htokens : tokenize source = .ok tokens) (h : Recasing source source' tokens) :
    ∃ tokens', tokenize source' = .ok tokens' ∧ tokens'.eof = tokens.eof ∧
      Forall₂ Token.Same tokens.tokens tokens'.tokens := by
  obtain ⟨list, hlist, hall, -⟩ := tokenize_spec htokens
  have hjoin := Lexeme.lexemes_join hlist
  have hstart : Position.start.offset = String.utf8Len [] := rfl
  obtain ⟨texts, htexts, hflatten⟩ := Lexeme.exists_texts (List.nil_append source'.toList).symm
    hstart (hjoin ▸ h.letters) (hall ▸ h.quoted)
  obtain ⟨list', hlist', hsame⟩ := Lexeme.lexemes_recased hlist htexts
  have hend := Position.start.after_eq (Lexeme.join_same hsame)
  rw [tokenize_eq, hlist] at htokens
  obtain rfl := Except.ok.inj htokens
  rw [tokenize_eq, ← hflatten, hlist']
  exact ⟨_, rfl, by rw [hend], Lexeme.tokensFrom_same .start hsame⟩

end PlsqlAudit
