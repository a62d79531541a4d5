import Mathlib.Data.List.TakeWhile
import PlsqlAudit.Json.Printer
import PlsqlAudit.Json.Reader

/-!
# Printed JSON is read back

A printed value is cut into marks and the marks are read.  Between the two stand the marks
of a value (`Json.marks`), which do not depend on how it is laid out on lines: at every
depth the text of a value is cut into its marks (`Json.Plain.cuts`), and from its marks a
value is read in as many steps as there are marks (`Json.Plain.readsBack`).

Only a number looks at what follows it.  In a printed value this is always a comma or a
line break, or else the end (`Json.EndsNumber`).
-/

namespace PlsqlAudit.Json

variable {c letter : Char} {done rest : List Char}

/-! ### Strings -/

/-- A character is written in one of three ways: with a letter of its own behind a
backslash, by its number, or as it is. -/
theorem escapeChar_cases (c : Char) :
    (∃ letter, escaped? letter = some c ∧ escapeChar c = ['\\', letter]) ∨
      (c.toNat < 32 ∧ escapeChar c =
        ['\\', 'u', '0', '0', Text.hexDigit (c.toNat / 16), Text.hexDigit (c.toNat % 16)]) ∨
      (c ≠ '"' ∧ c ≠ '\\' ∧ ¬ c.toNat < 32 ∧ escapeChar c = [c]) := by
  by_cases hletter : c ∈ ['"', '\\', '\n', '\r', '\t', '\x08', '\x0c']
  · left
    simp only [List.mem_cons, List.not_mem_nil, or_false] at hletter
    rcases hletter with rfl | rfl | rfl | rfl | rfl | rfl | rfl
    exacts [⟨'"', rfl, rfl⟩, ⟨'\\', rfl, rfl⟩, ⟨'n', rfl, rfl⟩, ⟨'r', rfl, rfl⟩, ⟨'t', rfl, rfl⟩,
      ⟨'b', rfl, rfl⟩, ⟨'f', rfl, rfl⟩]
  · right
    simp only [List.mem_cons, List.not_mem_nil, or_false, not_or] at hletter
    by_cases hcontrol : c.toNat < 32
    · exact .inl ⟨hcontrol, by simp [escapeChar, hletter, hcontrol]⟩
    · exact .inr ⟨hletter.1, hletter.2.1, hcontrol, by simp [escapeChar, hletter, hcontrol]⟩

/-- A letter behind a backslash is read as the character it stands for. -/
theorem readString_letter (h : escaped? letter = some c) :
    readString done ('\\' :: letter :: rest) = readString (c :: done) rest := by
  have hletter : letter ≠ 'u' := by
    rintro rfl
    simp [escaped?] at h
  rw [readString.eq_4 _ _ _ (fun _ _ _ _ _ hu _ => hletter hu), h]

/-- A character that needs no escape is read as itself. -/
theorem readString_plain (hquote : c ≠ '"') (hbackslash : c ≠ '\\') (hcontrol : ¬ c.toNat < 32) :
    readString done (c :: rest) = readString (c :: done) rest := by
  rw [readString.eq_5 _ _ _ hquote (fun _ _ _ _ _ h _ => hbackslash h)
    (fun _ _ h _ => hbackslash h), if_neg hcontrol]

/-- A hexadecimal digit is read as the number it was written for. -/
theorem hexValue?_hexDigit : ∀ n < 16, Text.hexValue? (Text.hexDigit n) = some n := by
  decide

/-- A number below 256 is read from its two digits. -/
theorem hexValue4?_hexDigit {n : Nat} (h : n < 256) :
    hexValue4? '0' '0' (Text.hexDigit (n / 16)) (Text.hexDigit (n % 16)) = some n := by
  have hzero : Text.hexValue? '0' = some 0 := by decide
  rw [hexValue4?, hzero, hexValue?_hexDigit (n / 16) (by omega),
    hexValue?_hexDigit (n % 16) (by omega)]
  simp only [Option.bind_eq_bind, Option.bind_some, Option.pure_def, Option.some.injEq]
  omega

/-- A control character is read back from the number that it was written as, four digits behind a
backslash and a letter. -/
theorem readString_number (h : c.toNat < 32) :
    readString done ('\\' :: 'u' :: '0' :: '0' :: Text.hexDigit (c.toNat / 16) ::
      Text.hexDigit (c.toNat % 16) :: rest) = readString (c :: done) rest := by
  have hhigh : ¬ (decide (55296 ≤ c.toNat) && decide (c.toNat < 56320)) = true := by
    rw [Bool.and_eq_true, decide_eq_true_iff, decide_eq_true_iff]
    omega
  have hlow : ¬ (decide (56320 ≤ c.toNat) && decide (c.toNat < 57344)) = true := by
    rw [Bool.and_eq_true, decide_eq_true_iff, decide_eq_true_iff]
    omega
  rw [readString.eq_3, hexValue4?_hexDigit (by omega)]
  dsimp only
  rw [if_neg hhigh, if_neg hlow, Char.ofNat_toNat]

/-- What a character is written as is read as that character. -/
theorem readString_escapeChar (done : List Char) (c : Char) (rest : List Char) :
    readString done (escapeChar c ++ rest) = readString (c :: done) rest := by
  rcases escapeChar_cases c with ⟨letter, hletter, hform⟩ | ⟨hcontrol, hform⟩ |
    ⟨hquote, hbackslash, hcontrol, hform⟩ <;> rw [hform]
  · exact readString_letter hletter
  · exact readString_number hcontrol
  · exact readString_plain hquote hbackslash hcontrol

/-- A text is read back up to its closing quote. -/
theorem readString_escaped (done cs rest : List Char) :
    readString done (cs.flatMap escapeChar ++ '"' :: rest) = some (done.reverse ++ cs, rest) := by
  induction cs generalizing done with
  | nil => simp [readString]
  | cons c cs ih =>
    rw [List.flatMap_cons, List.append_assoc, readString_escapeChar, ih]
    simp

/-! ### Numbers -/

/-- The digits of a number are decimal digits, and nothing else spells it. -/
theorem isDigit_of_mem_toDigits {n : Nat} (h : c ∈ Nat.toDigits 10 n) : c.isDigit = true :=
  Nat.isDigit_of_mem_toDigits (by decide) (by decide) h

/-- A number above zero is not written with a zero in front. -/
theorem head?_toDigits {n : Nat} (h : 0 < n) : (Nat.toDigits 10 n).head? ≠ some '0' := by
  induction n using Nat.strong_induction_on with
  | _ n ih =>
    rw [Nat.toDigits_eq_if (by decide)]
    split_ifs with hdigit
    · have hdigits : ∀ n < 10, 0 < n → [n.digitChar].head? ≠ some '0' := by decide
      exact hdigits n hdigit h
    · have hfront := ih (n / 10) (by omega) (by omega)
      obtain ⟨first, digits, hdigits⟩ :=
        List.exists_cons_of_ne_nil (Nat.toDigits_ne_nil (n := n / 10))
      rw [hdigits] at hfront ⊢
      exact hfront

/-- The digits of a number make a whole number as the reader wants it: no zero stands in front of
others. -/
theorem isWhole_toDigits (n : Nat) : isWhole (Nat.toDigits 10 n) = true := by
  have hdigits : (Nat.toDigits 10 n).all Char.isDigit = true :=
    List.all_eq_true.2 fun _ hc => isDigit_of_mem_toDigits hc
  have hzero : (Nat.toDigits 10 n).head? ≠ some '0' ∨ (Nat.toDigits 10 n).length = 1 := by
    rcases Nat.eq_zero_or_pos n with rfl | hpos
    · exact .inr (by decide)
    · exact .inl (head?_toDigits hpos)
  simpa [isWhole, hdigits, Nat.toDigits_ne_nil] using hzero

/-- The digits of a number are read as the number. -/
theorem digitsValue_toDigits (n : Nat) : digitsValue (Nat.toDigits 10 n) = n :=
  Nat.ofDigitChars_toDigits (by decide) (by decide)

/-- All characters of the digits of a number are taken as digits. -/
theorem takeWhile_toDigits (n : Nat) :
    (Nat.toDigits 10 n).takeWhile Char.isDigit = Nat.toDigits 10 n :=
  List.takeWhile_eq_self_iff.2 fun _ hc => isDigit_of_mem_toDigits hc

/-- Nothing is left behind the digits of a number. -/
theorem dropWhile_toDigits (n : Nat) : (Nat.toDigits 10 n).dropWhile Char.isDigit = [] :=
  List.dropWhile_eq_nil_iff.2 fun _ hc => isDigit_of_mem_toDigits hc

/-- A number that is not negative is printed as its digits. -/
theorem toList_toString_ofNat (m : Nat) :
    (toString (Int.ofNat m)).toList = Nat.toDigits 10 m := by
  have hrepr : toString (Int.ofNat m) = m.repr := rfl
  rw [hrepr, Nat.repr_eq_ofList_toDigits, String.toList_ofList]

/-- A negative number is printed as a minus sign and the digits of its amount. -/
theorem toList_toString_negSucc (m : Nat) :
    (toString (Int.negSucc m)).toList = '-' :: Nat.toDigits 10 (m + 1) := by
  have hrepr : toString (Int.negSucc m) = "-" ++ (m + 1).repr := rfl
  rw [hrepr, Nat.repr_eq_ofList_toDigits]
  simp

/-- A number that fits in 64 bits is read from its digits and its sign. -/
theorem number?_toString {n : Int} (h : isWord n = true) :
    number? (toString n).toList = some (.number n) := by
  cases n with
  | ofNat m =>
    have hsign : (Nat.toDigits 10 m).head? ≠ some '-' := by
      intro hhead
      exact absurd (isDigit_of_mem_toDigits (List.mem_of_mem_head? hhead)) (by decide)
    have hword : isWord (m : Int) = true := h
    rw [toList_toString_ofNat]
    simp [number?, takeWhile_toDigits, dropWhile_toDigits, isWhole_toDigits, digitsValue_toDigits,
      isNumberTail, hword, hsign]
  | negSucc m =>
    have hvalue : -((m + 1 : Nat) : Int) = Int.negSucc m := rfl
    rw [toList_toString_negSucc]
    simp only [number?, List.head?_cons, List.tail_cons, BEq.rfl, if_true, takeWhile_toDigits,
      dropWhile_toDigits, isWhole_toDigits, digitsValue_toDigits, hvalue]
    simp [isNumberTail, h]

/-- A printed number is made of characters that a number may be spelled with, so that the reader
takes it as a whole. -/
theorem spellsNumber_of_mem_toString {n : Int} (h : c ∈ (toString n).toList) :
    spellsNumber c = true := by
  have hdigit {m : Nat} (hc : c ∈ Nat.toDigits 10 m) : spellsNumber c = true := by
    simp [spellsNumber, isDigit_of_mem_toDigits hc]
  cases n with
  | ofNat m => exact hdigit (toList_toString_ofNat m ▸ h)
  | negSucc m =>
    rw [toList_toString_negSucc, List.mem_cons] at h
    rcases h with rfl | h
    · decide
    · exact hdigit h

/-! ### Cutting -/

/-- True of what can stand behind a number without being read as a part of it. -/
def EndsNumber (cs : List Char) : Prop := ∀ c ∈ cs.head?, spellsNumber c = false

@[simp]
theorem endsNumber_nil : EndsNumber [] := by simp [EndsNumber]

/-- Text ends a number exactly if it does not begin with a character that a number may be spelled
with. -/
@[simp]
theorem endsNumber_cons : EndsNumber (c :: rest) ↔ spellsNumber c = false := by simp [EndsNumber]

/-- The spelling of a number in front of a text that ends it is taken as a whole. -/
theorem EndsNumber.takeWhile_append {spelling : List Char} (h : EndsNumber rest)
    (hspelling : ∀ c ∈ spelling, spellsNumber c = true) :
    (spelling ++ rest).takeWhile spellsNumber = spelling := by
  rw [List.takeWhile_append_of_pos hspelling]
  cases rest <;> simp_all

/-- Behind the spelling of a number stands the text that ends it. -/
theorem EndsNumber.dropWhile_append {spelling : List Char} (h : EndsNumber rest)
    (hspelling : ∀ c ∈ spelling, spellsNumber c = true) :
    (spelling ++ rest).dropWhile spellsNumber = rest := by
  rw [List.dropWhile_append_of_pos hspelling]
  cases rest <;> simp_all

variable {mark : Mark} {before : List Mark} {after : List Char}

/-- A gap between marks is passed over. -/
theorem marksFrom_gap (h : isGap c = true) :
    marksFrom before (c :: rest) = marksFrom before rest := by
  rw [marksFrom, if_pos h]

/-- A mark that is read comes in front of those in the rest of the text, which is shorter. -/
theorem marksFrom_mark (hgap : isGap c = false) (h : readMark c rest = some (mark, after))
    (hafter : after.length ≤ rest.length) :
    marksFrom before (c :: rest) = marksFrom (mark :: before) after := by
  rw [marksFrom, if_neg (by simp [hgap]), h]
  dsimp only
  rw [if_pos hafter]

@[simp]
theorem marksFrom_openArray :
    marksFrom before ('[' :: rest) = marksFrom (.openArray :: before) rest :=
  marksFrom_mark (by decide) rfl (Nat.le_refl _)

@[simp]
theorem marksFrom_closeArray :
    marksFrom before (']' :: rest) = marksFrom (.closeArray :: before) rest :=
  marksFrom_mark (by decide) rfl (Nat.le_refl _)

@[simp]
theorem marksFrom_openObject :
    marksFrom before ('\x7b' :: rest) = marksFrom (.openObject :: before) rest :=
  marksFrom_mark (by decide) rfl (Nat.le_refl _)

@[simp]
theorem marksFrom_closeObject :
    marksFrom before ('\x7d' :: rest) = marksFrom (.closeObject :: before) rest :=
  marksFrom_mark (by decide) rfl (Nat.le_refl _)

@[simp]
theorem marksFrom_comma : marksFrom before (',' :: rest) = marksFrom (.comma :: before) rest :=
  marksFrom_mark (by decide) rfl (Nat.le_refl _)

@[simp]
theorem marksFrom_colon : marksFrom before (':' :: rest) = marksFrom (.colon :: before) rest :=
  marksFrom_mark (by decide) rfl (Nat.le_refl _)

@[simp]
theorem marksFrom_blank : marksFrom before (' ' :: rest) = marksFrom before rest :=
  marksFrom_gap (by decide)

@[simp]
theorem marksFrom_null :
    marksFrom before ('n' :: 'u' :: 'l' :: 'l' :: rest) = marksFrom (.null :: before) rest :=
  marksFrom_mark (by decide) rfl (by simp only [List.length_cons]; omega)

@[simp]
theorem marksFrom_true :
    marksFrom before ('t' :: 'r' :: 'u' :: 'e' :: rest) = marksFrom (.bool true :: before) rest :=
  marksFrom_mark (by decide) rfl (by simp only [List.length_cons]; omega)

@[simp]
theorem marksFrom_false : marksFrom before ('f' :: 'a' :: 'l' :: 's' :: 'e' :: rest) =
    marksFrom (.bool false :: before) rest :=
  marksFrom_mark (by decide) rfl (by simp only [List.length_cons]; omega)

/-- A quoted string is cut into one mark, which is that string, whatever characters are in it. -/
@[simp]
theorem marksFrom_quote (s : String) :
    marksFrom before ((quote s).toList ++ rest) = marksFrom (.string s :: before) rest := by
  have hread : readMark '"' (s.toList.flatMap escapeChar ++ '"' :: rest) =
      some (.string s, rest) := by
    change (readString [] _).map _ = _
    rw [readString_escaped]
    simp
  rw [quote, String.toList_ofList]
  simp only [List.cons_append, List.append_assoc, List.nil_append]
  refine marksFrom_mark (by decide) hread ?_
  rw [List.length_append, List.length_cons]
  omega

/-- An indentation is a line feed and two blanks for each level. -/
theorem toList_indent (depth : Nat) :
    (indent depth).toList = '\n' :: List.replicate (2 * depth) ' ' := by
  simp [indent]

/-- An indentation leaves no mark. -/
@[simp]
theorem marksFrom_indent (depth : Nat) :
    marksFrom before ((indent depth).toList ++ rest) = marksFrom before rest := by
  have hblanks (n : Nat) :
      marksFrom before (List.replicate n ' ' ++ rest) = marksFrom before rest := by
    induction n with
    | zero => rfl
    | succ n ih => rw [List.replicate_succ, List.cons_append, marksFrom_blank, ih]
  rw [toList_indent, List.cons_append, marksFrom_gap (by decide), hblanks]

/-- None of the ten characters that begin another mark spells a number, so at one that does a
number is read. -/
theorem readMark_number (h : spellsNumber c = true) :
    readMark c rest = (number? ((c :: rest).takeWhile spellsNumber)).map fun value =>
      (.number value, (c :: rest).dropWhile spellsNumber) := by
  unfold readMark
  split
  iterate 10 exact absurd h (by decide)
  rfl

/-- A printed number that fits into a word is cut into one mark, if the text behind it ends it. -/
theorem marksFrom_number {n : Int} (h : isWord n = true) (hrest : EndsNumber rest) :
    marksFrom before ((toString n).toList ++ rest) =
      marksFrom (.number (.number n) :: before) rest := by
  have hspelling : ∀ c ∈ (toString n).toList, spellsNumber c = true :=
    fun c hc => spellsNumber_of_mem_toString hc
  have htake := hrest.takeWhile_append hspelling
  have hdrop := hrest.dropWhile_append hspelling
  have hnumber := number?_toString h
  obtain ⟨c, digits, hc⟩ : ∃ c digits, (toString n).toList = c :: digits := by
    refine List.exists_cons_of_ne_nil ?_
    intro hempty
    rw [hempty] at hnumber
    simp [number?, isWhole] at hnumber
  rw [hc] at htake hdrop hnumber hspelling ⊢
  rw [List.cons_append] at htake hdrop ⊢
  have hfirst := hspelling c List.mem_cons_self
  have hgap : isGap c = false := by
    rw [Bool.eq_false_iff]
    intro hgap
    simp only [isGap, Bool.or_eq_true, beq_iff_eq] at hgap
    rcases hgap with ((rfl | rfl) | rfl) | rfl <;> exact absurd hfirst (by decide)
  refine marksFrom_mark hgap ?_ (by simp)
  rw [readMark_number hfirst, htake, hdrop, hnumber]
  rfl

/-! ### The marks of a value -/

mutual

/-- The marks that a value is written with. -/
def marks : Json → List Mark
  | .null => [.null]
  | .bool b => [.bool b]
  | .number n => [.number (.number n)]
  | .decimal spelling => [.number (.decimal spelling)]
  | .string s => [.string s]
  | .array [] => [.openArray, .closeArray]
  | .array (item :: items) => .openArray :: (marks item ++ itemMarks items ++ [.closeArray])
  | .object [] => [.openObject, .closeObject]
  | .object ((name, value) :: fields) =>
    .openObject :: .string name :: .colon :: (marks value ++ fieldMarks fields ++ [.closeObject])

/-- The marks of the items of a list after its first one. -/
def itemMarks : List Json → List Mark
  | [] => []
  | item :: items => .comma :: (marks item ++ itemMarks items)

/-- The marks of the fields of an object after its first one. -/
def fieldMarks : List (String × Json) → List Mark
  | [] => []
  | (name, value) :: fields =>
    .comma :: .string name :: .colon :: (marks value ++ fieldMarks fields)

end

/-- A value without numbers of more than 64 bits, fractions and exponents. -/
inductive Plain : Json → Prop
  | null : Plain .null
  | bool (b : Bool) : Plain (.bool b)
  | number {n : Int} (h : isWord n = true) : Plain (.number n)
  | string (s : String) : Plain (.string s)
  | array {items : List Json} (h : ∀ item ∈ items, Plain item) : Plain (.array items)
  | object {fields : List (String × Json)} (h : ∀ field ∈ fields, Plain field.2) :
    Plain (.object fields)

attribute [simp] Plain.null Plain.bool Plain.string

/-- A list is plain exactly if all its items are. -/
@[simp]
theorem plain_array {items : List Json} :
    (Json.array items).Plain ↔ ∀ item ∈ items, item.Plain := by
  refine ⟨?_, .array⟩
  rintro ⟨⟩
  assumption

/-- An object is plain exactly if the values of all its fields are. -/
@[simp]
theorem plain_object {fields : List (String × Json)} :
    (Json.object fields).Plain ↔ ∀ field ∈ fields, field.2.Plain := by
  refine ⟨?_, .object⟩
  rintro ⟨⟩
  assumption

/-! ### Printed values are cut into their marks -/

/-- At every depth, and in front of all that can follow, a value is cut into its marks. -/
def Cuts (json : Json) : Prop := ∀ (depth : Nat) (before : List Mark) (rest : List Char),
  EndsNumber rest → marksFrom before ((prettyAt depth json).toList ++ rest) =
    marksFrom (json.marks.reverse ++ before) rest

/-- An indentation ends a number in front of it, since it begins with a line feed. -/
theorem endsNumber_indent (depth : Nat) (rest : List Char) :
    EndsNumber ((indent depth).toList ++ rest) := by
  rw [toList_indent, List.cons_append, endsNumber_cons]
  decide

/-- The items that follow in a list end a number in front of them: they begin with a comma, or the
list ends. -/
theorem EndsNumber.prettyItems (h : EndsNumber rest) (depth : Nat) (items : List Json) :
    EndsNumber ((prettyItems depth items).toList ++ rest) := by
  cases items with
  | nil => simpa [Json.prettyItems] using h
  | cons item items =>
    have hcomma : spellsNumber ',' = false := by decide
    simp [Json.prettyItems, hcomma]

/-- The fields that follow in an object end a number in front of them: they begin with a comma, or
the object ends. -/
theorem EndsNumber.prettyFields (h : EndsNumber rest) (depth : Nat)
    (fields : List (String × Json)) :
    EndsNumber ((prettyFields depth "," fields).toList ++ rest) := by
  cases fields with
  | nil => simpa [Json.prettyFields] using h
  | cons field fields =>
    have hcomma : spellsNumber ',' = false := by decide
    simp [Json.prettyFields, hcomma]

/-- The items that follow in a list are cut into a comma and the marks of the item, one after the
other. -/
theorem marksFrom_prettyItems {items : List Json} (h : ∀ item ∈ items, item.Cuts) (depth : Nat)
    (before : List Mark) (hrest : EndsNumber rest) :
    marksFrom before ((prettyItems depth items).toList ++ rest) =
      marksFrom ((itemMarks items).reverse ++ before) rest := by
  induction items generalizing before with
  | nil => simp [prettyItems, itemMarks]
  | cons item items ih =>
    rw [List.forall_mem_cons] at h
    simp [prettyItems, itemMarks, h.1 _ _ _ (hrest.prettyItems depth items), ih h.2]

/-- The fields that follow in an object are cut into a comma, the name, a colon and the marks of
the value, one after the other. -/
theorem marksFrom_prettyFields {fields : List (String × Json)}
    (h : ∀ field ∈ fields, field.2.Cuts) (depth : Nat) (before : List Mark)
    (hrest : EndsNumber rest) :
    marksFrom before ((prettyFields depth "," fields).toList ++ rest) =
      marksFrom ((fieldMarks fields).reverse ++ before) rest := by
  induction fields generalizing before with
  | nil => simp [prettyFields, fieldMarks]
  | cons field fields ih =>
    rw [List.forall_mem_cons] at h
    simp [prettyFields, fieldMarks, h.1 _ _ _ (hrest.prettyFields depth fields), ih h.2]

/-- **A plain value is cut into its marks.** -/
theorem Plain.cuts {json : Json} (h : json.Plain) : json.Cuts := by
  induction h with
  | null =>
    intro depth before rest hrest
    simp [prettyAt, marks]
  | bool b =>
    intro depth before rest hrest
    cases b <;> simp [prettyAt, marks]
  | number h =>
    intro depth before rest hrest
    exact marksFrom_number h hrest
  | string s =>
    intro depth before rest hrest
    exact marksFrom_quote s
  | @array items h ih =>
    intro depth before rest hrest
    have hend := endsNumber_indent depth (']' :: rest)
    cases items with
    | nil => simp [prettyAt, marks]
    | cons item items =>
      rw [List.forall_mem_cons] at ih
      simp [prettyAt, marks, ih.1 _ _ _ (hend.prettyItems (depth + 1) items),
        marksFrom_prettyItems ih.2 _ _ hend]
  | @object fields h ih =>
    intro depth before rest hrest
    have hend := endsNumber_indent depth ('\x7d' :: rest)
    cases fields with
    | nil => simp [prettyAt, marks]
    | cons field fields =>
      rw [List.forall_mem_cons] at ih
      simp [prettyAt, prettyFields, marks, ih.1 _ _ _ (hend.prettyFields (depth + 1) fields),
        marksFrom_prettyFields ih.2 _ _ hend]

/-! ### Marks are read as the value that they are the marks of -/

/-- With a step for each of them, the marks of a value are read as that value. -/
def ReadsBack (json : Json) : Prop := ∀ (n : Nat) (rest : List Mark),
  json.marks.length ≤ n → readValue (n + 1) (json.marks ++ rest) = some (json, rest)

/-- The marks of a value do not begin with the end of a list, so a list that begins with a value is
not taken to be empty. -/
theorem marks_ne_closeArray (json : Json) (more rest : List Mark) :
    json.marks ++ more ≠ .closeArray :: rest := by
  unfold marks
  split <;> simp

/-- The marks of the items of a list are read as the items.  The comma between two of them pays for
the step from one to the next. -/
theorem readItems_marks {item : Json} {items : List Json} (h : item.ReadsBack)
    (hitems : ∀ item ∈ items, item.ReadsBack) {n : Nat} (rest : List Mark)
    (hn : (item.marks ++ itemMarks items).length ≤ n) :
    readItems (n + 2) (item.marks ++ itemMarks items ++ .closeArray :: rest) =
      some (item :: items, rest) := by
  induction items generalizing item n with
  | nil =>
    simp only [itemMarks, List.append_nil] at hn ⊢
    rw [readItems, h n _ hn]
  | cons next items ih =>
    rw [List.forall_mem_cons] at hitems
    simp only [itemMarks, List.append_assoc, List.cons_append, List.length_append,
      List.length_cons] at hn ⊢
    obtain ⟨n, rfl⟩ : ∃ m, n = m + 1 := ⟨n - 1, by omega⟩
    have hnext := ih hitems.1 hitems.2 (n := n) (by rw [List.length_append]; omega)
    rw [List.append_assoc] at hnext
    rw [readItems, h (n + 1) _ (by omega)]
    simp [hnext]

/-- The marks of the fields of an object are read as the fields.  The comma, the name and the colon
pay for the steps from one field to the next. -/
theorem readFields_marks (name : String) {value : Json} {fields : List (String × Json)}
    (h : value.ReadsBack) (hfields : ∀ field ∈ fields, field.2.ReadsBack) {n : Nat}
    (rest : List Mark) (hn : (value.marks ++ fieldMarks fields).length ≤ n) :
    readFields (n + 2) (.string name :: .colon :: (value.marks ++ fieldMarks fields ++
      .closeObject :: rest)) = some ((name, value) :: fields, rest) := by
  induction fields generalizing name value n with
  | nil =>
    simp only [fieldMarks, List.append_nil] at hn ⊢
    rw [readFields, h n _ hn]
  | cons next fields ih =>
    rw [List.forall_mem_cons] at hfields
    simp only [fieldMarks, List.append_assoc, List.cons_append, List.length_append,
      List.length_cons] at hn ⊢
    obtain ⟨n, rfl⟩ : ∃ m, n = m + 1 := ⟨n - 1, by omega⟩
    have hnext := ih next.1 hfields.1 hfields.2 (n := n) (by rw [List.length_append]; omega)
    rw [List.append_assoc] at hnext
    rw [readFields, h (n + 1) _ (by omega)]
    simp [hnext]

/-- **The marks of a plain value are read as that value.** -/
theorem Plain.readsBack {json : Json} (h : json.Plain) : json.ReadsBack := by
  induction h with
  | null | bool | number | string =>
    intro n rest hn
    rfl
  | @array items h ih =>
    intro n rest hn
    cases items with
    | nil => rfl
    | cons item items =>
      rw [List.forall_mem_cons] at ih
      simp only [marks, List.length_cons, List.length_append, List.length_nil] at hn
      obtain ⟨n, rfl⟩ : ∃ m, n = m + 2 := ⟨n - 2, by omega⟩
      have hitems := readItems_marks ih.1 ih.2 (n := n) rest (by rw [List.length_append]; omega)
      simp only [marks, List.cons_append, List.append_assoc, List.nil_append] at hitems ⊢
      rw [readValue, hitems]
      · rfl
      · exact marks_ne_closeArray item _
  | @object fields h ih =>
    intro n rest hn
    cases fields with
    | nil => rfl
    | cons field fields =>
      rw [List.forall_mem_cons] at ih
      simp only [marks, List.length_cons, List.length_append, List.length_nil] at hn
      obtain ⟨n, rfl⟩ : ∃ m, n = m + 2 := ⟨n - 2, by omega⟩
      have hfields := readFields_marks field.1 ih.1 ih.2 (n := n) rest
        (by rw [List.length_append]; omega)
      simp only [marks, List.cons_append, List.append_assoc, List.nil_append] at hfields ⊢
      simp [readValue, hfields]

/-- **Printed JSON is read back.**  What is printed of a value without numbers of more than
64 bits, fractions and exponents is read as that value. -/
theorem Plain.parse?_pretty {json : Json} (h : json.Plain) : parse? json.pretty = some json := by
  have hcut : marksFrom [] json.pretty.toList = some json.marks := by
    have hcuts := h.cuts 0 [] [] endsNumber_nil
    rw [List.append_nil, List.append_nil, marksFrom, List.reverse_reverse] at hcuts
    exact hcuts
  have hread := h.readsBack json.marks.length [] (Nat.le_refl _)
  rw [List.append_nil] at hread
  rw [parse?, hcut]
  dsimp only
  rw [hread]

end PlsqlAudit.Json
