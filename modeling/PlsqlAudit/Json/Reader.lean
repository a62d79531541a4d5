import PlsqlAudit.Json.Value
import PlsqlAudit.Text.Hex

/-!
# Reading JSON

A text is first cut into marks (brackets, commas, colons, strings, numbers and
the three words), and the marks are then read as one value.  Both steps are total:
a cut that takes nothing ends the first, and the number of marks bounds the
nesting in the second.
-/

namespace PlsqlAudit.Json

/-- A mark of JSON text. -/
inductive Mark where
  | openArray
  | closeArray
  | openObject
  | closeObject
  | comma
  | colon
  | null
  | bool (value : Bool)
  | number (value : Json)
  | string (value : String)
  deriving Repr, Inhabited

/-- The value of four digits in base sixteen. -/
def hexValue4? (a b c d : Char) : Option Nat := do
  return ((← Text.hexValue? a) * 16 + (← Text.hexValue? b)) * 256 +
    (← Text.hexValue? c) * 16 + (← Text.hexValue? d)

/-- The character that a letter stands for after a backslash. -/
def escaped? : Char → Option Char
  | '"' => some '"'
  | '\\' => some '\\'
  | '/' => some '/'
  | 'b' => some '\x08'
  | 'f' => some '\x0c'
  | 'n' => some '\n'
  | 'r' => some '\r'
  | 't' => some '\t'
  | _ => none

/-- The character of a pair of surrogates. -/
def surrogatePair (high low : Nat) : Char :=
  Char.ofNat (0x10000 + (high - 0xD800) * 0x400 + (low - 0xDC00))

/-- Reads a string from just after its opening quote; `done` holds what was read
so far, last character first. -/
def readString (done : List Char) : List Char → Option (List Char × List Char)
  | [] => none
  | '"' :: rest => some (done.reverse, rest)
  | '\\' :: 'u' :: a :: b :: c :: d :: rest =>
    match hexValue4? a b c d with
    | none => none
    | some high =>
      if 0xD800 ≤ high && high < 0xDC00 then
        match rest with
        | '\\' :: 'u' :: e :: f :: g :: h :: rest =>
          match hexValue4? e f g h with
          | some low =>
            if 0xDC00 ≤ low && low < 0xE000 then
              readString (surrogatePair high low :: done) rest
            else none
          | none => none
        | _ => none
      else if 0xDC00 ≤ high && high < 0xE000 then none
      else readString (Char.ofNat high :: done) rest
  | '\\' :: c :: rest =>
    match escaped? c with
    | some e => readString (e :: done) rest
    | none => none
  | c :: rest => if c.toNat < 32 then none else readString (c :: done) rest

/-- The value of a run of decimal digits. -/
def digitsValue (digits : List Char) : Nat :=
  digits.foldl (fun n c => 10 * n + (c.toNat - 48)) 0

/-- True for digits without a needless zero in front. -/
def isWhole (digits : List Char) : Bool :=
  !digits.isEmpty && digits.all Char.isDigit && (digits.head? != some '0' || digits.length == 1)

/-- True for the part of a number after its whole digits: nothing, or a fraction
or exponent. -/
def isNumberTail (cs : List Char) : Bool :=
  let afterPoint :=
    match cs with
    | '.' :: rest =>
      if rest.head?.any Char.isDigit then some (rest.dropWhile Char.isDigit) else none
    | _ => some cs
  match afterPoint with
  | none => false
  | some [] => true
  | some (e :: rest) =>
    let digits := if rest.head? == some '+' || rest.head? == some '-' then rest.tail else rest
    (e == 'e' || e == 'E') && !digits.isEmpty && digits.all Char.isDigit

/-- True for numbers that fit in 64 bits, with or without a sign. -/
def isWord (value : Int) : Bool :=
  -9223372036854775808 ≤ value && value < 18446744073709551616

/-- The number that is spelled `spelling`. -/
def number? (spelling : List Char) : Option Json :=
  let negative := spelling.head? == some '-'
  let body := if negative then spelling.tail else spelling
  let whole := body.takeWhile Char.isDigit
  let tail := body.dropWhile Char.isDigit
  if !isWhole whole || !isNumberTail tail then none
  else
    let value : Int := if negative then -(digitsValue whole : Int) else digitsValue whole
    if tail.isEmpty && !(negative && value == 0) && isWord value then
      some (.number value)
    else some (.decimal (String.ofList spelling))

/-- Characters that numbers are spelled with. -/
def spellsNumber (c : Char) : Bool :=
  c.isDigit || c == '-' || c == '+' || c == '.' || c == 'e' || c == 'E'

/-- Reads one mark off the front of `c :: rest`. -/
def readMark (c : Char) (rest : List Char) : Option (Mark × List Char) :=
  match c with
  | '[' => some (.openArray, rest)
  | ']' => some (.closeArray, rest)
  | '\x7b' => some (.openObject, rest)
  | '\x7d' => some (.closeObject, rest)
  | ',' => some (.comma, rest)
  | ':' => some (.colon, rest)
  | '"' => (readString [] rest).map fun (text, after) => (.string (String.ofList text), after)
  | 'n' => if rest.take 3 == ['u', 'l', 'l'] then some (.null, rest.drop 3) else none
  | 't' => if rest.take 3 == ['r', 'u', 'e'] then some (.bool true, rest.drop 3) else none
  | 'f' => if rest.take 4 == ['a', 'l', 's', 'e'] then some (.bool false, rest.drop 4) else none
  | _ =>
    (number? ((c :: rest).takeWhile spellsNumber)).map fun value =>
      (.number value, (c :: rest).dropWhile spellsNumber)

/-- The blanks of JSON. -/
def isGap (c : Char) : Bool := c == ' ' || c == '\n' || c == '\t' || c == '\r'

/-- The marks of the rest `cs` of a text, after `done`, last one first. -/
def marksFrom (done : List Mark) (cs : List Char) : Option (List Mark) :=
  match cs with
  | [] => some done.reverse
  | c :: rest =>
    if isGap c then marksFrom done rest
    else
      match readMark c rest with
      | none => none
      | some (mark, after) =>
        if after.length ≤ rest.length then marksFrom (mark :: done) after else none
termination_by cs.length

mutual

/-- Reads one value off the front of the marks. -/
def readValue : Nat → List Mark → Option (Json × List Mark)
  | 0, _ => none
  | _ + 1, [] => none
  | n + 1, mark :: marks =>
    match mark with
    | .null => some (.null, marks)
    | .bool b => some (.bool b, marks)
    | .number value => some (value, marks)
    | .string s => some (.string s, marks)
    | .openArray =>
      match marks with
      | .closeArray :: rest => some (.array [], rest)
      | _ => (readItems n marks).map fun (items, rest) => (.array items, rest)
    | .openObject =>
      match marks with
      | .closeObject :: rest => some (.object [], rest)
      | _ => (readFields n marks).map fun (fields, rest) => (.object fields, rest)
    | _ => none

/-- Reads the items of a list up to and with its closing bracket. -/
def readItems : Nat → List Mark → Option (List Json × List Mark)
  | 0, _ => none
  | n + 1, marks =>
    match readValue n marks with
    | some (item, .comma :: rest) =>
      (readItems n rest).map fun (items, after) => (item :: items, after)
    | some (item, .closeArray :: rest) => some ([item], rest)
    | _ => none

/-- Reads the fields of an object up to and with its closing brace. -/
def readFields : Nat → List Mark → Option (List (String × Json) × List Mark)
  | 0, _ => none
  | n + 1, marks =>
    match marks with
    | .string name :: .colon :: marks =>
      match readValue n marks with
      | some (value, .comma :: rest) =>
        (readFields n rest).map fun (fields, after) => ((name, value) :: fields, after)
      | some (value, .closeObject :: rest) => some ([(name, value)], rest)
      | _ => none
    | _ => none

end

/-- The value that a text spells. -/
def parse? (text : String) : Option Json :=
  match marksFrom [] text.toList with
  | none => none
  | some marks =>
    match readValue (marks.length + 1) marks with
    | some (value, []) => some value
    | _ => none

end PlsqlAudit.Json
