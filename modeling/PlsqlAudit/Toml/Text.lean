import PlsqlAudit.Text.Hex

/-!
# The characters of TOML

Readers take what they read off the front of a list of characters and return the
rest.  Strings come in four kinds: with escapes or without, on one line or on
several.  A string on several lines ends at three quotes, and one or two more
quotes right before them belong to it.
-/

namespace PlsqlAudit.Toml

/-- Takes something off the front of a text. -/
abbrev Reader (α : Type) := List Char → Option (α × List Char)

/-- The blanks inside a line. -/
def isGap (c : Char) : Bool := c == ' ' || c == '\t'

/-- Characters that may stand in a comment: all but control characters. -/
def isPlain (c : Char) : Bool := c == '\t' || (32 ≤ c.toNat && c.toNat ≠ 127)

/-- The text after the blanks at its front. -/
def skipGaps (cs : List Char) : List Char := cs.dropWhile isGap

/-- Reads a line break. -/
def readNewline : List Char → Option (List Char)
  | '\n' :: rest => some rest
  | '\r' :: '\n' :: rest => some rest
  | _ => none

/-- Reads the end of a line: blanks, a comment, and a line break or the end of the
text. -/
def readLineEnd (cs : List Char) : Option (List Char) :=
  let rest := match skipGaps cs with
    | '#' :: rest => rest.dropWhile isPlain
    | rest => rest
  match rest with
  | [] => some []
  | rest => readNewline rest

/-- The text after blanks, line breaks and comments at its front; `comment` says
that the front is inside a comment. -/
def skipSpace (comment : Bool) : List Char → List Char
  | [] => []
  | '\r' :: '\n' :: rest => skipSpace false rest
  | c :: rest =>
    if c == '\n' then skipSpace false rest
    else if comment && isPlain c then skipSpace true rest
    else if isGap c then skipSpace false rest
    else if c == '#' then skipSpace true rest
    else c :: rest

/-- The value of digits in base sixteen. -/
def hexNumber? (digits : List Char) : Option Nat :=
  digits.foldlM (fun n c => (Text.hexValue? c).map (16 * n + ·)) 0

/-- The character with the number that the digits spell in base sixteen. -/
def hexChar? (digits : List Char) : Option Char := do
  let n ← hexNumber? digits
  if n.isValidChar then some (Char.ofNat n) else none

/-- The character that a letter stands for after a backslash. -/
def escaped? : Char → Option Char
  | '"' => some '"'
  | '\\' => some '\\'
  | 'b' => some '\x08'
  | 'f' => some '\x0c'
  | 'n' => some '\n'
  | 'r' => some '\r'
  | 't' => some '\t'
  | _ => none

/-- True when nothing but blanks stands before the next line break. -/
def endsLine (cs : List Char) : Bool := (readNewline (skipGaps cs)).isSome

/-- Reads a string on one line from just after its opening quote; `done` holds what
was read so far, last character first. -/
def readBasic (done : List Char) : Reader String
  | [] => none
  | '"' :: rest => some (String.ofList done.reverse, rest)
  | '\\' :: 'u' :: a :: b :: c :: d :: rest =>
    match hexChar? [a, b, c, d] with
    | some x => readBasic (x :: done) rest
    | none => none
  | '\\' :: 'U' :: a :: b :: c :: d :: e :: f :: g :: h :: rest =>
    match hexChar? [a, b, c, d, e, f, g, h] with
    | some x => readBasic (x :: done) rest
    | none => none
  | '\\' :: c :: rest =>
    match escaped? c with
    | some x => readBasic (x :: done) rest
    | none => none
  | c :: rest => if isPlain c then readBasic (c :: done) rest else none

/-- Reads a string on several lines from just after its opening quotes.  After a
backslash at the end of a line, `skipping` is set and blanks and line breaks are
left out up to the next other character. -/
def readLongBasic (skipping : Bool) (done : List Char) : Reader String
  | [] => none
  | '"' :: '"' :: '"' :: '"' :: '"' :: rest => some (String.ofList ('"' :: '"' :: done).reverse, rest)
  | '"' :: '"' :: '"' :: '"' :: rest => some (String.ofList ('"' :: done).reverse, rest)
  | '"' :: '"' :: '"' :: rest => some (String.ofList done.reverse, rest)
  | '\\' :: 'u' :: a :: b :: c :: d :: rest =>
    match hexChar? [a, b, c, d] with
    | some x => readLongBasic false (x :: done) rest
    | none => none
  | '\\' :: 'U' :: a :: b :: c :: d :: e :: f :: g :: h :: rest =>
    match hexChar? [a, b, c, d, e, f, g, h] with
    | some x => readLongBasic false (x :: done) rest
    | none => none
  | '\\' :: c :: rest =>
    match escaped? c with
    | some x => readLongBasic false (x :: done) rest
    | none => if endsLine (c :: rest) then readLongBasic true done (c :: rest) else none
  | '\r' :: '\n' :: rest => readLongBasic skipping (if skipping then done else '\n' :: done) rest
  | c :: rest =>
    if c == '\n' then readLongBasic skipping (if skipping then done else '\n' :: done) rest
    else if skipping && isGap c then readLongBasic true done rest
    else if isPlain c then readLongBasic false (c :: done) rest
    else none

/-- Reads a string without escapes on one line from just after its opening
quote. -/
def readLiteral (cs : List Char) : Option (String × List Char) :=
  let body := cs.takeWhile fun c => isPlain c && c ≠ '\''
  match cs.dropWhile fun c => isPlain c && c ≠ '\'' with
  | '\'' :: rest => some (String.ofList body, rest)
  | _ => none

/-- Reads a string without escapes on several lines from just after its opening
quotes. -/
def readLongLiteral (done : List Char) : Reader String
  | [] => none
  | '\'' :: '\'' :: '\'' :: '\'' :: '\'' :: rest =>
    some (String.ofList ('\'' :: '\'' :: done).reverse, rest)
  | '\'' :: '\'' :: '\'' :: '\'' :: rest => some (String.ofList ('\'' :: done).reverse, rest)
  | '\'' :: '\'' :: '\'' :: rest => some (String.ofList done.reverse, rest)
  | '\r' :: '\n' :: rest => readLongLiteral ('\n' :: done) rest
  | c :: rest => if isPlain c || c == '\n' then readLongLiteral (c :: done) rest else none

/-- The text without a line break at its front. -/
def skipNewline (cs : List Char) : List Char := (readNewline cs).getD cs

/-- Reads a string of any kind. -/
def readString : Reader String
  | '"' :: '"' :: '"' :: rest => readLongBasic false [] (skipNewline rest)
  | '"' :: rest => readBasic [] rest
  | '\'' :: '\'' :: '\'' :: rest => readLongLiteral [] (skipNewline rest)
  | '\'' :: rest => readLiteral rest
  | _ => none

/-- Characters of a key without quotes. -/
def isBare (c : Char) : Bool := c.isAlphanum || c == '_' || c == '-'

/-- Reads one part of a key. -/
def readKeyPart : Reader String
  | '"' :: rest => readBasic [] rest
  | '\'' :: rest => readLiteral rest
  | cs =>
    match cs.takeWhile isBare with
    | [] => none
    | part => some (String.ofList part, cs.dropWhile isBare)

/-- Reads the parts of a key, at most as many as the bound, with the blanks around
them. -/
def readKeyParts : Nat → Reader (List String)
  | 0, _ => none
  | n + 1, cs => do
    let (part, rest) ← readKeyPart (skipGaps cs)
    match skipGaps rest with
    | '.' :: rest => do
      let (parts, rest) ← readKeyParts n rest
      return (part :: parts, rest)
    | rest => return ([part], rest)

/-- Reads a key: the path to a table, and a name in it. -/
def readKey (bound : Nat) (cs : List Char) : Option ((List String × String) × List Char) := do
  let (parts, rest) ← readKeyParts bound cs
  let last ← parts.getLast?
  return ((parts.dropLast, last), rest)

end PlsqlAudit.Toml
