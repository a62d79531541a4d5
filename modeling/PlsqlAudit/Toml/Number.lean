import PlsqlAudit.Toml.Text
import PlsqlAudit.Toml.Value

/-!
# Numbers and dates of TOML

Integers have 64 bits with a sign.  Of fractions and dates only the form matters,
except that a positive fraction must not be too large for a double.
-/

namespace PlsqlAudit.Toml

/-- The value of decimal digits. -/
def decimal (digits : List Char) : Nat :=
  digits.foldl (fun n c => 10 * n + (c.toNat - 48)) 0

/-- Reads digits of which every two may be divided by an underscore; `done` holds
the digits read so far, last one first. -/
def readDigits (isDigit : Char → Bool) (done : List Char) : List Char → List Char × List Char
  | '_' :: c :: rest =>
    if isDigit c then readDigits isDigit (c :: done) rest else (done.reverse, '_' :: c :: rest)
  | c :: rest =>
    if isDigit c then readDigits isDigit (c :: done) rest else (done.reverse, c :: rest)
  | [] => (done.reverse, [])

/-- Reads at least one digit, with underscores between digits. -/
def readSomeDigits (isDigit : Char → Bool) : Reader (List Char)
  | [] => none
  | c :: rest => if isDigit c then some (readDigits isDigit [c] rest) else none

/-- Reads a sign, and tells whether it is a minus. -/
def readSign : List Char → Bool × List Char
  | '-' :: rest => (true, rest)
  | '+' :: rest => (false, rest)
  | cs => (false, cs)

/-- Reads whole digits, where a zero stands alone. -/
def readWhole : Reader (List Char)
  | '0' :: rest => some (['0'], rest)
  | cs => readSomeDigits Char.isDigit cs

/-- The least number that is too large for an integer. -/
def integerBound : Nat := 9223372036854775808

/-- Reads an integer in a base that its first two characters tell. -/
def readBased (base : Nat) (isDigit : Char → Bool) (cs : List Char) : Option (Value × List Char) := do
  let (digits, rest) ← readSomeDigits isDigit cs
  let value := digits.foldl (fun n c => base * n + (Text.hexValue? c).getD 0) 0
  if value < integerBound then some (.integer value, rest) else none

/-- Reads an integer. -/
def readInteger : Reader Value
  | '0' :: 'x' :: rest => readBased 16 (fun c => (Text.hexValue? c).isSome) rest
  | '0' :: 'o' :: rest => readBased 8 (fun c => '0' ≤ c && c ≤ '7') rest
  | '0' :: 'b' :: rest => readBased 2 (fun c => c == '0' || c == '1') rest
  | cs => do
    let (negative, rest) := readSign cs
    let (digits, rest) ← readWhole rest
    let value : Int := if negative then -(decimal digits : Int) else decimal digits
    if -integerBound ≤ value && value < integerBound then some (.integer value, rest) else none

/-- True when a decimal number is so large that the nearest double is infinite: the
digits `whole` and `part` around the point, times a power of ten. -/
def isInfinite (whole part : List Char) (exponent : Int) : Bool :=
  let digits := (whole ++ part).dropWhile (· == '0')
  let shift := exponent - part.length
  let size := (digits.length : Int) + shift
  let bound := Nat.pow 2 1024 - Nat.pow 2 970
  if digits.isEmpty || size < 300 then false
  else if 310 < size then true
  else if 0 ≤ shift then bound ≤ decimal digits * Nat.pow 10 shift.toNat
  else bound * Nat.pow 10 (-shift).toNat ≤ decimal digits

/-- Reads an exponent. -/
def readExponent : Reader Int
  | [] => none
  | e :: rest =>
    if e == 'e' || e == 'E' then do
      let (negative, rest) := readSign rest
      let (digits, rest) ← readSomeDigits Char.isDigit rest
      return (if negative then -(decimal digits : Int) else decimal digits, rest)
    else none

/-- Reads a number with a fraction, an exponent or both. -/
def readFraction (cs : List Char) : Option (Value × List Char) := do
  let (negative, rest) := readSign cs
  match rest with
  | 'i' :: 'n' :: 'f' :: rest => return (.fraction, rest)
  | 'n' :: 'a' :: 'n' :: rest => return (.fraction, rest)
  | _ => do
    let (whole, rest) ← readWhole rest
    let (part, exponent, rest) ←
      match rest with
      | '.' :: rest => do
        let (part, rest) ← readSomeDigits Char.isDigit rest
        match readExponent rest with
        | some (exponent, rest) => pure (part, exponent, rest)
        | none => pure (part, 0, rest)
      | _ => do
        let (exponent, rest) ← readExponent rest
        pure ([], exponent, rest)
    if !negative && isInfinite whole part exponent then none else some (.fraction, rest)

/-- Reads exactly `n` digits with a value between the bounds. -/
def readField (n low high : Nat) (cs : List Char) : Option (Nat × List Char) :=
  let digits := cs.take n
  let value := decimal digits
  if digits.length = n && digits.all Char.isDigit && low ≤ value && value ≤ high then
    some (value, cs.drop n)
  else none

/-- Reads the given character. -/
def readChar (c : Char) : List Char → Option (List Char)
  | x :: rest => if x = c then some rest else none
  | [] => none

/-- The number of days in a month. -/
def daysIn (year month : Nat) : Nat :=
  if month = 2 then
    if year % 4 = 0 && (year % 100 ≠ 0 || year % 400 = 0) then 29 else 28
  else if month = 4 || month = 6 || month = 9 || month = 11 then 30
  else 31

/-- Reads a day of the calendar. -/
def readDay (cs : List Char) : Option (List Char) := do
  let (year, rest) ← readField 4 0 9999 cs
  let (month, rest) ← readField 2 1 12 (← readChar '-' rest)
  let (day, rest) ← readField 2 1 31 (← readChar '-' rest)
  if day ≤ daysIn year month then some rest else none

/-- Reads a time of the day. -/
def readTime (cs : List Char) : Option (List Char) := do
  let (_, rest) ← readField 2 0 23 cs
  let (_, rest) ← readField 2 0 59 (← readChar ':' rest)
  let (_, rest) ← readField 2 0 60 (← readChar ':' rest)
  match rest with
  | '.' :: c :: after => if c.isDigit then return after.dropWhile Char.isDigit else return rest
  | _ => return rest

/-- Reads the distance from universal time. -/
def readOffset : List Char → Option (List Char)
  | [] => none
  | c :: rest =>
    if c == 'Z' || c == 'z' then some rest
    else if c == '+' || c == '-' then do
      let (_, rest) ← readField 2 0 23 rest
      let (_, rest) ← readField 2 0 59 (← readChar ':' rest)
      return rest
    else none

/-- Reads a date, a time, or both with or without a distance from universal
time. -/
def readDate (cs : List Char) : Option (Value × List Char) :=
  match readDay cs with
  | none => (readTime cs).map fun rest => (.date, rest)
  | some rest =>
    let time := match rest with
      | c :: after => if c == 'T' || c == 't' || c == ' ' then readTime after else none
      | [] => none
    match time with
    | none => some (.date, rest)
    | some rest => some (.date, (readOffset rest).getD rest)

/-- Reads a number or a date. -/
def readNumber (cs : List Char) : Option (Value × List Char) :=
  readDate cs <|> readFraction cs <|> readInteger cs

end PlsqlAudit.Toml
