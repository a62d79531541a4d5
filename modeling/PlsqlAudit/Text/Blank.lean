/-!
# Blank characters

Blanks separate tokens and are dropped from the ends of names.  They are the
characters with the Unicode property `White_Space`; the zero-width space is not
one of them.  `trim` takes blanks off both ends of a text, and `trimEnds` and
`trimEndOf` do the same for one given character.
-/

namespace PlsqlAudit.Text

/-- True for characters with the Unicode property `White_Space`. -/
def isBlank (c : Char) : Bool :=
  let n := c.toNat
  if n < 128 then (9 ≤ n && n ≤ 13) || n == 32
  else n == 0x85 || n == 0xA0 || n == 0x1680 || (0x2000 ≤ n && n ≤ 0x200A) || n == 0x2028 ||
    n == 0x2029 || n == 0x202F || n == 0x205F || n == 0x3000

/-- Drops the characters at the end of `cs` that satisfy `p`. -/
def dropEndWhile (p : Char → Bool) (cs : List Char) : List Char :=
  (cs.reverse.dropWhile p).reverse

/-- Drops the characters at both ends of `cs` that satisfy `p`. -/
def dropEndsWhile (p : Char → Bool) (cs : List Char) : List Char :=
  dropEndWhile p (cs.dropWhile p)

/-- The text without blanks at its ends. -/
def trim (s : String) : String :=
  String.ofList (dropEndsWhile isBlank s.toList)

/-- The text without any `c` at its two ends. -/
def trimEnds (c : Char) (s : String) : String :=
  String.ofList (dropEndsWhile (· == c) s.toList)

/-- The text without any `c` at its end. -/
def trimEndOf (c : Char) (s : String) : String :=
  String.ofList (dropEndWhile (· == c) s.toList)

end PlsqlAudit.Text
