import PlsqlAudit.Source.Span

/-!
# Tokens

A token is a piece of program text with its kind and its place.  Most words of
the language are not reserved, so keywords have no kind of their own: a keyword
is a word that the grammar compares with a spelling, without regard to the case
of ASCII letters (`Token.isWord`).
-/

namespace PlsqlAudit

/-- What a token is. -/
inductive TokenKind where
  /-- An identifier or keyword without quotes. -/
  | word
  /-- An identifier in double quotes. -/
  | quotedIdent
  /-- A string literal in any of its forms. -/
  | string
  | number
  /-- A colon with the name of a bind variable. -/
  | bindVar
  | assign
  | arrow
  | concat
  | dotDot
  | ltEq
  | gtEq
  | notEq
  | power
  | labelOpen
  | labelClose
  | lParen
  | rParen
  | comma
  | semicolon
  | dot
  | plus
  | minus
  | star
  | slash
  | eq
  | lt
  | gt
  | percent
  | atSign
  | colon
  /-- Any other character. -/
  | other
  /-- The end of the text. -/
  | eof
  deriving DecidableEq, Repr, Inhabited

/-- The words an expression or declaration can be named with. -/
def TokenKind.isIdentifier : TokenKind → Bool
  | .word | .quotedIdent => true
  | _ => false

/-- A piece of program text. -/
structure Token where
  kind : TokenKind
  text : String
  span : Span
  deriving DecidableEq, Repr, Inhabited

namespace Token

/-- The text of a word with its ASCII letters lowered. -/
def lowerText (t : Token) : String := t.text.map Char.toLower

/-- True for an unquoted word that is spelled `word`, in any mix of capitals and
small letters; `word` is given in small letters. -/
def isWord (t : Token) (word : String) : Bool :=
  t.kind == .word && t.lowerText == word

/-- True for an unquoted word that is one of `words`. -/
def isAnyWord (t : Token) (words : List String) : Bool :=
  t.kind == .word && words.contains t.lowerText

end Token

end PlsqlAudit
