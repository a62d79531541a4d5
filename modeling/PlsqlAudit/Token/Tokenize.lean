import PlsqlAudit.Source.ParseError

/-!
# The tokens of a text

`lexemes` cuts a whole text into lexemes.  `tokenize` keeps those that are tokens
and gives each its span, which it finds by running a `Position` over all lexemes,
blanks and comments included.  The sequence it returns keeps the token for the
end of the text apart from the others, since there is always exactly one.
-/

namespace PlsqlAudit

namespace Lexeme

/-- Cuts the rest `cs` of a text, of which the lexemes `done` were already read,
last one first.  The second component says what was not closed, if anything. -/
def lexemesFrom (done : List Lexeme) (cs : List Char) : List Lexeme × Option Unclosed :=
  match cs with
  | [] => (done.reverse, none)
  | c :: rest =>
    match _h : scan c rest with
    | .error what => (done.reverse, some what)
    | .ok (lexeme, after) => lexemesFrom (lexeme :: done) after
termination_by cs.length
decreasing_by exact scan_length_lt _h

/-- The lexemes of a text, up to a construct that is not closed. -/
def lexemes (cs : List Char) : List Lexeme × Option Unclosed := lexemesFrom [] cs

end Lexeme

/-- The tokens of a text. -/
structure TokenSequence where
  /-- The tokens before the end of the text. -/
  tokens : List Token
  /-- The token of length zero that stands for the end of the text. -/
  eof : Token
  deriving DecidableEq, Repr, Inhabited

namespace TokenSequence

/-- All tokens, the last of them for the end of the text. -/
def toList (s : TokenSequence) : List Token := s.tokens ++ [s.eof]

/-- Steps over one lexeme: moves the position behind it, and puts it in front of
the tokens met so far if it is one. -/
def step (state : Position × List Token) (lexeme : Lexeme) : Position × List Token :=
  let next := state.1.after lexeme.text
  match lexeme.kind with
  | .token kind =>
    (next, ⟨kind, String.ofList lexeme.text, Span.between state.1 next⟩ :: state.2)
  | _ => (next, state.2)

end TokenSequence

/-- The tokens of a program text. -/
def tokenize (source : String) : Except ParseError TokenSequence :=
  let (lexemes, unclosed) := Lexeme.lexemes source.toList
  let (finish, reversed) := lexemes.foldl TokenSequence.step (Position.start, [])
  match unclosed with
  | some what => .error (.unterminated finish.line finish.column what)
  | none => .ok ⟨reversed.reverse, ⟨.eof, "", Span.between finish finish⟩⟩

end PlsqlAudit
