import PlsqlAudit.Token.Tokenize

/-!
# Reading a sequence of tokens

A `Stream` is a place in the tokens of a program: the last token that was read,
and those that are left.  Looking ahead past the end finds the token for the end
of the text, again and again, and that token is never read.

Much of a program is skipped rather than understood.  `skipUntil` goes to the
first token that satisfies a test outside parentheses, where the depth counts the
parentheses opened since the skip began and never falls below zero;
`advanceUntil` does the same without regard to parentheses.
-/

namespace PlsqlAudit

/-- A place in the tokens of a program. -/
structure Stream where
  /-- The text of the program. -/
  source : String
  /-- The token read last, if any was. -/
  last : Option Token
  /-- The tokens to be read, without the one for the end of the text. -/
  rest : List Token
  /-- The token for the end of the text. -/
  eof : Token
  deriving Repr, Inhabited

namespace Stream

/-- The stream before the first token. -/
def start (source : String) (tokens : TokenSequence) : Stream :=
  ⟨source, none, tokens.tokens, tokens.eof⟩

/-- The next token. -/
def peek (s : Stream) : Token := s.rest.headD s.eof

/-- The token after the next `n` ones. -/
def peekAt (s : Stream) (n : Nat) : Token := s.rest[n]?.getD s.eof

/-- True at the end of the text. -/
def atEnd (s : Stream) : Bool := s.rest.isEmpty

/-- The kind of the next token. -/
def kind (s : Stream) : TokenKind := s.peek.kind

/-- True when the next token has the given kind. -/
def atKind (s : Stream) (kind : TokenKind) : Bool := s.kind == kind

/-- True when the next token is the given word. -/
def atWord (s : Stream) (word : String) : Bool := s.peek.isWord word

/-- True when the token after the next `n` ones is the given word. -/
def atWordAt (s : Stream) (n : Nat) (word : String) : Bool := (s.peekAt n).isWord word

/-- True when the next token is one of the given words. -/
def atAnyWord (s : Stream) (words : List String) : Bool := s.peek.isAnyWord words

/-- True when the next token can be a name. -/
def atIdentifier (s : Stream) : Bool := s.kind.isIdentifier

/-- True at a slash that is the first token of its line: it ends a unit. -/
def atTerminator (s : Stream) : Bool :=
  s.atKind .slash && s.last.all fun last => last.span.line < s.peek.span.line

/-- The span of the token read last; before the first token, that of the next
one. -/
def lastSpan (s : Stream) : Span := (s.last.getD s.peek).span

/-- The stream after the next token. -/
def advance (s : Stream) : Stream :=
  match s.rest with
  | [] => s
  | t :: rest => { s with last := some t, rest := rest }

/-- The depth of parentheses after a token of the given kind. -/
def depthAfter (depth : Nat) : TokenKind → Nat
  | .lParen => depth + 1
  | .rParen => depth - 1
  | _ => depth

/-- Skips from a place at the given depth of parentheses. -/
def skipFrom (stop : Stream → Bool) (source : String) (eof : Token) (depth : Nat)
    (last : Option Token) : List Token → Stream
  | [] => ⟨source, last, [], eof⟩
  | t :: rest =>
    if depth == 0 && stop ⟨source, last, t :: rest, eof⟩ then ⟨source, last, t :: rest, eof⟩
    else skipFrom stop source eof (depthAfter depth t.kind) (some t) rest

/-- Skips to the first place outside parentheses where `stop` holds, or to the
end. -/
def skipUntil (stop : Stream → Bool) (s : Stream) : Stream :=
  skipFrom stop s.source s.eof 0 s.last s.rest

/-- Reads on from a place without regard to parentheses. -/
def advanceFrom (stop : Stream → Bool) (source : String) (eof : Token) (last : Option Token) :
    List Token → Stream
  | [] => ⟨source, last, [], eof⟩
  | t :: rest =>
    if stop ⟨source, last, t :: rest, eof⟩ then ⟨source, last, t :: rest, eof⟩
    else advanceFrom stop source eof (some t) rest

/-- Goes to the first place where `stop` holds, or to the end. -/
def advanceUntil (stop : Stream → Bool) (s : Stream) : Stream :=
  advanceFrom stop s.source s.eof s.last s.rest

/-- Skips past a semicolon outside parentheses. -/
def skipPastSemicolon (s : Stream) : Stream :=
  let stopped := s.skipUntil (·.atKind .semicolon)
  if stopped.atKind .semicolon then stopped.advance else stopped

/-- Skips the tokens on the line of the next token. -/
def skipLine (s : Stream) : Stream :=
  s.advanceUntil fun t => t.peek.span.line != s.peek.span.line

/-- Skips a statement of SQL from a place at the given depth of parentheses. -/
def skipStatementFrom (source : String) (eof : Token) (depth : Nat) (last : Option Token) :
    List Token → Stream
  | [] => ⟨source, last, [], eof⟩
  | t :: rest =>
    if depth == 0 && atTerminator ⟨source, last, t :: rest, eof⟩ then
      ⟨source, last, t :: rest, eof⟩
    else if depth == 0 && t.kind == .semicolon then ⟨source, some t, rest, eof⟩
    else skipStatementFrom source eof (depthAfter depth t.kind) (some t) rest

/-- Skips a statement of SQL that stands outside all routines: past a semicolon,
or up to a slash that ends the unit. -/
def skipStatement (s : Stream) : Stream :=
  skipStatementFrom s.source s.eof 0 s.last s.rest

/-- The error for the next token where something else was expected. -/
def unexpected (s : Stream) (expected : String) : ParseError :=
  if s.atEnd then .unexpectedEnd expected
  else .unexpected s.peek.span.line s.peek.span.column s.peek.text expected

end Stream

end PlsqlAudit
