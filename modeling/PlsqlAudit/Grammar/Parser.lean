import PlsqlAudit.Grammar.Stream

/-!
# Parsers

A parser reads some tokens off a stream and answers with what they spell, or
fails with the reason.  There is no going back: a parser decides by looking ahead.

Repetition is `loop`, which runs a step until it answers `none`.  Each step that
goes on reads a token, so a loop cannot run more often than tokens are left; the
bound is there to make this plain, and is never met.
-/

namespace PlsqlAudit

/-- A reader of tokens. -/
abbrev Parser := StateT Stream (Except ParseError)

namespace Parser

/-- Asks something about the place in the stream. -/
def ask {α : Type} (question : Stream → α) : Parser α := do
  return question (← get)

/-- Reads the next token, whatever it is. -/
def bump : Parser Token := do
  let s ← get
  set s.advance
  return s.peek

/-- Fails because something else was expected. -/
def unexpected {α : Type} (expected : String) : Parser α := do
  throw ((← get).unexpected expected)

/-- Reads the next token if it has the given kind. -/
def eat (kind : TokenKind) : Parser Bool := do
  if (← get).atKind kind then
    let _ ← bump
    return true
  else return false

/-- Reads the next token if it is the given word. -/
def eatWord (word : String) : Parser Bool := do
  if (← get).atWord word then
    let _ ← bump
    return true
  else return false

/-- Reads a token of the given kind, and fails on any other. -/
def expect (kind : TokenKind) (expected : String) : Parser Token := do
  if (← get).atKind kind then bump else unexpected expected

/-- Reads the given word, and fails on any other token. -/
def expectWord (word : String) : Parser Token := do
  if (← get).atWord word then bump else unexpected (word.map Char.toUpper)

/-- Reads a name, and fails on any other token. -/
def expectIdentifier (expected : String) : Parser Token := do
  if (← get).atIdentifier then bump else unexpected expected

/-- Skips to a place outside parentheses where `stop` holds. -/
def skipUntil (stop : Stream → Bool) : Parser Unit := modify (·.skipUntil stop)

/-- The span of the token read last. -/
def lastSpan : Parser Span := ask Stream.lastSpan

/-- Runs `step` on its own answers until it answers `none`, at most once for each
of the tokens in `bound`. -/
def iterate {β : Type} (step : β → Parser (Option β)) : List Token → β → Parser β
  | [], _ => throw .exhausted
  | _ :: bound, b => do
    match ← step b with
    | some next => iterate step bound next
    | none => return b

/-- Runs `step` on its own answers until it answers `none`. -/
def loop {β : Type} (step : β → Parser (Option β)) (first : β) : Parser β := do
  let s ← get
  iterate step (s.eof :: s.rest) first

/-- Runs `item` as long as `more` holds, and lists its answers. -/
def many {α : Type} (more : Stream → Bool) (item : Parser α) : Parser (List α) := do
  let reversed ← loop (fun items => do
    if more (← get) then return some ((← item) :: items) else return none) []
  return reversed.reverse

/-- Reads one or more items with commas between them. -/
def separated {α : Type} (item : Parser α) : Parser (List α) := do
  let first ← item
  let reversed ← loop (fun items => do
    if ← eat .comma then return some ((← item) :: items) else return none) [first]
  return reversed.reverse

/-- Reads the name of a unit or a label after `END`, where a semicolon follows
it. -/
def eatEndLabel : Parser Unit := do
  let s ← get
  if s.atIdentifier && (s.peekAt 1).kind == .semicolon then
    let _ ← bump

end Parser

end PlsqlAudit
