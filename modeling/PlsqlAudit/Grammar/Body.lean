import PlsqlAudit.Grammar.Signature

/-!
# Bodies, blocks and routines

A body is what stands between `BEGIN` and `END`, with its exception handlers.  A
block is a body with declarations of its own; a routine is a signature with
declarations and a body, or a signature alone.
-/

namespace PlsqlAudit.Grammar

open PlsqlAudit.Parser

/-- A construct that is skipped up to its semicolon and leaves one node. -/
def skipped (kind : Kind) : Parser Node := do
  let start ← ask (·.peek.span)
  modify Stream.skipPastSemicolon
  return .leaf kind (start.cover (← lastSpan))

/-- Statements up to one of the words `stops`. -/
def statements (r : Rules) (stops : List String) : Parser (List Node) := do
  let found ← many (fun s => !s.atEnd && !s.atAnyWord stops) r.statement
  return found.filterMap id

/-- The declarations before a body.  Without any, the section is empty and stands
in front of the next token. -/
def declareSection (r : Rules) : Parser Node := do
  let start ← ask (·.peek.span)
  let declarations ←
    many (fun s => !s.atEnd && !s.atWord "begin" && !s.atWord "end") r.declaration
  let last ← lastSpan
  let span := start.collapse
  return .mk .declareSection (if declarations.isEmpty then span else span.cover last) declarations

/-- What is done about the exceptions named after one `WHEN`. -/
def exceptionHandler (r : Rules) : Parser Node := do
  let start ← bump
  skipUntil (·.atWord "then")
  let _ ← expectWord "then"
  let list ← statements r ["when", "end"]
  return .mk .exceptionHandler (start.span.cover (← lastSpan)) list

/-- A body.  Its span ends before the semicolon, which is read too. -/
def body (r : Rules) : Parser Node := do
  let start ← expectWord "begin"
  let list ← statements r ["exception", "end"]
  let handlers ← if ← eatWord "exception" then
      many (·.atWord "when") (exceptionHandler r)
    else pure []
  let _ ← expectWord "end"
  eatEndLabel
  let last ← lastSpan
  let _ ← eat .semicolon
  return .mk .body (start.span.cover last) (list ++ handlers)

/-- A label between double angle brackets. -/
def label : Parser Unit := do
  let _ ← bump
  let _ ← expectIdentifier "label"
  let _ ← expect .labelClose ">>"

/-- A block with its labels. -/
def block (r : Rules) : Parser Node := do
  let _ ← many (·.atKind .labelOpen) label
  let start ← ask (·.peek.span)
  let section_ ← if ← eatWord "declare" then pure [← declareSection r] else pure []
  let inner ← body r
  return .mk .anonymousBlock (start.cover (← lastSpan)) (section_ ++ [inner])

/-- A procedure or function, whose text began at `start`. -/
def routine (r : Rules) (kind : Kind) (start : Span) : Parser Node := do
  if !(← get).atAnyWord ["procedure", "function"] then unexpected "PROCEDURE or FUNCTION"
  else
    let _ ← bump
    let name ← definingName
    let list ← if (← get).atKind .lParen then parameters r else pure []
    let result ← if ← eatWord "return" then pure [← resultType] else pure []
    let signature := name :: list ++ result
    let finish (parts : List Node) : Parser Node := do
      return .mk kind (start.cover (← lastSpan)) (signature ++ parts)
    skipUntil fun s => s.atAnyWord ["is", "as"] || s.atKind .semicolon
    if ← eat .semicolon then finish []
    else if (← get).atAnyWord ["is", "as"] then
      let _ ← bump
      if (← get).atAnyWord ["language", "external"] then
        modify Stream.skipPastSemicolon
        finish []
      else
        let declarations ← declareSection r
        let inner ← body r
        finish [declarations, inner]
    else unexpected "IS or AS"

end PlsqlAudit.Grammar
