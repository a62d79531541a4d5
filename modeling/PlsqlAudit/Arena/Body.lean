import PlsqlAudit.Arena.Expression
import PlsqlAudit.Grammar.Body

/-!
# Building signatures, bodies and routines

What is no expression is attached as soon as it starts, with the span of its first
token; the span is stretched when its end has been read.  A parameter is one for
input until its mode is known.
-/

namespace PlsqlAudit.Build

open PlsqlAudit.Parser

open PlsqlAudit.Grammar (TypeContext atTypeEnd classifyType parameterMode label)

/-- A type. -/
def dataType (context : TypeContext) (parent : NodeId) : Build Unit := do
  let s ← read get
  if atTypeEnd context s then read (unexpected "data type")
  else
    read (skipUntil (atTypeEnd context))
    let last ← read lastSpan
    let span := s.peek.span.cover last
    let _ ← addChild parent (.dataType (classifyType (span.text s.source))) span

/-- The type that a function returns. -/
def resultType (parent : NodeId) : Build Unit := do
  let s ← read get
  if s.atWord "self" && s.atWordAt 1 "as" && s.atWordAt 2 "result" then
    let first ← read bump
    let _ ← read bump
    let last ← read bump
    let _ ← addChild parent (.dataType .userDefined) (first.span.cover last.span)
  else dataType .result parent

/-- A name that is being introduced, with the names it is qualified by. -/
def definingName (parent : NodeId) : Build Unit := do
  let first ← read (expectIdentifier "name")
  let span ← read (loop (fun span => do
    let s ← get
    if s.atKind .dot && (s.peekAt 1).kind.isIdentifier then
      let _ ← bump
      let next ← bump
      return some (span.cover next.span)
    else return none) first.span)
  let _ ← addChild parent .definingName span

/-- The value that a parameter or variable is given at first, if any. -/
def defaultValue (r : Builders) (parent : NodeId) : Build Unit := do
  if ← read (eat .assign) then under parent r.expression
  else if ← read (eatWord "default") then under parent r.expression
  else return ()

/-- A parameter. -/
def parameter (r : Builders) (parent : NodeId) : Build Unit := do
  let name ← read (expectIdentifier "parameter name")
  let node ← addChild parent (.parameter .input) name.span
  let _ ← addChild node .definingName name.span
  let mode ← read parameterMode
  let _ ← read (eatWord "nocopy")
  setKind node (.parameter mode)
  dataType .parameter node
  defaultValue r node
  let last ← read lastSpan
  close node last

/-- The parameters of a routine, in parentheses. -/
def parameters (r : Builders) (parent : NodeId) : Build Unit := do
  let _ ← read (expect .lParen "(")
  listed (parameter r parent)
  let _ ← read (expect .rParen ")")

/-- A construct that is skipped up to its semicolon and leaves one node. -/
def skipped (kind : Kind) (parent : NodeId) : Build Unit := do
  let start ← read (ask (·.peek.span))
  read (modify Stream.skipPastSemicolon)
  let node ← addChild parent kind start
  let last ← read lastSpan
  close node last

/-- Statements up to one of the words `stops`. -/
def statements (r : Builders) (stops : List String) (parent : NodeId) : Build Unit := do
  let _ ← each (fun s => !s.atEnd && !s.atAnyWord stops) (r.statement parent)

/-- The declarations before a body.  Without any, the section is empty and stands
in front of the next token. -/
def declareSection (r : Builders) (parent : NodeId) : Build Unit := do
  let start ← read (ask (·.peek.span))
  let node ← addChild parent .declareSection start.collapse
  let any ← each (fun s => !s.atEnd && !s.atWord "begin" && !s.atWord "end") (r.declaration node)
  let last ← read lastSpan
  if any then close node last

/-- What is done about the exceptions named after one `WHEN`. -/
def exceptionHandler (r : Builders) (parent : NodeId) : Build Unit := do
  let start ← read bump
  let node ← addChild parent .exceptionHandler start.span
  read (skipUntil (·.atWord "then"))
  let _ ← read (expectWord "then")
  statements r ["when", "end"] node
  let last ← read lastSpan
  close node last

/-- A body.  Its span ends before the semicolon, which is read too. -/
def body (r : Builders) (parent : NodeId) : Build Unit := do
  let start ← read (expectWord "begin")
  let node ← addChild parent .body start.span
  statements r ["exception", "end"] node
  if ← read (eatWord "exception") then
    let _ ← each (·.atWord "when") (exceptionHandler r node)
  let _ ← read (expectWord "end")
  read eatEndLabel
  let last ← read lastSpan
  close node last
  let _ ← read (eat .semicolon)

/-- A block with its labels. -/
def block (r : Builders) (parent : NodeId) : Build Unit := do
  let _ ← read (many (·.atKind .labelOpen) label)
  let start ← read (ask (·.peek.span))
  let node ← addChild parent .anonymousBlock start
  if ← read (eatWord "declare") then
    declareSection r node
  body r node
  let last ← read lastSpan
  close node last

/-- A procedure or function, whose text began at `start`. -/
def routine (r : Builders) (kind : Kind) (start : Span) (parent : NodeId) : Build Unit := do
  let node ← addChild parent kind start
  let finish : Build Unit := do
    let last ← read lastSpan
    close node last
  if !(← read get).atAnyWord ["procedure", "function"] then
    read (unexpected "PROCEDURE or FUNCTION")
  else
    let _ ← read bump
    definingName node
    if (← read get).atKind .lParen then
      parameters r node
    if ← read (eatWord "return") then
      resultType node
    read (skipUntil fun s => s.atAnyWord ["is", "as"] || s.atKind .semicolon)
    if ← read (eat .semicolon) then finish
    else if (← read get).atAnyWord ["is", "as"] then
      let _ ← read bump
      if (← read get).atAnyWord ["language", "external"] then
        read (modify Stream.skipPastSemicolon)
        finish
      else
        declareSection r node
        body r node
        finish
    else read (unexpected "IS or AS")

end PlsqlAudit.Build
