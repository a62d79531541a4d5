import PlsqlAudit.Grammar.Declaration
import PlsqlAudit.Grammar.Statement

/-!
# Programs

A program is a sequence of units: routines, packages, type bodies, triggers and
blocks, with commands of the command-line client and statements of SQL in
between, which are skipped.

`parse` reads a whole program.  Phrases nest no deeper than there are tokens,
since each reads one before it turns to those inside, so the rules for phrases
inside phrases are unrolled that often.
-/

namespace PlsqlAudit.Grammar

open PlsqlAudit.Parser

/-- The commands of the command-line client; they end with their line. -/
def clientCommands : List String :=
  ["set", "prompt", "spool", "whenever", "define", "undefine", "rem", "remark", "show", "column",
    "connect", "exec"]

/-- The words that may stand before a member of a type body. -/
def memberModifiers : List String :=
  ["member", "static", "map", "order", "final", "instantiable", "overriding", "not"]

/-- Skips to `IS` or `AS` and reads it. -/
def headerEnd : Parser Unit := do
  skipUntil (·.atAnyWord ["is", "as"])
  if (← get).atAnyWord ["is", "as"] then
    let _ ← bump
  else unexpected "IS or AS"

/-- The `END` of a package or type body. -/
def unitEnd : Parser Unit := do
  let _ ← expectWord "end"
  eatEndLabel
  let _ ← eat .semicolon

/-- A package or its body; the words that say so are read first. -/
def package (r : Rules) (kind : Kind) (start : Span) : Parser Node := do
  let _ ← bump
  if kind == .packageBody then
    let _ ← bump
  let name ← definingName
  headerEnd
  let declarations ← declareSection r
  let inner ← if (← get).atWord "begin" then pure [← body r] else do
    unitEnd
    pure []
  return .mk kind (start.cover (← lastSpan)) (name :: declarations :: inner)

/-- A member of a type body with the words before it. -/
def typeMember (r : Rules) : Parser Node := do
  let start ← ask (·.peek.span)
  let isConstructor ← loop (fun isConstructor => do
    if ← eatWord "constructor" then return some true
    else if (← get).atAnyWord memberModifiers then
      let _ ← bump
      return some isConstructor
    else return none) false
  let s ← get
  if isConstructor then routine r .constructor start
  else if s.atWord "procedure" then routine r .memberProcedure start
  else if s.atWord "function" then routine r .memberFunction start
  else unexpected "type body member"

/-- The body of an object type. -/
def typeBody (r : Rules) (start : Span) : Parser Node := do
  let _ ← bump
  let _ ← bump
  let name ← definingName
  headerEnd
  let members ← many (fun s => !s.atEnd && !s.atWord "end") (typeMember r)
  unitEnd
  return .mk .typeBody (start.cover (← lastSpan)) (name :: members)

/-- A trigger; the sections of a compound trigger are skipped. -/
def trigger (r : Rules) (start : Span) : Parser Node := do
  let _ ← bump
  let name ← definingName
  skipUntil fun s => s.atAnyWord ["declare", "begin", "compound"] || s.atTerminator
  let inner ← if (← get).atWord "compound" then do
      modify (·.advanceUntil Stream.atTerminator)
      pure []
    else if (← get).atAnyWord ["declare", "begin"] then pure [← block r]
    else pure []
  return .mk .trigger (start.cover (← lastSpan)) (name :: inner)

/-- A `CREATE` statement; one that creates no code is skipped. -/
def create (r : Rules) : Parser (Option Node) := do
  let start ← bump
  if ← eatWord "or" then
    let _ ← expectWord "replace"
  modify (·.advanceUntil fun s => !s.atAnyWord ["editionable", "noneditionable"])
  let s ← get
  if s.atWord "procedure" then return some (← routine r .createProcedure start.span)
  else if s.atWord "function" then return some (← routine r .createFunction start.span)
  else if s.atWord "package" then
    let kind := if s.atWordAt 1 "body" then Kind.packageBody else Kind.packageSpec
    return some (← package r kind start.span)
  else if s.atWord "type" && s.atWordAt 1 "body" then return some (← typeBody r start.span)
  else if s.atWord "trigger" then return some (← trigger r start.span)
  else
    modify Stream.skipStatement
    return none

/-- A unit of a program, or what stands between two units. -/
def programUnit (r : Rules) : Parser (Option Node) := do
  let s ← get
  if s.atKind .slash || s.atKind .semicolon then
    let _ ← bump
    return none
  else if s.atWord "create" then create r
  else if s.atAnyWord ["declare", "begin"] || s.atKind .labelOpen then return some (← block r)
  else if s.atAnyWord clientCommands || s.atKind .atSign then
    modify Stream.skipLine
    return none
  else
    modify Stream.skipStatement
    return none

/-- The rules for phrases inside phrases, unrolled to the given depth. -/
def rules : Nat → Rules
  | 0 =>
    { expression := throw .exhausted
      negation := throw .exhausted
      signed := throw .exhausted
      statement := throw .exhausted
      declaration := throw .exhausted }
  | depth + 1 =>
    { expression := fun s => expression (rules depth) s
      negation := fun s => negation (rules depth) s
      signed := fun s => signed (rules depth) s
      statement := fun s => statement (rules depth) s
      declaration := fun s => declaration (rules depth) s }

/-- The units of a program of at most `depth` tokens. -/
def program (depth : Nat) : Parser (List Node) := do
  let units ← many (fun s => !s.atEnd) (programUnit (rules (depth + 1)))
  return units.filterMap id

end PlsqlAudit.Grammar

namespace PlsqlAudit

/-- Reads a program. -/
def parse (source : String) : Except ParseError Tree := do
  let tokens ← tokenize source
  let (units, _) ← (Grammar.program tokens.tokens.length).run (Stream.start source tokens)
  return ⟨source, .mk .compilationUnit ⟨0, source.utf8ByteSize, 1, 1⟩ units⟩

end PlsqlAudit
