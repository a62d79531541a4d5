import PlsqlAudit.Arena.Statement
import PlsqlAudit.Grammar.Program

/-!
# Building programs

`Arena.parse` reads a whole program into an arena.  The root is made before anything
is read, and the units are put below it.
-/

namespace PlsqlAudit.Build

open PlsqlAudit.Parser

open PlsqlAudit.Grammar (clientCommands memberModifiers headerEnd unitEnd)

/-- A package or its body; the words that say so are read first. -/
def package (r : Builders) (kind : Kind) (start : Span) (parent : NodeId) : Build Unit := do
  let node ← addChild parent kind start
  let _ ← read bump
  if kind == .packageBody then
    let _ ← read bump
  definingName node
  read headerEnd
  declareSection r node
  if (← read get).atWord "begin" then body r node else read unitEnd
  let last ← read lastSpan
  close node last

/-- A member of a type body with the words before it. -/
def typeMember (r : Builders) (parent : NodeId) : Build Unit := do
  let start ← read (ask (·.peek.span))
  let isConstructor ← read (loop (fun isConstructor => do
    if ← eatWord "constructor" then return some true
    else if (← get).atAnyWord memberModifiers then
      let _ ← bump
      return some isConstructor
    else return none) false)
  let s ← read get
  if isConstructor then routine r .constructor start parent
  else if s.atWord "procedure" then routine r .memberProcedure start parent
  else if s.atWord "function" then routine r .memberFunction start parent
  else read (unexpected "type body member")

/-- The body of an object type. -/
def typeBody (r : Builders) (start : Span) (parent : NodeId) : Build Unit := do
  let node ← addChild parent .typeBody start
  let _ ← read bump
  let _ ← read bump
  definingName node
  read headerEnd
  let _ ← each (fun s => !s.atEnd && !s.atWord "end") (typeMember r node)
  read unitEnd
  let last ← read lastSpan
  close node last

/-- A trigger; the sections of a compound trigger are skipped. -/
def trigger (r : Builders) (start : Span) (parent : NodeId) : Build Unit := do
  let node ← addChild parent .trigger start
  let _ ← read bump
  definingName node
  read (skipUntil fun s => s.atAnyWord ["declare", "begin", "compound"] || s.atTerminator)
  if (← read get).atWord "compound" then
    read (modify (·.advanceUntil Stream.atTerminator))
  else if (← read get).atAnyWord ["declare", "begin"] then
    block r node
  let last ← read lastSpan
  close node last

/-- A `CREATE` statement; one that creates no code is skipped. -/
def create (r : Builders) (parent : NodeId) : Build Unit := do
  let start ← read bump
  if ← read (eatWord "or") then
    let _ ← read (expectWord "replace")
  read (modify (·.advanceUntil fun s => !s.atAnyWord ["editionable", "noneditionable"]))
  let s ← read get
  if s.atWord "procedure" then routine r .createProcedure start.span parent
  else if s.atWord "function" then routine r .createFunction start.span parent
  else if s.atWord "package" then
    let kind := if s.atWordAt 1 "body" then Kind.packageBody else Kind.packageSpec
    package r kind start.span parent
  else if s.atWord "type" && s.atWordAt 1 "body" then typeBody r start.span parent
  else if s.atWord "trigger" then trigger r start.span parent
  else read (modify Stream.skipStatement)

/-- A unit of a program, or what stands between two units. -/
def programUnit (r : Builders) (parent : NodeId) : Build Unit := do
  let s ← read get
  if s.atKind .slash || s.atKind .semicolon then
    let _ ← read bump
  else if s.atWord "create" then create r parent
  else if s.atAnyWord ["declare", "begin"] || s.atKind .labelOpen then block r parent
  else if s.atAnyWord clientCommands || s.atKind .atSign then read (modify Stream.skipLine)
  else read (modify Stream.skipStatement)

/-- The readers for phrases inside phrases, unrolled to the given depth. -/
def builders : Nat → Builders
  | 0 =>
    { expression := read (throw .exhausted)
      negation := read (throw .exhausted)
      signed := read (throw .exhausted)
      statement := fun _ => read (throw .exhausted)
      declaration := fun _ => read (throw .exhausted) }
  | depth + 1 =>
    { expression := fun b s => expression (builders depth) b s
      negation := fun b s => negation (builders depth) b s
      signed := fun b s => signed (builders depth) b s
      statement := fun parent b s => statement (builders depth) parent b s
      declaration := fun parent b s => declaration (builders depth) parent b s }

/-- A program of at most `depth` tokens. -/
def program (source : String) (depth : Nat) : Build NodeId := do
  let root ← add .compilationUnit ⟨0, source.utf8ByteSize, 1, 1⟩
  let _ ← each (fun s => !s.atEnd) (programUnit (builders (depth + 1)) root)
  return root

end PlsqlAudit.Build

namespace PlsqlAudit

/-- Reads a program into an arena. -/
def Arena.parse (source : String) : Except ParseError Arena := do
  let tokens ← tokenize source
  let ((root, b), _) ← Build.program source tokens.tokens.length (Builder.empty source)
    (Stream.start source tokens)
  return b.finish root

end PlsqlAudit
