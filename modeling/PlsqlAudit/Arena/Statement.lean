import PlsqlAudit.Arena.Body
import PlsqlAudit.Grammar.Declaration
import PlsqlAudit.Grammar.Statement

/-!
# Building declarations and statements

An assignment or a call is only known as such when its target has been read, so the
target and the value of an assignment are there before the statement is.  A variable
turns into a constant when the word is met.
-/

namespace PlsqlAudit.Build

open PlsqlAudit.Parser

open PlsqlAudit.Grammar (atQuery atOpenFor sqlStatements otherStatements label)

/-- A variable or constant. -/
def variableDeclaration (r : Builders) (parent : NodeId) : Build Unit := do
  let name ← read bump
  let node ← addChild parent .variableDeclaration name.span
  let _ ← addChild node .definingName name.span
  if ← read (eatWord "constant") then
    setKind node .constantDeclaration
  dataType .declaration node
  if ← read (eatWord "not") then
    let _ ← read (expectWord "null")
  defaultValue r node
  let finish ← read (expect .semicolon ";")
  close node finish.span

/-- A declaration. -/
def declaration (r : Builders) (parent : NodeId) : Build Unit := do
  let s ← read get
  if s.atWord "procedure" then routine r .procedureDefinition s.peek.span parent
  else if s.atWord "function" then routine r .functionDefinition s.peek.span parent
  else if s.atAnyWord ["type", "subtype", "cursor", "pragma"] ||
      (s.atIdentifier && s.atWordAt 1 "exception") then skipped .otherDeclaration parent
  else if s.atIdentifier then variableDeclaration r parent
  else read (unexpected "declaration")

/-- An assignment or a call of a procedure. -/
def simpleStatement (r : Builders) (parent : NodeId) : Build Unit := do
  let start ← read (ask (·.peek.span))
  let target ← postfixed r
  let node ← if ← read (eat .assign) then do
      let value ← r.expression
      let node ← addChild parent .assignment start
      attachAll node [target, value]
      pure node
    else do
      let node ← addChild parent .callStatement start
      attachAll node [target]
      pure node
  let finish ← read (expect .semicolon ";")
  close node finish.span

/-- The condition of an `IF` or `ELSIF` and the statements under it. -/
def guarded (r : Builders) (node : NodeId) : Build Unit := do
  under node r.expression
  let _ ← read (expectWord "then")
  statements r ["elsif", "else", "end"] node

/-- One further branch of an `IF`. -/
def ifBranch (r : Builders) (node : NodeId) : Build Unit := do
  if ← read (eatWord "elsif") then guarded r node
  else
    let _ ← read (eatWord "else")
    statements r ["end"] node

/-- An `IF` statement. -/
def ifStatement (r : Builders) (parent : NodeId) : Build Unit := do
  let start ← read bump
  let node ← addChild parent .ifStatement start.span
  guarded r node
  let _ ← each (·.atAnyWord ["elsif", "else"]) (ifBranch r node)
  let _ ← read (expectWord "end")
  let _ ← read (expectWord "if")
  let finish ← read (expect .semicolon ";")
  close node finish.span

/-- One branch of a `CASE` statement: its choice and its statements. -/
def choiceBranch (r : Builders) (node : NodeId) : Build Unit := do
  let _ ← read bump
  under node r.expression
  let _ ← read (expectWord "then")
  statements r ["when", "else", "end"] node

/-- A `CASE` statement. -/
def caseStatement (r : Builders) (parent : NodeId) : Build Unit := do
  let start ← read bump
  let node ← addChild parent .caseStatement start.span
  unless (← read get).atWord "when" do
    under node r.expression
  let _ ← each (·.atWord "when") (choiceBranch r node)
  if ← read (eatWord "else") then
    statements r ["end"] node
  let _ ← read (expectWord "end")
  let _ ← read (expectWord "case")
  read eatEndLabel
  let finish ← read (expect .semicolon ";")
  close node finish.span

/-- A loop; the range or query of a `FOR` is skipped. -/
def loopStatement (r : Builders) (parent : NodeId) : Build Unit := do
  let start ← read (ask (·.peek.span))
  let node ← addChild parent .loopStatement start
  if ← read (eatWord "while") then
    under node r.expression
  else if ← read (eatWord "for") then
    read (skipUntil (·.atWord "loop"))
  let _ ← read (expectWord "loop")
  statements r ["end"] node
  let _ ← read (expectWord "end")
  let _ ← read (expectWord "loop")
  read eatEndLabel
  let finish ← read (expect .semicolon ";")
  close node finish.span

/-- A `FORALL` with the statement it repeats. -/
def forallStatement (r : Builders) (parent : NodeId) : Build Unit := do
  let start ← read bump
  let node ← addChild parent .loopStatement start.span
  read (skipUntil (·.atAnyWord ["insert", "update", "delete", "merge", "execute"]))
  r.statement node
  let last ← read lastSpan
  close node last

/-- One bind argument with its mode. -/
def bindArgument (r : Builders) (node : NodeId) : Build Unit := do
  let _ ← read (eatWord "in")
  let _ ← read (eatWord "out")
  under node r.expression

/-- The bind arguments of a dynamic statement. -/
def usingClause (r : Builders) (parent : NodeId) : Build Unit := do
  let start ← read bump
  let node ← addChild parent .usingClause start.span
  listed (bindArgument r node)
  let last ← read lastSpan
  close node last

/-- The variables that a dynamic statement fills. -/
def intoClause (parent : NodeId) : Build Unit := do
  let start ← read bump
  let node ← addChild parent .intoClause start.span
  read (skipUntil fun s => s.atKind .semicolon || s.atAnyWord ["using", "returning", "return"])
  let last ← read lastSpan
  close node last

/-- A clause after the text of `EXECUTE IMMEDIATE`. -/
def executeClause (r : Builders) (node : NodeId) : Build Unit := do
  if (← read get).atWord "using" then usingClause r node else intoClause node

/-- An `EXECUTE IMMEDIATE` statement. -/
def executeImmediate (r : Builders) (parent : NodeId) : Build Unit := do
  let start ← read bump
  let _ ← read bump
  let node ← addChild parent .executeImmediate start.span
  under node r.expression
  let _ ← each (·.atAnyWord ["into", "bulk", "returning", "return", "using"])
    (executeClause r node)
  let finish ← read (expect .semicolon ";")
  close node finish.span

/-- The query or expression that a cursor is opened for. -/
def openedQuery (r : Builders) (node : NodeId) : Build Unit := do
  let s ← read get
  if atQuery s || (s.atKind .lParen && (s.atWordAt 1 "select" || s.atWordAt 1 "with")) then
    read (skipUntil fun s => s.atKind .semicolon || s.atWord "using")
    let query ← addChild node .staticQuery s.peek.span
    let last ← read lastSpan
    close query last
  else under node r.expression

/-- An `OPEN` statement; without `FOR` it is skipped. -/
def openStatement (r : Builders) (parent : NodeId) : Build Unit := do
  if !atOpenFor (← read get) then skipped .otherStatement parent
  else
    let start ← read bump
    let node ← addChild parent .openFor start.span
    under node (postfixed r)
    let _ ← read (expectWord "for")
    openedQuery r node
    if (← read get).atWord "using" then
      usingClause r node
    let finish ← read (expect .semicolon ";")
    close node finish.span

/-- A `RETURN` statement. -/
def returnStatement (r : Builders) (parent : NodeId) : Build Unit := do
  let start ← read bump
  let node ← addChild parent .returnStatement start.span
  unless (← read get).atKind .semicolon do
    under node r.expression
  let finish ← read (expect .semicolon ";")
  close node finish.span

/-- A `NULL` statement. -/
def nullStatement (parent : NodeId) : Build Unit := do
  let start ← read bump
  let node ← addChild parent .nullStatement start.span
  let finish ← read bump
  close node finish.span

/-- A statement that starts with the word `word`. -/
def wordStatement (r : Builders) (word : String) (s : Stream) (parent : NodeId) : Build Unit :=
  if word == "begin" || word == "declare" then block r parent
  else if word == "if" then ifStatement r parent
  else if word == "case" then caseStatement r parent
  else if word == "loop" || word == "while" || word == "for" then loopStatement r parent
  else if word == "forall" then forallStatement r parent
  else if word == "execute" && s.atWordAt 1 "immediate" then executeImmediate r parent
  else if word == "open" then openStatement r parent
  else if word == "return" then returnStatement r parent
  else if word == "raise" then skipped .raiseStatement parent
  else if word == "null" && (s.peekAt 1).kind == .semicolon then nullStatement parent
  else if sqlStatements.contains word then skipped .sqlStatement parent
  else if otherStatements.contains word then skipped .otherStatement parent
  else simpleStatement r parent

/-- A statement.  A label in front of anything but a block, and a semicolon that
stands alone, are read without leaving a node. -/
def statement (r : Builders) (parent : NodeId) : Build Unit := do
  let s ← read get
  match s.kind with
  | .labelOpen =>
    if s.atWordAt 3 "begin" || s.atWordAt 3 "declare" then block r parent
    else read label
  | .semicolon =>
    let _ ← read bump
  | .word => wordStatement r s.peek.lowerText s parent
  | _ => simpleStatement r parent

end PlsqlAudit.Build
