import PlsqlAudit.Grammar.Body

/-!
# Statements

Assignments, calls, control structures, returns and the two statements that run
dynamic SQL are read in full.  Statements of SQL, cursor handling and jumps are
skipped up to their semicolon.
-/

namespace PlsqlAudit.Grammar

open PlsqlAudit.Parser

/-- The words that start a statement of SQL. -/
def sqlStatements : List String :=
  ["select", "insert", "update", "delete", "merge", "with", "commit", "rollback", "savepoint",
    "set", "lock"]

/-- The words that start another statement that is skipped. -/
def otherStatements : List String := ["fetch", "close", "exit", "continue", "goto", "pipe"]

/-- An assignment or a call of a procedure. -/
def simpleStatement (r : Rules) : Parser Node := do
  let start ← ask (·.peek.span)
  let target ← postfixed r
  let (kind, parts) ← if ← eat .assign then do
      let value ← r.expression
      pure (Kind.assignment, [target, value])
    else pure (Kind.callStatement, [target])
  let finish ← expect .semicolon ";"
  return .mk kind (start.cover finish.span) parts

/-- The condition of an `IF` or `ELSIF` and the statements under it. -/
def guarded (r : Rules) : Parser (List Node) := do
  let condition ← r.expression
  let _ ← expectWord "then"
  let list ← statements r ["elsif", "else", "end"]
  return condition :: list

/-- One further branch of an `IF`. -/
def ifBranch (r : Rules) : Parser (List Node) := do
  if ← eatWord "elsif" then guarded r
  else
    let _ ← eatWord "else"
    statements r ["end"]

/-- An `IF` statement. -/
def ifStatement (r : Rules) : Parser Node := do
  let start ← bump
  let first ← guarded r
  let others ← many (·.atAnyWord ["elsif", "else"]) (ifBranch r)
  let _ ← expectWord "end"
  let _ ← expectWord "if"
  let finish ← expect .semicolon ";"
  return .mk .ifStatement (start.span.cover finish.span) (first ++ others.flatten)

/-- One branch of a `CASE` statement: its choice and its statements. -/
def choiceBranch (r : Rules) : Parser (List Node) := do
  let _ ← bump
  let choice ← r.expression
  let _ ← expectWord "then"
  let list ← statements r ["when", "else", "end"]
  return choice :: list

/-- A `CASE` statement. -/
def caseStatement (r : Rules) : Parser Node := do
  let start ← bump
  let selector ← if (← get).atWord "when" then pure [] else pure [← r.expression]
  let branches ← many (·.atWord "when") (choiceBranch r)
  let otherwise ← if ← eatWord "else" then statements r ["end"] else pure []
  let _ ← expectWord "end"
  let _ ← expectWord "case"
  eatEndLabel
  let finish ← expect .semicolon ";"
  return .mk .caseStatement (start.span.cover finish.span)
    (selector ++ branches.flatten ++ otherwise)

/-- A loop; the range or query of a `FOR` is skipped. -/
def loopStatement (r : Rules) : Parser Node := do
  let start ← ask (·.peek.span)
  let condition ← if ← eatWord "while" then pure [← r.expression] else pure []
  if condition.isEmpty then
    if ← eatWord "for" then skipUntil (·.atWord "loop")
  let _ ← expectWord "loop"
  let list ← statements r ["end"]
  let _ ← expectWord "end"
  let _ ← expectWord "loop"
  eatEndLabel
  let finish ← expect .semicolon ";"
  return .mk .loopStatement (start.cover finish.span) (condition ++ list)

/-- A `FORALL` with the statement it repeats. -/
def forallStatement (r : Rules) : Parser Node := do
  let start ← bump
  skipUntil (·.atAnyWord ["insert", "update", "delete", "merge", "execute"])
  let inner ← r.statement
  return .mk .loopStatement (start.span.cover (← lastSpan)) inner.toList

/-- One bind argument with its mode. -/
def bindArgument (r : Rules) : Parser Node := do
  let _ ← eatWord "in"
  let _ ← eatWord "out"
  r.expression

/-- The bind arguments of a dynamic statement. -/
def usingClause (r : Rules) : Parser Node := do
  let start ← bump
  let binds ← separated (bindArgument r)
  return .mk .usingClause (start.span.cover (← lastSpan)) binds

/-- The variables that a dynamic statement fills. -/
def intoClause : Parser Node := do
  let start ← bump
  skipUntil fun s => s.atKind .semicolon || s.atAnyWord ["using", "returning", "return"]
  return .leaf .intoClause (start.span.cover (← lastSpan))

/-- A clause after the text of `EXECUTE IMMEDIATE`. -/
def executeClause (r : Rules) : Parser Node := do
  if (← get).atWord "using" then usingClause r else intoClause

/-- An `EXECUTE IMMEDIATE` statement. -/
def executeImmediate (r : Rules) : Parser Node := do
  let start ← bump
  let _ ← bump
  let sql ← r.expression
  let clauses ←
    many (·.atAnyWord ["into", "bulk", "returning", "return", "using"]) (executeClause r)
  let finish ← expect .semicolon ";"
  return .mk .executeImmediate (start.span.cover finish.span) (sql :: clauses)

/-- Drops the members of a dotted name in front of `tokens`. -/
def dropMembers : List Token → List Token
  | dot :: member :: rest =>
    if dot.kind == .dot && member.kind.isIdentifier then dropMembers rest
    else dot :: member :: rest
  | tokens => tokens

/-- True at an `OPEN` with the name of a cursor variable and `FOR`. -/
def atOpenFor (s : Stream) : Bool :=
  match s.rest with
  | _ :: cursor :: rest =>
    (cursor.kind.isIdentifier || cursor.kind == .bindVar) &&
      ((dropMembers rest).headD s.eof).isWord "for"
  | _ => false

/-- The query or expression that a cursor is opened for. -/
def openedQuery (r : Rules) : Parser Node := do
  let s ← get
  if atQuery s || (s.atKind .lParen && (s.atWordAt 1 "select" || s.atWordAt 1 "with")) then
    skipUntil fun s => s.atKind .semicolon || s.atWord "using"
    return .leaf .staticQuery (s.peek.span.cover (← lastSpan))
  else r.expression

/-- An `OPEN` statement; without `FOR` it is skipped. -/
def openStatement (r : Rules) : Parser Node := do
  if !atOpenFor (← get) then skipped .otherStatement
  else
    let start ← bump
    let cursor ← postfixed r
    let _ ← expectWord "for"
    let query ← openedQuery r
    let clause ← if (← get).atWord "using" then pure [← usingClause r] else pure []
    let finish ← expect .semicolon ";"
    return .mk .openFor (start.span.cover finish.span) (cursor :: query :: clause)

/-- A `RETURN` statement. -/
def returnStatement (r : Rules) : Parser Node := do
  let start ← bump
  let value ← if (← get).atKind .semicolon then pure [] else pure [← r.expression]
  let finish ← expect .semicolon ";"
  return .mk .returnStatement (start.span.cover finish.span) value

/-- A `NULL` statement. -/
def nullStatement : Parser Node := do
  let start ← bump
  let finish ← bump
  return .leaf .nullStatement (start.span.cover finish.span)

/-- A statement that starts with the word `word`. -/
def wordStatement (r : Rules) (word : String) (s : Stream) : Parser Node :=
  if word == "begin" || word == "declare" then block r
  else if word == "if" then ifStatement r
  else if word == "case" then caseStatement r
  else if word == "loop" || word == "while" || word == "for" then loopStatement r
  else if word == "forall" then forallStatement r
  else if word == "execute" && s.atWordAt 1 "immediate" then executeImmediate r
  else if word == "open" then openStatement r
  else if word == "return" then returnStatement r
  else if word == "raise" then skipped .raiseStatement
  else if word == "null" && (s.peekAt 1).kind == .semicolon then nullStatement
  else if sqlStatements.contains word then skipped .sqlStatement
  else if otherStatements.contains word then skipped .otherStatement
  else simpleStatement r

/-- A statement.  A label in front of anything but a block, and a semicolon that
stands alone, are read without leaving a node. -/
def statement (r : Rules) : Parser (Option Node) := do
  let s ← get
  match s.kind with
  | .labelOpen =>
    if s.atWordAt 3 "begin" || s.atWordAt 3 "declare" then return some (← block r)
    else
      label
      return none
  | .semicolon =>
    let _ ← bump
    return none
  | .word => return some (← wordStatement r s.peek.lowerText s)
  | _ => return some (← simpleStatement r)

end PlsqlAudit.Grammar
