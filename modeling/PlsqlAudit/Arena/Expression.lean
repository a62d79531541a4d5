import PlsqlAudit.Arena.Reader
import PlsqlAudit.Grammar.Expression

/-!
# Building expressions

An expression is built detached, and what stands inside it comes first: an operand
is there before it is known whether an operator follows it.  Calls, lists in
parentheses and `CASE` expressions are made when they start; their parts are
attached as they are read.
-/

namespace PlsqlAudit.Build

open PlsqlAudit.Parser

open PlsqlAudit.Grammar (intervalWords atQuery sign? power? multiplicative? additive? comparison?
  atNegatedComparison and? or?)

/-- The node of an operator between two operands. -/
def binary (op : BinaryOp) (lhs rhs : NodeId) : Build NodeId := do
  let left ← spanOf lhs
  let right ← spanOf rhs
  gather (.binary op) (left.cover right) [lhs, rhs]

/-- The node of an operator on one operand, written from `start` on. -/
def unary (op : UnaryOp) (start : Span) (operand : NodeId) : Build NodeId := do
  let inner ← spanOf operand
  gather (.unary op) (start.cover inner) [operand]

/-- Operands of one level with operators between them, grouped from the left. -/
def chain (operand : Build NodeId) (operator? : Stream → Option BinaryOp) : Build NodeId := do
  let first ← operand
  repeatedly (fun lhs => do
    match operator? (← read get) with
    | none => return none
    | some op =>
      let _ ← read bump
      let rhs ← operand
      let node ← binary op lhs rhs
      return some node) first

/-- A literal of a date or interval: a word, a text, and perhaps its fields. -/
def datedLiteral : Build NodeId := do
  let word ← read bump
  let value ← read bump
  read (modify (·.advanceUntil fun s => !s.atAnyWord intervalWords))
  let last ← read lastSpan
  add .literal ((word.span.cover value.span).cover last)

/-- A list in parentheses, or a subquery. -/
def parenthesized (r : Builders) : Build NodeId := do
  let opening ← read bump
  if atQuery (← read get) then
    read (skipUntil (·.atKind .rParen))
    let closing ← read (expect .rParen ")")
    add .staticQuery (opening.span.cover closing.span)
  else
    let node ← add .parenthesized opening.span
    listed (under node r.expression)
    let closing ← read (expect .rParen ")")
    close node closing.span
    return node

/-- One branch of a `CASE` expression: its choice and its result. -/
def caseBranch (r : Builders) (node : NodeId) : Build Unit := do
  let _ ← read bump
  under node r.expression
  let _ ← read (expectWord "then")
  under node r.expression

/-- A `CASE` expression. -/
def caseExpression (r : Builders) : Build NodeId := do
  let start ← read bump
  let node ← add .caseExpression start.span
  unless (← read get).atWord "when" do
    under node r.expression
  let _ ← each (·.atWord "when") (caseBranch r node)
  if ← read (eatWord "else") then
    under node r.expression
  let finish ← read (expectWord "end")
  close node finish.span
  return node

/-- An expression without operators: a literal, a name, or one in parentheses. -/
def primary (r : Builders) : Build NodeId := do
  let s ← read get
  let token := s.peek
  let leaf (kind : Kind) : Build NodeId := do
    let _ ← read bump
    add kind token.span
  match token.kind with
  | .string => leaf .stringLiteral
  | .number => leaf .numberLiteral
  | .bindVar => leaf .bindVariable
  | .quotedIdent => leaf .name
  | .lParen => parenthesized r
  | .word =>
    if token.isAnyWord ["null", "true", "false"] then leaf .literal
    else if token.isWord "case" then caseExpression r
    else if token.isAnyWord ["date", "timestamp", "interval"] && (s.peekAt 1).kind == .string then
      datedLiteral
    else if token.isWord "new" && (s.peekAt 1).kind.isIdentifier then
      let _ ← read bump
      let name ← read bump
      add .name name.span
    else leaf .name
  | _ => read (unexpected "expression")

/-- One argument of the call `node`, with its label if it has one. -/
def argument (r : Builders) (node : NodeId) : Build Unit := do
  let s ← read get
  let part ← addChild node .argument s.peek.span
  if s.atIdentifier && (s.peekAt 1).kind == .arrow then
    let name ← read bump
    let _ ← read bump
    let _ ← addChild part .name name.span
  let _ ← read (eatWord "distinct")
  if (← read get).atKind .star then
    let star ← read bump
    let _ ← addChild part .literal star.span
  else under part r.expression
  read (skipUntil fun s => s.atKind .comma || s.atKind .rParen)
  let last ← read lastSpan
  close part last

/-- The arguments of a call of `callee`. -/
def call (r : Builders) (callee : NodeId) : Build NodeId := do
  let _ ← read bump
  let start ← spanOf callee
  let node ← gather .call start [callee]
  unless ← read (eat .rParen) do
    listed (argument r node)
    let _ ← read (expect .rParen ")")
  let last ← read lastSpan
  close node last
  return node

/-- What can follow an expression and bind to it: a member, an attribute, a
database link (which only stretches the expression) or arguments. -/
def suffix (r : Builders) (expr : NodeId) : Build (Option NodeId) := do
  let s ← read get
  let next := (s.peekAt 1).kind
  match s.kind with
  | .dot =>
    if next.isIdentifier then
      let _ ← read bump
      let member ← read bump
      let name ← add .name member.span
      let start ← spanOf expr
      let node ← gather .memberAccess (start.cover member.span) [expr, name]
      return some node
    else return none
  | .percent =>
    if next == .word then
      let _ ← read bump
      let name ← read bump
      let start ← spanOf expr
      let node ← gather .attribute (start.cover name.span) [expr]
      return some node
    else return none
  | .atSign =>
    if next == .word then
      let _ ← read bump
      let link ← read bump
      let start ← spanOf expr
      close expr (start.cover link.span)
      return some expr
    else return none
  | .lParen =>
    let node ← call r expr
    return some node
  | _ => return none

/-- A primary expression with what follows it. -/
def postfixed (r : Builders) : Build NodeId := do
  let expr ← primary r
  repeatedly (suffix r) expr

/-- An expression with signs in front. -/
def signed (r : Builders) : Build NodeId := do
  match sign? (← read get) with
  | some op =>
    let start ← read bump
    let operand ← r.signed
    unary op start.span operand
  | none => postfixed r

/-- An expression of the additive level. -/
def additive (r : Builders) : Build NodeId :=
  chain (chain (chain (signed r) power?) multiplicative?) additive?

/-- The right side of a comparison of `lhs`, after its operator. -/
def comparisonOf (r : Builders) (op : BinaryOp) (lhs : NodeId) : Build NodeId := do
  match op with
  | .between =>
    let low ← additive r
    let _ ← read (expectWord "and")
    let high ← additive r
    let left ← spanOf lhs
    let right ← spanOf high
    gather (.binary .between) (left.cover right) [lhs, low, high]
  | .member =>
    let list ← primary r
    binary .member lhs list
  | .like =>
    let pattern ← additive r
    let node ← binary .like lhs pattern
    if ← read (eatWord "escape") then
      let escape ← additive r
      attach node escape
      let last ← spanOf escape
      close node last
      return node
    else return node
  | op =>
    let rhs ← additive r
    binary op lhs rhs

/-- `IS NULL` or `IS NOT NULL` after `operand`. -/
def nullTest (operand : NodeId) : Build NodeId := do
  let _ ← read bump
  let negated ← read (eatWord "not")
  let null ← read (expectWord "null")
  let start ← spanOf operand
  gather (.unary (if negated then .isNotNull else .isNull)) (start.cover null.span) [operand]

/-- A comparison, or an expression of the additive level. -/
def comparison (r : Builders) : Build NodeId := do
  let lhs ← additive r
  let start ← spanOf lhs
  if (← read get).atWord "is" then nullTest lhs
  else
    let negated := atNegatedComparison (← read get)
    if negated then
      let _ ← read bump
    match comparison? (← read get) with
    | none => return lhs
    | some op =>
      let _ ← read bump
      let node ← comparisonOf r op lhs
      if negated then unary .not start node else return node

/-- An expression with `NOT` in front, or a comparison. -/
def negation (r : Builders) : Build NodeId := do
  if (← read get).atWord "not" then
    let start ← read bump
    let operand ← r.negation
    unary .not start.span operand
  else comparison r

/-- An expression. -/
def expression (r : Builders) : Build NodeId :=
  chain (chain (negation r) and?) or?

end PlsqlAudit.Build
