import PlsqlAudit.Grammar.Rules

/-!
# Expressions

Operators bind in levels, loosest first: `OR`, `AND`, `NOT`, the comparisons, the
additive operators, the multiplicative ones, power, the signs, and what follows a
primary expression (members, attributes, links and arguments).  Levels of two
operands associate to the left, power included, and comparisons do not associate
at all.

A subquery in parentheses is skipped, and so is what follows a value inside an
argument, as in `CAST(x AS t)`.
-/

namespace PlsqlAudit.Grammar

open PlsqlAudit.Parser

/-- The node of an operator between two operands. -/
def binary (op : BinaryOp) (lhs rhs : Node) : Node :=
  .mk (.binary op) (lhs.span.cover rhs.span) [lhs, rhs]

/-- The node of an operator on one operand, written from `start` on. -/
def unary (op : UnaryOp) (start : Span) (operand : Node) : Node :=
  .mk (.unary op) (start.cover operand.span) [operand]

/-- Operands of one level with operators between them, grouped from the left. -/
def chain (operand : Parser Node) (operator? : Stream → Option BinaryOp) : Parser Node := do
  let first ← operand
  loop (fun lhs => do
    match operator? (← get) with
    | none => return none
    | some op =>
      let _ ← bump
      let rhs ← operand
      return some (binary op lhs rhs)) first

/-- The words that may follow the text of an interval. -/
def intervalWords : List String := ["year", "month", "day", "hour", "minute", "second", "to"]

/-- True at the word that starts a query. -/
def atQuery (s : Stream) : Bool := s.atWord "select" || s.atWord "with"

/-- A literal of a date or interval: a word, a text, and perhaps its fields. -/
def datedLiteral : Parser Node := do
  let word ← bump
  let value ← bump
  modify (·.advanceUntil fun s => !s.atAnyWord intervalWords)
  return .leaf .literal ((word.span.cover value.span).cover (← lastSpan))

/-- A list in parentheses, or a subquery. -/
def parenthesized (r : Rules) : Parser Node := do
  let opening ← bump
  if atQuery (← get) then
    skipUntil (·.atKind .rParen)
    let closing ← expect .rParen ")"
    return .leaf .staticQuery (opening.span.cover closing.span)
  else
    let items ← separated r.expression
    let closing ← expect .rParen ")"
    return .mk .parenthesized (opening.span.cover closing.span) items

/-- One branch of a `CASE` expression: its choice and its result. -/
def caseBranch (r : Rules) : Parser (List Node) := do
  let _ ← bump
  let choice ← r.expression
  let _ ← expectWord "then"
  let result ← r.expression
  return [choice, result]

/-- A `CASE` expression. -/
def caseExpression (r : Rules) : Parser Node := do
  let start ← bump
  let selector ← if (← get).atWord "when" then pure [] else pure [← r.expression]
  let branches ← many (·.atWord "when") (caseBranch r)
  let otherwise ← if ← eatWord "else" then pure [← r.expression] else pure []
  let finish ← expectWord "end"
  return .mk .caseExpression (start.span.cover finish.span)
    (selector ++ branches.flatten ++ otherwise)

/-- An expression without operators: a literal, a name, or one in parentheses. -/
def primary (r : Rules) : Parser Node := do
  let s ← get
  let token := s.peek
  let leaf (kind : Kind) : Parser Node := do
    let _ ← bump
    return .leaf kind token.span
  match token.kind with
  | .string => leaf .stringLiteral
  | .number => leaf .numberLiteral
  | .bindVar => leaf .bindVariable
  | .quotedIdent => leaf .name
  | .lParen => parenthesized r
  | .word =>
    if token.isAnyWord ["null", "true", "false"] then leaf .literal
    else if token.isWord "case" then caseExpression r
    else if token.isAnyWord ["date", "timestamp", "interval"] && (s.peekAt 1).kind == .string then
      datedLiteral
    else if token.isWord "new" && (s.peekAt 1).kind.isIdentifier then
      let _ ← bump
      let name ← bump
      return .leaf .name name.span
    else leaf .name
  | _ => unexpected "expression"

/-- One argument of a call, with its label if it has one. -/
def argument (r : Rules) : Parser Node := do
  let s ← get
  let label ← if s.atIdentifier && (s.peekAt 1).kind == .arrow then do
      let name ← bump
      let _ ← bump
      pure [Node.leaf .name name.span]
    else pure []
  let _ ← eatWord "distinct"
  let value ← if (← get).atKind .star then do
      let star ← bump
      pure (Node.leaf .literal star.span)
    else r.expression
  skipUntil fun s => s.atKind .comma || s.atKind .rParen
  return .mk .argument (s.peek.span.cover (← lastSpan)) (label ++ [value])

/-- The arguments of a call of `callee`. -/
def call (r : Rules) (callee : Node) : Parser Node := do
  let _ ← bump
  let arguments ← if ← eat .rParen then pure [] else do
    let arguments ← separated (argument r)
    let _ ← expect .rParen ")"
    pure arguments
  return .mk .call (callee.span.cover (← lastSpan)) (callee :: arguments)

/-- What can follow an expression and bind to it: a member, an attribute, a
database link (which only stretches the expression) or arguments. -/
def suffix (r : Rules) (expr : Node) : Parser (Option Node) := do
  let s ← get
  let next := (s.peekAt 1).kind
  match s.kind with
  | .dot =>
    if next.isIdentifier then
      let _ ← bump
      let member ← bump
      return some (.mk .memberAccess (expr.span.cover member.span)
        [expr, .leaf .name member.span])
    else return none
  | .percent =>
    if next == .word then
      let _ ← bump
      let name ← bump
      return some (.mk .attribute (expr.span.cover name.span) [expr])
    else return none
  | .atSign =>
    if next == .word then
      let _ ← bump
      let link ← bump
      return some (expr.stretch link.span)
    else return none
  | .lParen => return some (← call r expr)
  | _ => return none

/-- A primary expression with what follows it. -/
def postfixed (r : Rules) : Parser Node := do
  let expr ← primary r
  loop (suffix r) expr

/-- The sign at a place, if there is one. -/
def sign? (s : Stream) : Option UnaryOp :=
  match s.kind with
  | .minus => some .neg
  | .plus => some .plus
  | .word => if s.atWord "prior" then some .prior else none
  | _ => none

/-- An expression with signs in front. -/
def signed (r : Rules) : Parser Node := do
  match sign? (← get) with
  | some op =>
    let start ← bump
    let operand ← r.signed
    return unary op start.span operand
  | none => postfixed r

/-- The operator of the power level at a place. -/
def power? (s : Stream) : Option BinaryOp :=
  match s.kind with
  | .power => some .power
  | _ => none

/-- The operator of the multiplicative level at a place. -/
def multiplicative? (s : Stream) : Option BinaryOp :=
  match s.kind with
  | .star => some .mul
  | .slash => some .div
  | .word => if s.atWord "mod" then some .mod else none
  | _ => none

/-- The operator of the additive level at a place. -/
def additive? (s : Stream) : Option BinaryOp :=
  match s.kind with
  | .plus => some .add
  | .minus => some .sub
  | .concat => some .concat
  | _ => none

/-- An expression of the additive level. -/
def additive (r : Rules) : Parser Node :=
  chain (chain (chain (signed r) power?) multiplicative?) additive?

/-- The comparison at a place. -/
def comparison? (s : Stream) : Option BinaryOp :=
  match s.kind with
  | .eq => some .eq
  | .notEq => some .notEq
  | .lt => some .lt
  | .gt => some .gt
  | .ltEq => some .ltEq
  | .gtEq => some .gtEq
  | .word =>
    if s.atWord "like" then some .like
    else if s.atWord "in" then some .member
    else if s.atWord "between" then some .between
    else none
  | _ => none

/-- True at a `NOT` that belongs to the comparison after it. -/
def atNegatedComparison (s : Stream) : Bool :=
  s.atWord "not" && (s.atWordAt 1 "like" || s.atWordAt 1 "in" || s.atWordAt 1 "between")

/-- The right side of a comparison of `lhs`, after its operator. -/
def comparisonOf (r : Rules) (op : BinaryOp) (lhs : Node) : Parser Node := do
  match op with
  | .between =>
    let low ← additive r
    let _ ← expectWord "and"
    let high ← additive r
    return .mk (.binary .between) (lhs.span.cover high.span) [lhs, low, high]
  | .member =>
    let list ← primary r
    return binary .member lhs list
  | .like =>
    let pattern ← additive r
    let node := binary .like lhs pattern
    if ← eatWord "escape" then
      let escape ← additive r
      return .mk (.binary .like) (node.span.cover escape.span) [lhs, pattern, escape]
    else return node
  | op =>
    let rhs ← additive r
    return binary op lhs rhs

/-- `IS NULL` or `IS NOT NULL` after `operand`. -/
def nullTest (operand : Node) : Parser Node := do
  let _ ← bump
  let negated ← eatWord "not"
  let null ← expectWord "null"
  return .mk (.unary (if negated then .isNotNull else .isNull)) (operand.span.cover null.span)
    [operand]

/-- A comparison, or an expression of the additive level. -/
def comparison (r : Rules) : Parser Node := do
  let lhs ← additive r
  if (← get).atWord "is" then nullTest lhs
  else
    let negated := atNegatedComparison (← get)
    if negated then
      let _ ← bump
    match comparison? (← get) with
    | none => return lhs
    | some op =>
      let _ ← bump
      let node ← comparisonOf r op lhs
      return if negated then unary .not lhs.span node else node

/-- An expression with `NOT` in front, or a comparison. -/
def negation (r : Rules) : Parser Node := do
  if (← get).atWord "not" then
    let start ← bump
    let operand ← r.negation
    return unary .not start.span operand
  else comparison r

/-- The word `AND` as an operator. -/
def and? (s : Stream) : Option BinaryOp := if s.atWord "and" then some .and else none

/-- The word `OR` as an operator. -/
def or? (s : Stream) : Option BinaryOp := if s.atWord "or" then some .or else none

/-- An expression. -/
def expression (r : Rules) : Parser Node :=
  chain (chain (negation r) and?) or?

end PlsqlAudit.Grammar
