import PlsqlAudit.Grammar.Expression
import PlsqlAudit.Text.LetterCase
import PlsqlAudit.Text.Numeric

/-!
# Signatures

The name of a routine, its parameters and the type it returns, and the types of
declared variables.  A type is not analysed: it is whatever stands before the
tokens that can follow a type in its context, and it is classified by its text.
-/

namespace PlsqlAudit.Grammar

open PlsqlAudit.Parser

/-- The predefined types of character strings. -/
def characterTypes : List String :=
  ["char", "character", "varchar", "varchar2", "nchar", "nvarchar2", "clob", "nclob", "long",
    "string"]

/-- The other predefined types. -/
def builtinTypes : List String :=
  ["number", "numeric", "decimal", "dec", "integer", "int", "smallint", "float", "real", "double",
    "binary_integer", "pls_integer", "simple_integer", "natural", "naturaln", "positive",
    "positiven", "signtype", "binary_float", "binary_double", "simple_float", "simple_double",
    "boolean", "date", "timestamp", "interval", "blob", "bfile", "raw", "rowid", "urowid",
    "sys_refcursor"]

/-- The words that can follow the type a function returns. -/
def routineAttributes : List String :=
  ["is", "as", "deterministic", "pipelined", "parallel_enable", "result_cache", "authid",
    "accessible", "aggregate", "sql_macro", "using"]

/-- The class of a type, by its text: qualified and anchored types are the
user's, and otherwise the first word decides. -/
def classifyType (text : String) : TypeClass :=
  let small := (Text.lower text).toList
  if small.contains '%' || small.contains '.' then .userDefined
  else
    let head := String.ofList (small.takeWhile fun c => Text.isAlphanumeric c || c == '_')
    if characterTypes.contains head then .character
    else if builtinTypes.contains head then .builtin
    else .userDefined

/-- Where a type stands. -/
inductive TypeContext where
  | parameter
  | declaration
  | result
  deriving DecidableEq, Repr, Inhabited

/-- The words that end a type. -/
def TypeContext.stopWords : TypeContext → List String
  | .parameter => ["default"]
  | .declaration => ["default", "not"]
  | .result => routineAttributes

/-- True at a token that ends a type. -/
def atTypeEnd (context : TypeContext) (s : Stream) : Bool :=
  match s.kind with
  | .comma | .rParen | .semicolon | .assign | .eof => true
  | _ => s.atAnyWord context.stopWords

/-- A type. -/
def dataType (context : TypeContext) : Parser Node := do
  let s ← get
  if atTypeEnd context s then unexpected "data type"
  else
    skipUntil (atTypeEnd context)
    let span := s.peek.span.cover (← lastSpan)
    return .leaf (.dataType (classifyType (span.text s.source))) span

/-- The type that a function returns. -/
def resultType : Parser Node := do
  let s ← get
  if s.atWord "self" && s.atWordAt 1 "as" && s.atWordAt 2 "result" then
    let first ← bump
    let _ ← bump
    let last ← bump
    return .leaf (.dataType .userDefined) (first.span.cover last.span)
  else dataType .result

/-- A name that is being introduced, with the names it is qualified by. -/
def definingName : Parser Node := do
  let first ← expectIdentifier "name"
  let span ← loop (fun span => do
    let s ← get
    if s.atKind .dot && (s.peekAt 1).kind.isIdentifier then
      let _ ← bump
      let next ← bump
      return some (span.cover next.span)
    else return none) first.span
  return .leaf .definingName span

/-- The mode of a parameter. -/
def parameterMode : Parser ParameterMode := do
  if ← eatWord "in" then
    if ← eatWord "out" then return .inputOutput else return .input
  else if ← eatWord "out" then return .output
  else return .input

/-- The value that a parameter or variable is given at first, if any. -/
def defaultValue (r : Rules) : Parser (List Node) := do
  if ← eat .assign then return [← r.expression]
  else if ← eatWord "default" then return [← r.expression]
  else return []

/-- A parameter. -/
def parameter (r : Rules) : Parser Node := do
  let name ← expectIdentifier "parameter name"
  let mode ← parameterMode
  let _ ← eatWord "nocopy"
  let type ← dataType .parameter
  let value ← defaultValue r
  return .mk (.parameter mode) (name.span.cover (← lastSpan))
    (.leaf .definingName name.span :: type :: value)

/-- The parameters of a routine, in parentheses. -/
def parameters (r : Rules) : Parser (List Node) := do
  let _ ← expect .lParen "("
  let list ← separated (parameter r)
  let _ ← expect .rParen ")"
  return list

end PlsqlAudit.Grammar
