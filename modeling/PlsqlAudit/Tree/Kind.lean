/-!
# Kinds of syntax

The grammar tells apart routines and other units, their signatures and
declarations, statements, and expressions.  A kind says which of these a piece of
program text is; the few kinds with an argument carry what the grammar learned
while reading (the mode of a parameter, the class of a type, an operator).
-/

namespace PlsqlAudit

/-- How a parameter is passed. -/
inductive ParameterMode where
  | input
  | output
  | inputOutput
  deriving DecidableEq, Repr, Inhabited

/-- What can be said of a declared type without looking beyond its text. -/
inductive TypeClass where
  /-- A predefined type of character strings. -/
  | character
  /-- Any other predefined type. -/
  | builtin
  /-- A named type, an anchored type or a qualified name. -/
  | userDefined
  deriving DecidableEq, Repr, Inhabited

/-- Operators between operands. -/
inductive BinaryOp where
  | or
  | and
  | eq
  | notEq
  | lt
  | gt
  | ltEq
  | gtEq
  | like
  | member
  | between
  | concat
  | add
  | sub
  | mul
  | div
  | mod
  | power
  deriving DecidableEq, Repr, Inhabited

/-- How an operator is written. -/
def BinaryOp.symbol : BinaryOp → String
  | .or => "OR"
  | .and => "AND"
  | .eq => "="
  | .notEq => "<>"
  | .lt => "<"
  | .gt => ">"
  | .ltEq => "<="
  | .gtEq => ">="
  | .like => "LIKE"
  | .member => "IN"
  | .between => "BETWEEN"
  | .concat => "||"
  | .add => "+"
  | .sub => "-"
  | .mul => "*"
  | .div => "/"
  | .mod => "MOD"
  | .power => "**"

/-- Operators on one operand. -/
inductive UnaryOp where
  | not
  | neg
  | plus
  | prior
  | isNull
  | isNotNull
  deriving DecidableEq, Repr, Inhabited

/-- What a piece of program text is. -/
inductive Kind where
  | compilationUnit
  | createProcedure
  | createFunction
  | procedureDefinition
  | functionDefinition
  | memberProcedure
  | memberFunction
  | constructor
  | anonymousBlock
  | packageSpec
  | packageBody
  | typeBody
  | trigger
  | definingName
  | parameter (mode : ParameterMode)
  | dataType (cls : TypeClass)
  | declareSection
  | variableDeclaration
  | constantDeclaration
  | otherDeclaration
  | body
  | exceptionHandler
  | assignment
  | executeImmediate
  | openFor
  | intoClause
  | usingClause
  | callStatement
  | ifStatement
  | caseStatement
  | loopStatement
  | returnStatement
  | raiseStatement
  | nullStatement
  | sqlStatement
  | otherStatement
  | name
  | stringLiteral
  | numberLiteral
  | literal
  | bindVariable
  | binary (op : BinaryOp)
  | unary (op : UnaryOp)
  | memberAccess
  | attribute
  | call
  | argument
  | parenthesized
  | caseExpression
  | staticQuery
  deriving DecidableEq, Repr, Inhabited

namespace Kind

/-- Units, routines and blocks. -/
def isContainer : Kind → Bool
  | .createProcedure | .createFunction | .procedureDefinition | .functionDefinition
  | .memberProcedure | .memberFunction | .constructor | .anonymousBlock | .packageSpec
  | .packageBody | .typeBody | .trigger => true
  | _ => false

/-- Declarations of variables and constants. -/
def isDeclaration : Kind → Bool
  | .variableDeclaration | .constantDeclaration => true
  | _ => false

/-- Parameters of any mode. -/
def isParameter : Kind → Bool
  | .parameter _ => true
  | _ => false

/-- Types of any class. -/
def isDataType : Kind → Bool
  | .dataType _ => true
  | _ => false

/-- The clauses after the text of a dynamic statement. -/
def isClause : Kind → Bool
  | .intoClause | .usingClause => true
  | _ => false

end Kind

end PlsqlAudit
