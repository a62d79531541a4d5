import PlsqlAudit.Token.Tokenize
import PlsqlAudit.Tree.Node

/-!
# Expressions in print

An `Expr` is an expression as one thinks of it: operators with their operands,
calls with their arguments, and so on.  It is printed as a row of pieces
(`Expr.pieces`), each of them one token, and it has an outline, the kinds, the
shape and the texts at the leaves that a tree for it should have
(`Expr.outline`).  The outline of a tree that was read is taken by
`Node.outline`.

No parentheses are put in to make the operators bind as the expression has it, so
not every expression can be read back.  `Expr.Stands` says of one that its
operators bind as they should: an operand binds at least as tightly as its place
asks for.
-/

namespace PlsqlAudit

/-! ### Pieces -/

/-- A token in print. -/
structure Piece where
  kind : TokenKind
  text : String
  deriving DecidableEq, Repr, Inhabited

namespace Piece

/-- The text of a piece with its ASCII letters lowered. -/
def lowerText (p : Piece) : String := p.text.map Char.toLower

/-- True for an unquoted word that is spelled `word`, in capitals or not. -/
def isWord (p : Piece) (word : String) : Bool := p.kind == .word && p.lowerText == word

/-- Read by itself, the text of the piece is one token of its kind. -/
def StandsAlone (p : Piece) : Prop :=
  Lexeme.lexemes p.text.toList = ([⟨.token p.kind, p.text.toList⟩], none)

instance (p : Piece) : Decidable p.StandsAlone :=
  inferInstanceAs (Decidable (_ = _))

/-- A word of the language. -/
def keyword (text : String) : Piece := ⟨.word, text⟩

def lParen : Piece := ⟨.lParen, "("⟩

def rParen : Piece := ⟨.rParen, ")"⟩

def comma : Piece := ⟨.comma, ","⟩

def dot : Piece := ⟨.dot, "."⟩

def arrow : Piece := ⟨.arrow, "=>"⟩

theorem lowerText_eq (p : Piece) :
    p.lowerText = String.ofList (p.text.toList.map Char.toLower) := by
  rw [← String.toList_inj, lowerText]
  simp

@[simp] theorem kind_keyword (text : String) : (keyword text).kind = .word := rfl

@[simp] theorem lowerText_keyword (text : String) :
    (keyword text).lowerText = String.ofList (text.toList.map Char.toLower) :=
  lowerText_eq _

@[simp] theorem isWord_keyword (text word : String) :
    (keyword text).isWord word = (String.ofList (text.toList.map Char.toLower) == word) := by
  simp [isWord]

/-- The piece in front of a comparison that is negated. -/
def negation : Bool → List Piece
  | true => [keyword "NOT"]
  | false => []

end Piece

/-- The kind of token that an operator between operands is. -/
def BinaryOp.tokenKind : BinaryOp → TokenKind
  | .eq => .eq
  | .notEq => .notEq
  | .lt => .lt
  | .gt => .gt
  | .ltEq => .ltEq
  | .gtEq => .gtEq
  | .concat => .concat
  | .add => .plus
  | .sub => .minus
  | .mul => .star
  | .div => .slash
  | .power => .power
  | .or | .and | .like | .member | .between | .mod => .word

/-- The operator in print. -/
def BinaryOp.piece (op : BinaryOp) : Piece := ⟨op.tokenKind, op.symbol⟩

@[simp] theorem BinaryOp.isWord_piece (op : BinaryOp) (word : String) :
    op.piece.isWord word =
      (op.tokenKind == .word && String.ofList (op.symbol.toList.map Char.toLower) == word) := by
  rw [Piece.isWord, Piece.lowerText_eq]
  rfl

/-! ### Expressions -/

/-- The words that mean something in an expression. -/
def expressionWords : List String :=
  ["or", "and", "not", "is", "like", "in", "between", "escape", "mod", "prior", "null", "true",
    "false", "case", "when", "then", "else", "end", "date", "timestamp", "interval", "new",
    "distinct", "select", "with"]

/-- A name, in double quotes or not. -/
structure Identifier extends Piece where
  isIdentifier : kind.isIdentifier = true
  standsAlone : toPiece.StandsAlone
  free : kind = .word → toPiece.lowerText ∉ expressionWords

/-- A name that is not in quotes. -/
def Identifier.word (text : String) (halone : Piece.StandsAlone ⟨.word, text⟩)
    (hfree : text.map Char.toLower ∉ expressionWords) : Identifier where
  kind := .word
  text := text
  isIdentifier := rfl
  standsAlone := halone
  free := fun _ => hfree

/-- The classes of literals. -/
inductive LiteralClass where
  | string
  | number
  | bindVariable
  deriving DecidableEq, Repr, Inhabited

namespace LiteralClass

def tokenKind : LiteralClass → TokenKind
  | .string => .string
  | .number => .number
  | .bindVariable => .bindVar

def kind : LiteralClass → Kind
  | .string => .stringLiteral
  | .number => .numberLiteral
  | .bindVariable => .bindVariable

end LiteralClass

/-- A literal or a bind variable. -/
structure Literal where
  cls : LiteralClass
  text : String
  standsAlone : Piece.StandsAlone ⟨cls.tokenKind, text⟩

/-- The literal in print. -/
def Literal.piece (l : Literal) : Piece := ⟨l.cls.tokenKind, l.text⟩

/-- What can stand in front of an operand and binds more tightly than any operator
between two. -/
inductive Sign where
  | neg
  | plus
  | prior
  deriving DecidableEq, Repr, Inhabited

namespace Sign

def op : Sign → UnaryOp
  | .neg => .neg
  | .plus => .plus
  | .prior => .prior

def piece : Sign → Piece
  | .neg => ⟨.minus, "-"⟩
  | .plus => ⟨.plus, "+"⟩
  | .prior => .keyword "PRIOR"

end Sign

/-- An expression. -/
inductive Expr where
  | name (id : Identifier)
  | literal (l : Literal)
  /-- One or more expressions in parentheses. -/
  | list (first : Expr) (rest : List Expr)
  | member (base : Expr) (field : Identifier)
  /-- A call with its arguments, each with its label if it has one. -/
  | call (callee : Expr) (arguments : List (Option Identifier × Expr))
  /-- A `CASE` with the choice and the result of each branch. -/
  | case (selector : Option Expr) (branches : List (Expr × Expr)) (otherwise : Option Expr)
  | sign (op : Sign) (operand : Expr)
  | not (operand : Expr)
  /-- `IS NULL` or `IS NOT NULL`. -/
  | nullTest (negated : Bool) (operand : Expr)
  | like (negated : Bool) (operand pattern : Expr) (escape : Option Expr)
  | isIn (negated : Bool) (operand items : Expr)
  | between (negated : Bool) (operand low high : Expr)
  /-- Any other operator between two operands. -/
  | binary (op : BinaryOp) (lhs rhs : Expr)

/-- The label of an argument, with the arrow behind it. -/
def Identifier.labelPieces : Option Identifier → List Piece
  | none => []
  | some label => [label.toPiece, .arrow]

namespace Expr

mutual

/-- The tokens of an expression. -/
def pieces : Expr → List Piece
  | .name id => [id.toPiece]
  | .literal l => [l.piece]
  | .list first rest => .lParen :: first.pieces ++ itemPieces rest ++ [.rParen]
  | .member base field => base.pieces ++ [.dot, field.toPiece]
  | .call callee arguments =>
    callee.pieces ++ .lParen :: argumentPieces [] arguments ++ [.rParen]
  | .case selector branches otherwise =>
    .keyword "CASE" :: optionPieces [] selector ++ branchPieces branches ++
      optionPieces [.keyword "ELSE"] otherwise ++ [.keyword "END"]
  | .sign op operand => op.piece :: operand.pieces
  | .not operand => .keyword "NOT" :: operand.pieces
  | .nullTest negated operand =>
    operand.pieces ++ .keyword "IS" :: Piece.negation negated ++ [.keyword "NULL"]
  | .like negated operand pattern escape =>
    operand.pieces ++ Piece.negation negated ++ .keyword "LIKE" :: pattern.pieces ++
      optionPieces [.keyword "ESCAPE"] escape
  | .isIn negated operand items =>
    operand.pieces ++ Piece.negation negated ++ .keyword "IN" :: items.pieces
  | .between negated operand low high =>
    operand.pieces ++ Piece.negation negated ++ .keyword "BETWEEN" :: low.pieces ++
      .keyword "AND" :: high.pieces
  | .binary op lhs rhs => lhs.pieces ++ op.piece :: rhs.pieces

/-- The tokens of the further items of a list. -/
def itemPieces : List Expr → List Piece
  | [] => []
  | e :: rest => .comma :: e.pieces ++ itemPieces rest

/-- The tokens of arguments, the first of them with `front` before it. -/
def argumentPieces (front : List Piece) : List (Option Identifier × Expr) → List Piece
  | [] => []
  | (label, e) :: rest =>
    front ++ Identifier.labelPieces label ++ e.pieces ++ argumentPieces [.comma] rest

/-- The tokens of the branches of a `CASE`. -/
def branchPieces : List (Expr × Expr) → List Piece
  | [] => []
  | (choice, result) :: rest =>
    .keyword "WHEN" :: choice.pieces ++ .keyword "THEN" :: result.pieces ++ branchPieces rest

/-- The tokens of a part that may be missing, with `front` before it. -/
def optionPieces (front : List Piece) : Option Expr → List Piece
  | none => []
  | some e => front ++ e.pieces

end

end Expr

/-! ### Outlines -/

/-- What a tree is without the places of its nodes: kinds, shape, and the texts at
the leaves. -/
inductive Outline where
  | leaf (kind : Kind) (text : String)
  | node (kind : Kind) (parts : List Outline)
  deriving Repr, Inhabited

/-- The outline of a comparison that may be negated. -/
def Outline.negate : Bool → Outline → Outline
  | true, o => .node (.unary .not) [o]
  | false, o => o

/-- The outline of the label of an argument. -/
def Identifier.labelOutline : Option Identifier → List Outline
  | none => []
  | some label => [.leaf .name label.text]

namespace Node

mutual

/-- The outline of the tree under a node. -/
def outline (source : String) : Node → Outline
  | .mk kind span children =>
    if children.isEmpty then .leaf kind (span.text source)
    else .node kind (outlineAll source children)

/-- The outlines of the trees under several nodes. -/
def outlineAll (source : String) : List Node → List Outline
  | [] => []
  | n :: ns => n.outline source :: outlineAll source ns

end

end Node

namespace Expr

mutual

/-- The outline that a tree for the expression should have. -/
def outline : Expr → Outline
  | .name id => .leaf .name id.text
  | .literal l => .leaf l.cls.kind l.text
  | .list first rest => .node .parenthesized (first.outline :: itemOutlines rest)
  | .member base field => .node .memberAccess [base.outline, .leaf .name field.text]
  | .call callee arguments => .node .call (callee.outline :: argumentOutlines arguments)
  | .case selector branches otherwise =>
    .node .caseExpression
      (optionOutline selector ++ branchOutlines branches ++ optionOutline otherwise)
  | .sign op operand => .node (.unary op.op) [operand.outline]
  | .not operand => .node (.unary .not) [operand.outline]
  | .nullTest negated operand =>
    .node (.unary (if negated then .isNotNull else .isNull)) [operand.outline]
  | .like negated operand pattern escape =>
    .negate negated
      (.node (.binary .like) (operand.outline :: pattern.outline :: optionOutline escape))
  | .isIn negated operand items =>
    .negate negated (.node (.binary .member) [operand.outline, items.outline])
  | .between negated operand low high =>
    .negate negated (.node (.binary .between) [operand.outline, low.outline, high.outline])
  | .binary op lhs rhs => .node (.binary op) [lhs.outline, rhs.outline]

/-- The outlines of the further items of a list. -/
def itemOutlines : List Expr → List Outline
  | [] => []
  | e :: rest => e.outline :: itemOutlines rest

/-- The outlines of arguments. -/
def argumentOutlines : List (Option Identifier × Expr) → List Outline
  | [] => []
  | (label, e) :: rest =>
    .node .argument (Identifier.labelOutline label ++ [e.outline]) :: argumentOutlines rest

/-- The outlines of the branches of a `CASE`, a choice and a result by turns. -/
def branchOutlines : List (Expr × Expr) → List Outline
  | [] => []
  | (choice, result) :: rest => choice.outline :: result.outline :: branchOutlines rest

/-- The outline of a part that may be missing. -/
def optionOutline : Option Expr → List Outline
  | none => []
  | some e => [e.outline]

end

end Expr

/-! ### A program around an expression -/

/-- The pieces with blanks between them. -/
def Piece.line (ps : List Piece) : String := " ".intercalate (ps.map Piece.text)

/-- A program that assigns the expression to a variable. -/
def Expr.program (e : Expr) : String := "BEGIN x := " ++ Piece.line e.pieces ++ "; END;"

/-- The outline that a tree for the program should have. -/
def Expr.programOutline (e : Expr) : Outline :=
  .node .compilationUnit
    [.node .anonymousBlock
      [.node .body [.node .assignment [.leaf .name "x", e.outline]]]]

/-! ### How tightly an expression binds -/

/-- How tightly operators bind, the loosest first. -/
inductive Level where
  | or
  | and
  | not
  | comparison
  | additive
  | multiplicative
  | power
  | sign
  | suffix
  | primary
  deriving DecidableEq, Repr, Inhabited

namespace Level

def rank : Level → Nat
  | .or => 0
  | .and => 1
  | .not => 2
  | .comparison => 3
  | .additive => 4
  | .multiplicative => 5
  | .power => 6
  | .sign => 7
  | .suffix => 8
  | .primary => 9

/-- The next tighter level. -/
def next : Level → Level
  | .or => .and
  | .and => .not
  | .not => .comparison
  | .comparison => .additive
  | .additive => .multiplicative
  | .multiplicative => .power
  | .power => .sign
  | .sign => .suffix
  | .suffix | .primary => .primary

theorem rank_le_next (level : Level) : level.rank ≤ level.next.rank := by
  cases level <;> decide

theorem rank_next {level tighter : Level} (h : level.rank < tighter.rank) :
    level.next.rank = level.rank + 1 := by
  cases level <;> cases tighter <;> revert h <;> decide

theorem eq_of_rank_eq {level level' : Level} (h : level.rank = level'.rank) : level = level' := by
  cases level <;> cases level' <;> revert h <;> decide

end Level

/-- The level of an operator that stands between its two operands. -/
def BinaryOp.level? : BinaryOp → Option Level
  | .or => some .or
  | .and => some .and
  | .eq | .notEq | .lt | .gt | .ltEq | .gtEq => some .comparison
  | .concat | .add | .sub => some .additive
  | .mul | .div | .mod => some .multiplicative
  | .power => some .power
  | .like | .member | .between => none

/-- The expression can stand where one of the level is asked for, its operators
binding as they should.  What follows `IN` is of the level `listed`. -/
inductive Expr.Stands (listed : Level) : Level → Expr → Prop
  | name (id : Identifier) : Stands listed .primary (.name id)
  | literal (l : Literal) : Stands listed .primary (.literal l)
  | list {first : Expr} {rest : List Expr} (hfirst : Stands listed .or first)
    (hrest : ∀ e ∈ rest, Stands listed .or e) : Stands listed .primary (.list first rest)
  | case {selector otherwise : Option Expr} {branches : List (Expr × Expr)}
    (hne : selector.isSome ∨ branches ≠ []) (hselector : ∀ e ∈ selector, Stands listed .or e)
    (hchoices : ∀ b ∈ branches, Stands listed .or b.1)
    (hresults : ∀ b ∈ branches, Stands listed .or b.2)
    (hotherwise : ∀ e ∈ otherwise, Stands listed .or e) :
    Stands listed .primary (.case selector branches otherwise)
  | member {base : Expr} (hbase : Stands listed .suffix base) (field : Identifier) :
    Stands listed .suffix (.member base field)
  | call {callee : Expr} {arguments : List (Option Identifier × Expr)}
    (hcallee : Stands listed .suffix callee) (harguments : ∀ a ∈ arguments, Stands listed .or a.2) :
    Stands listed .suffix (.call callee arguments)
  | sign {operand : Expr} (op : Sign) (hoperand : Stands listed .sign operand) :
    Stands listed .sign (.sign op operand)
  /-- Operators of one level associate to the left. -/
  | binary {op : BinaryOp} {level : Level} {lhs rhs : Expr} (hop : op.level? = some level)
    (hlevel : level ≠ .comparison) (hlhs : Stands listed level lhs)
    (hrhs : Stands listed level.next rhs) : Stands listed level (.binary op lhs rhs)
  /-- Comparisons do not associate. -/
  | comparison {op : BinaryOp} {lhs rhs : Expr} (hop : op.level? = some .comparison)
    (hlhs : Stands listed .additive lhs) (hrhs : Stands listed .additive rhs) :
    Stands listed .comparison (.binary op lhs rhs)
  | nullTest {operand : Expr} (negated : Bool) (hoperand : Stands listed .additive operand) :
    Stands listed .comparison (.nullTest negated operand)
  | like {operand pattern : Expr} {escape : Option Expr} (negated : Bool)
    (hoperand : Stands listed .additive operand) (hpattern : Stands listed .additive pattern)
    (hescape : ∀ e ∈ escape, Stands listed .additive e) :
    Stands listed .comparison (.like negated operand pattern escape)
  | isIn {operand items : Expr} (negated : Bool) (hoperand : Stands listed .additive operand)
    (hitems : Stands listed listed items) : Stands listed .comparison (.isIn negated operand items)
  | between {operand low high : Expr} (negated : Bool)
    (hoperand : Stands listed .additive operand) (hlow : Stands listed .additive low)
    (hhigh : Stands listed .additive high) :
    Stands listed .comparison (.between negated operand low high)
  | not {operand : Expr} (hoperand : Stands listed .not operand) :
    Stands listed .not (.not operand)
  /-- What binds more tightly can stand in a looser place. -/
  | looser {level : Level} {e : Expr} (h : Stands listed level.next e) : Stands listed level e

theorem Expr.Stands.of_le {listed level tighter : Level} {e : Expr} (h : e.Stands listed tighter)
    (hle : level.rank ≤ tighter.rank) : e.Stands listed level := by
  generalize hgap : tighter.rank - level.rank = gap
  induction gap generalizing level with
  | zero =>
    have heq : level = tighter := Level.eq_of_rank_eq (by omega)
    rwa [heq]
  | succ gap ih =>
    have hlt : level.rank < tighter.rank := by omega
    have hnext := Level.rank_next hlt
    exact .looser (ih (by omega) (by omega))

end PlsqlAudit
