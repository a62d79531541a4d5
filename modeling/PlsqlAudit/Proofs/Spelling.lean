import PlsqlAudit.Proofs.Places
import PlsqlAudit.Proofs.Wording

/-!
# What tokens spell

The tokens of a program spell its nodes.  Each node takes a run of tokens, and
the nodes under it take runs of that run, in order; tokens that no node is made
for are skipped.  `Spells` is this relation between tokens and nodes, with what it
asks of each node: the kinds under it follow the layout of its kind
(`Kind.Layout`), its span reaches from the first of its tokens to the last, and in an
expression no identifier is skipped without a reason (`Placed`).

The one node that takes no token is a section without declarations; it stands in
front of the next token.

Going down from nodes that are spelled one meets only nodes that fit their tokens
(`Spells.spelled`).
-/

namespace PlsqlAudit

namespace Kind

/-- Routines: what has a signature. -/
def isRoutine : Kind → Bool
  | .createProcedure | .createFunction | .procedureDefinition | .functionDefinition
  | .memberProcedure | .memberFunction | .constructor => true
  | _ => false

/-- What a program consists of. -/
def isUnit : Kind → Bool
  | .createProcedure | .createFunction | .packageSpec | .packageBody | .typeBody | .trigger
  | .anonymousBlock => true
  | _ => false

/-- What the body of a type consists of. -/
def isMember : Kind → Bool
  | .memberProcedure | .memberFunction | .constructor => true
  | _ => false

/-- What a section of declarations consists of. -/
def isDeclared : Kind → Bool
  | .procedureDefinition | .functionDefinition | .variableDeclaration | .constantDeclaration
  | .otherDeclaration => true
  | _ => false

/-- Expressions, queries in parentheses included. -/
def isExpression : Kind → Bool
  | .name | .stringLiteral | .numberLiteral | .literal | .bindVariable | .binary _ | .unary _
  | .memberAccess | .attribute | .call | .parenthesized | .caseExpression | .staticQuery => true
  | _ => false

/-- What stands inside an expression. -/
def isOperand (kind : Kind) : Bool := kind.isExpression || kind == .argument

/-- Statements, blocks included. -/
def isStatement : Kind → Bool
  | .anonymousBlock | .assignment | .executeImmediate | .openFor | .callStatement | .ifStatement
  | .caseStatement | .loopStatement | .returnStatement | .raiseStatement | .nullStatement
  | .sqlStatement | .otherStatement => true
  | _ => false

/-- No statement stands inside an expression, so the nodes of expressions are kept apart from the
others by their kinds. -/
theorem not_isOperand_of_isStatement {kind : Kind} (h : kind.isStatement = true) :
    kind.isOperand = false := by
  cases kind <;> first | rfl | cases h

/-- No routine stands inside an expression, so a walk through an expression meets no parameters of
another routine. -/
theorem not_isOperand_of_isRoutine {kind : Kind} (h : kind.isRoutine = true) :
    kind.isOperand = false := by
  cases kind <;> first | rfl | cases h

/-- What the branches of a statement consist of. -/
def isBranchPart (kind : Kind) : Bool := kind.isExpression || kind.isStatement

/-- Nothing, or one part. -/
def AtMostOne (wanted : Kind → Bool) (parts : List Kind) : Prop :=
  parts.length ≤ 1 ∧ ∀ kind ∈ parts, wanted kind = true

/-- The parts of a routine: its signature, and its body unless it is only
announced. -/
def RoutineLayout (parts : List Kind) : Prop :=
  ∃ parameters result inner, parts = .definingName :: (parameters ++ result ++ inner) ∧
    (∀ kind ∈ parameters, kind.isParameter = true) ∧ AtMostOne isDataType result ∧
    (inner = [] ∨ inner = [.declareSection, .body])

/-- The parts of a parameter, a variable or a constant. -/
def DeclarationLayout (parts : List Kind) : Prop :=
  ∃ type value, parts = .definingName :: type :: value ∧ type.isDataType = true ∧
    AtMostOne isExpression value

/-- The kinds that may stand directly under a kind, in order. -/
def Layout : Kind → List Kind → Prop
  | .compilationUnit, parts => ∀ kind ∈ parts, kind.isUnit = true
  | .createProcedure, parts | .createFunction, parts | .procedureDefinition, parts
  | .functionDefinition, parts | .memberProcedure, parts | .memberFunction, parts
  | .constructor, parts => RoutineLayout parts
  | .anonymousBlock, parts =>
    ∃ declarations, parts = declarations ++ [.body] ∧ AtMostOne (· == .declareSection) declarations
  | .packageSpec, parts | .packageBody, parts =>
    ∃ inner, parts = .definingName :: .declareSection :: inner ∧ AtMostOne (· == .body) inner
  | .typeBody, parts =>
    ∃ members, parts = .definingName :: members ∧ ∀ kind ∈ members, kind.isMember = true
  | .trigger, parts =>
    ∃ inner, parts = .definingName :: inner ∧ AtMostOne (· == .anonymousBlock) inner
  | .parameter _, parts | .variableDeclaration, parts | .constantDeclaration, parts =>
    DeclarationLayout parts
  | .declareSection, parts => ∀ kind ∈ parts, kind.isDeclared = true
  | .body, parts =>
    ∃ statements handlers, parts = statements ++ handlers ∧
      (∀ kind ∈ statements, kind.isStatement = true) ∧ ∀ kind ∈ handlers, kind = .exceptionHandler
  | .exceptionHandler, parts => ∀ kind ∈ parts, kind.isStatement = true
  | .assignment, parts =>
    ∃ target value, parts = [target, value] ∧ target.isExpression = true ∧ value.isExpression = true
  | .executeImmediate, parts =>
    ∃ sql clauses, parts = sql :: clauses ∧ sql.isExpression = true ∧
      ∀ kind ∈ clauses, kind.isClause = true
  | .openFor, parts =>
    ∃ cursor query clauses, parts = cursor :: query :: clauses ∧ cursor.isExpression = true ∧
      query.isExpression = true ∧ AtMostOne (· == .usingClause) clauses
  | .usingClause, parts | .parenthesized, parts =>
    parts ≠ [] ∧ ∀ kind ∈ parts, kind.isExpression = true
  | .callStatement, parts | .unary _, parts | .attribute, parts =>
    ∃ operand, parts = [operand] ∧ operand.isExpression = true
  | .ifStatement, parts | .caseStatement, parts | .loopStatement, parts =>
    ∀ kind ∈ parts, kind.isBranchPart = true
  | .returnStatement, parts => AtMostOne isExpression parts
  | .binary _, parts =>
    (parts.length = 2 ∨ parts.length = 3) ∧ ∀ kind ∈ parts, kind.isExpression = true
  | .memberAccess, parts => ∃ left, parts = [left, .name] ∧ left.isExpression = true
  | .call, parts =>
    ∃ callee arguments, parts = callee :: arguments ∧ callee.isExpression = true ∧
      ∀ kind ∈ arguments, kind = .argument
  | .argument, parts =>
    ∃ label value, parts = label ++ [value] ∧ value.isExpression = true ∧
      AtMostOne (· == .name) label
  | .caseExpression, parts => ∀ kind ∈ parts, kind.isExpression = true
  | _, parts => parts = []

/-- What stands in nothing but a program. -/
def isOutermost : Kind → Bool
  | .compilationUnit | .createProcedure | .createFunction | .packageSpec | .packageBody
  | .typeBody | .trigger => true
  | _ => false

/-- What stands inside another construct stands not only in a program. -/
theorem not_isOutermost {kind : Kind}
    (h : (kind.isParameter || kind.isDataType || kind.isExpression || kind.isStatement ||
      kind.isDeclared || kind.isMember || kind.isClause) = true) : kind.isOutermost = false := by
  cases kind <;>
    simp [isParameter, isDataType, isExpression, isStatement, isDeclared, isMember, isClause] at h <;>
    rfl

/-- What stands in nothing but a program stands directly below its root: no other layout has room
for it. -/
theorem Layout.not_isOutermost {kind part : Kind} {parts : List Kind} (h : kind.Layout parts)
    (hkind : kind ≠ .compilationUnit) (hpart : part ∈ parts) : part.isOutermost = false := by
  by_contra hout
  have hclass : (part.isParameter || part.isDataType || part.isExpression || part.isStatement ||
      part.isDeclared || part.isMember || part.isClause) = false := by
    rw [Bool.eq_false_iff]
    exact fun hclass => hout (Kind.not_isOutermost hclass)
  simp only [Bool.or_eq_false_iff] at hclass
  cases kind <;> simp only [Layout, RoutineLayout, DeclarationLayout, AtMostOne] at h <;>
    grind [isOutermost, isBranchPart]

/-- All kinds of routines are laid out alike: a name, the parameters, a result type if there is
one, and the rest. -/
theorem layout_of_isRoutine {kind : Kind} (h : kind.isRoutine = true) (parts : List Kind) :
    kind.Layout parts ↔ RoutineLayout parts := by
  cases kind <;> simp [isRoutine] at h <;> rfl

end Kind

/-- A tree in which every node follows the layout of its kind. -/
def Tree.LaidOut (t : Tree) : Prop :=
  ∀ p ∈ t.places, p.kind.Layout (p.children.map Place.kind)

/-! ### Spans of tokens -/

/-- A span that reaches from the first of some tokens to the last. -/
structure Spans (used : List Token) (span : Span) : Prop where
  begins : ∃ token, used.head? = some token ∧ span.offset = token.span.offset ∧
    span.line = token.span.line ∧ span.column = token.span.column
  stops : ∃ token, used.getLast? = some token ∧ span.stop = token.span.stop

/-- No token of a run ends behind the last one. -/
theorem Ordered.stop_le {used : List Token} {token last : Token} (ho : Ordered used)
    (hmem : token ∈ used) (hlast : used.getLast? = some last) :
    token.span.stop ≤ last.span.stop := by
  obtain ⟨before, rfl⟩ := List.getLast?_eq_some_iff.1 hlast
  rcases List.mem_append.1 hmem with hmem | hmem
  · have hle := (List.pairwise_append.1 ho).2.2 token hmem last (List.mem_singleton.2 rfl)
    exact Nat.le_trans hle (Nat.le_add_right _ _)
  · obtain rfl := List.mem_singleton.1 hmem
    exact Nat.le_refl _

namespace Spans

variable {used u : List Token} {a b : Span} {token first last : Token}

/-- A single token is spanned by its own span, from its first to its last byte. -/
theorem single (token : Token) : Spans [token] token.span :=
  ⟨⟨token, rfl, rfl, rfl, rfl⟩, ⟨token, rfl, rfl⟩⟩

/-- Nothing spans no tokens: a span reaches from one token to another. -/
theorem ne_nil (h : Spans used a) : used ≠ [] := by
  obtain ⟨token, hhead, -⟩ := h.begins
  rintro rfl
  simp at hhead

/-- The span reaches over all the tokens that it spans, because they come in their order. -/
theorem bounds (h : Spans used a) (ho : Ordered used) (htoken : token ∈ used) : a.Holds token := by
  obtain ⟨first, hfirst, hoffset, -⟩ := h.begins
  obtain ⟨last, hlast, hstop⟩ := h.stops
  obtain ⟨rest, rfl⟩ := List.head?_eq_some_iff.1 hfirst
  constructor
  · rw [hoffset]
    rcases List.mem_cons.1 htoken with rfl | htoken
    · exact Nat.le_refl _
    · have hle := (List.pairwise_cons.1 ho).1 token htoken
      exact Nat.le_trans (Nat.le_add_right _ _) hle
  · rw [hstop]
    exact ho.stop_le htoken hlast

/-- Stretching a span over the tokens that follow: the longer span starts where it did and ends
with the last of them. -/
theorem cover (ha : Spans u a) (ho : Ordered used) (hpre : u <+: used)
    (hlast : used.getLast? = some last) (hstop : b.stop = last.span.stop) :
    Spans used (a.cover b) := by
  obtain ⟨first, hhead, hoffset, hline, hcolumn⟩ := ha.begins
  obtain ⟨end_, hend, hstopEnd⟩ := ha.stops
  have hle : a.stop ≤ b.stop := by
    rw [hstopEnd, hstop]
    exact ho.stop_le (hpre.subset (List.mem_of_getLast? hend)) hlast
  have hhead' : used.head? = some first := by
    obtain ⟨rest, rfl⟩ := hpre
    rw [List.head?_append, hhead, Option.some_or]
  rw [Span.cover]
  split
  · exact ⟨⟨first, hhead', hoffset, hline, hcolumn⟩, ⟨last, hlast, by omega⟩⟩
  · refine ⟨⟨first, hhead', hoffset, hline, hcolumn⟩, ⟨last, hlast, ?_⟩⟩
    have hoff : a.offset ≤ a.stop := Nat.le_add_right _ _
    simp only [Span.stop] at *
    omega

/-- The span from the first token to the last spans all tokens in between. -/
theorem ofTokens (ho : Ordered (u ++ [last])) (hfirst : (u ++ [last]).head? = some first) :
    Spans (u ++ [last]) (first.span.cover last.span) := by
  obtain ⟨rest, hrest⟩ := List.head?_eq_some_iff.1 hfirst
  exact (single first).cover ho ⟨rest, hrest.symm⟩ List.getLast?_concat rfl

variable {s s' : Stream}

/-- Stretching a span to the token that was read last: it then spans all that was read. -/
theorem coverLast (ha : Spans u a) (hs : s.Sound) (hread : s.Reads used s') (hpre : u <+: used) :
    Spans used (a.cover s'.lastSpan) := by
  have hne : used ≠ [] := fun h => ha.ne_nil (List.prefix_nil.1 (h ▸ hpre))
  have hlast := List.getLast?_eq_some_getLast hne
  exact ha.cover (hread.ordered hs) hpre hlast (by rw [hread.lastSpan hlast])

/-- The span from the first token to the one read last. -/
theorem toLast (hs : s.Sound) (hread : s.Reads used s') (hfirst : used.head? = some first) :
    Spans used (first.span.cover s'.lastSpan) := by
  obtain ⟨rest, rfl⟩ := List.head?_eq_some_iff.1 hfirst
  exact (single first).coverLast hs hread ⟨rest, rfl⟩

/-- The span from where the first token starts to the end of the one read last. -/
theorem collapseToLast (hs : s.Sound) (hread : s.Reads used s') (hne : used ≠ []) :
    Spans used (s.peek.span.collapse.cover s'.lastSpan) := by
  have hhead := hread.head?_eq hne
  have hlast := List.getLast?_eq_some_getLast hne
  have hle := (hread.ordered hs).stop_le (List.mem_of_mem_head? hhead) hlast
  have hoffset : s.peek.span.collapse.stop ≤ s.peek.span.stop := Nat.le_add_right _ _
  have hkeep : ∀ b : Span, (s.peek.span.collapse.cover b).offset = s.peek.span.offset ∧
      (s.peek.span.collapse.cover b).line = s.peek.span.line ∧
      (s.peek.span.collapse.cover b).column = s.peek.span.column := by
    intro b
    rw [Span.cover]
    split <;> exact ⟨rfl, rfl, rfl⟩
  refine ⟨⟨s.peek, hhead, hkeep _⟩, ⟨_, hlast, ?_⟩⟩
  rw [Span.stop_cover, hread.lastSpan hlast]
  omega

end Spans

/-! ### Spelling -/

/-- A node with the tokens it takes. -/
structure Fits (used : List Token) (n : Node) : Prop where
  layout : n.kind.Layout (n.children.map Node.kind)
  spans : Spans used n.span
  /-- A name starts with an identifier. -/
  named : n.kind = .name → ∃ token, used.head? = some token ∧ token.kind.isIdentifier = true
  /-- No identifier is lost inside an expression. -/
  accounted : n.kind.isOperand = true → Accounted (Placed n.kind n.children) used

/-- Tokens spell nodes. -/
inductive Spells : List Token → List Node → Prop
  | nil : Spells [] []
  /-- A token that no node is made for. -/
  | skip (token : Token) {tokens : List Token} {ns : List Node} (rest : Spells tokens ns) :
    Spells (token :: tokens) ns
  /-- A section without declarations. -/
  | empty (token : Token) {tokens : List Token} {ns : List Node}
    (rest : Spells (token :: tokens) ns) :
    Spells (token :: tokens) (.leaf .declareSection token.span.collapse :: ns)
  | node {used tokens : List Token} {n : Node} {ns : List Node} (fits : Fits used n)
    (inner : Spells used n.children) (rest : Spells tokens ns) :
    Spells (used ++ tokens) (n :: ns)

/-- A node takes exactly the tokens `used`. -/
structure Takes (used : List Token) (n : Node) : Prop where
  fits : Fits used n
  inner : Spells used n.children

namespace Spells

variable {us vs tokens : List Token} {ns ms : List Node}

/-- Tokens of which no node is made spell nothing, however many they are. -/
theorem skips : ∀ us : List Token, Spells us []
  | [] => .nil
  | token :: us => .skip token (skips us)

/-- Two runs of tokens that spell nodes spell both, one behind the other. -/
theorem append (h : Spells us ns) (h' : Spells vs ms) : Spells (us ++ vs) (ns ++ ms) := by
  induction h with
  | nil => exact h'
  | skip token _ ih => exact .skip token ih
  | empty token _ ih => exact .empty token ih
  | node fits inner _ _ ih =>
    rw [List.append_assoc]
    exact .node fits inner ih

/-- A node may be put in front of others, with its tokens in front of theirs. -/
theorem cons {n : Node} (h : Spells us [n]) (h' : Spells vs ms) : Spells (us ++ vs) (n :: ms) :=
  h.append h'

end Spells

namespace Takes

variable {used : List Token} {n : Node}

/-- The tokens that a node takes spell it, together with the nodes below it. -/
theorem spells (h : Takes used n) : Spells used [n] := by
  rw [← List.append_nil used]
  exact .node h.fits h.inner .nil

/-- Every node that takes tokens takes at least one, since it has a first and a last one. -/
theorem ne_nil (h : Takes used n) : used ≠ [] := h.fits.spans.ne_nil

/-- What is no part of an expression takes any tokens that it spans. -/
theorem mk' {kind : Kind} {span : Span} {children : List Node}
    (hlayout : kind.Layout (children.map Node.kind)) (hkind : kind.isOperand = false)
    (hspan : Spans used span) (hinner : Spells used children) :
    Takes used (.mk kind span children) where
  fits := by
    refine ⟨hlayout, hspan, fun hname => ?_, fun hoperand => ?_⟩
    · obtain rfl : kind = .name := hname
      cases hkind
    · exact absurd (hkind.symm.trans hoperand) (by simp)
  inner := hinner

/-- What is no part of an expression and has no parts. -/
theorem leaf {kind : Kind} {span : Span} (hlayout : kind.Layout []) (hkind : kind.isOperand = false)
    (hspan : Spans used span) : Takes used (.leaf kind span) :=
  mk' hlayout hkind hspan (Spells.skips used)

/-- An expression or an argument takes the tokens that it spans, if it accounts for the
identifiers among them. -/
theorem operand {kind : Kind} {span : Span} {children : List Node}
    (hlayout : kind.Layout (children.map Node.kind)) (hname : kind ≠ .name)
    (hspan : Spans used span) (hinner : Spells used children)
    (haccounted : Accounted (Placed kind children) used) : Takes used (.mk kind span children) :=
  ⟨⟨hlayout, hspan, fun h => absurd h hname, fun _ => haccounted⟩, hinner⟩

/-- A literal takes the tokens it spans, if they are words that a literal is written with or no
identifiers. -/
theorem literal {span : Span} (hspan : Spans used span)
    (hwords : ∀ token ∈ used, token.Writes Kind.literal.words) :
    Takes used (.leaf .literal span) :=
  operand rfl (by simp) hspan (Spells.skips used) (.words hwords)

/-- A query in parentheses takes the tokens it spans, whatever they are, for it is skipped. -/
theorem query {span : Span} (hspan : Spans used span) : Takes used (.leaf .staticQuery span) :=
  operand rfl (by simp) hspan (Spells.skips used)
    (.of_forall fun _ _ => .inr (.whole (.inr rfl)))

/-- A name takes the identifier that it is and nothing else, be it quoted or not. -/
theorem name {token : Token} (h : token.kind.isIdentifier = true) :
    Takes [token] (.leaf .name token.span) where
  fits := ⟨rfl, Spans.single token, fun _ => ⟨token, rfl, h⟩,
    fun _ => .of_forall fun _ _ => .inr (.whole (.inl rfl))⟩
  inner := Spells.skips _

end Takes

/-- Some tokens that are skipped, and then those of a node of a wanted kind. -/
def Phrase (wanted : Kind → Bool) (used : List Token) (n : Node) : Prop :=
  ∃ skipped us, used = skipped ++ us ∧ Takes us n ∧ wanted n.kind = true

namespace Phrase

variable {wanted wanted' : Kind → Bool} {used : List Token} {n : Node}

/-- A node that takes its tokens is a phrase in which none is skipped. -/
theorem ofTakes (h : Takes used n) (hkind : wanted n.kind = true) : Phrase wanted used n :=
  ⟨[], used, rfl, h, hkind⟩

/-- The node of a phrase is of a wanted kind. -/
theorem kind (h : Phrase wanted used n) : wanted n.kind = true := by
  obtain ⟨skipped, us, -, -, hkind⟩ := h
  exact hkind

/-- The tokens of a phrase spell its node, those in front of it being skipped. -/
theorem spells (h : Phrase wanted used n) : Spells used [n] := by
  obtain ⟨skipped, us, rfl, htakes, -⟩ := h
  exact (Spells.skips skipped).append htakes.spells

/-- A phrase has tokens, since its node takes some. -/
theorem ne_nil (h : Phrase wanted used n) : used ≠ [] := by
  obtain ⟨skipped, us, rfl, htakes, -⟩ := h
  simp [htakes.ne_nil]

/-- More tokens may be skipped in front of a phrase. -/
theorem skip (h : Phrase wanted used n) (before : List Token) :
    Phrase wanted (before ++ used) n := by
  obtain ⟨skipped, us, rfl, htakes, hkind⟩ := h
  exact ⟨before ++ skipped, us, by simp, htakes, hkind⟩

/-- What is wanted of the kind of a phrase may be weakened. -/
theorem mono (h : Phrase wanted used n) (himp : ∀ kind, wanted kind = true → wanted' kind = true) :
    Phrase wanted' used n := by
  obtain ⟨skipped, us, rfl, htakes, hkind⟩ := h
  exact ⟨skipped, us, rfl, htakes, himp _ hkind⟩

end Phrase

/-- Tokens that spell nodes of a wanted kind. -/
structure Phrases (wanted : Kind → Bool) (used : List Token) (ns : List Node) : Prop where
  spells : Spells used ns
  kinds : ∀ n ∈ ns, wanted n.kind = true

namespace Phrases

variable {wanted wanted' : Kind → Bool} {us vs : List Token} {ns ms : List Node}

/-- Tokens of which no node is made spell no phrases. -/
theorem none (us : List Token) : Phrases wanted us [] := ⟨Spells.skips us, by simp⟩

/-- A phrase is spelled by its own tokens as the only one. -/
theorem one {n : Node} (h : Phrase wanted us n) : Phrases wanted us [n] :=
  ⟨h.spells, by simpa using h.kind⟩

/-- Phrases of two runs of tokens are phrases of both runs together. -/
theorem append (h : Phrases wanted us ns) (h' : Phrases wanted vs ms) :
    Phrases wanted (us ++ vs) (ns ++ ms) where
  spells := h.spells.append h'.spells
  kinds := by
    intro n hn
    rcases List.mem_append.1 hn with hn | hn
    · exact h.kinds n hn
    · exact h'.kinds n hn

/-- More tokens may be skipped behind phrases without changing their nodes. -/
theorem skip (h : Phrases wanted us ns) (vs : List Token) : Phrases wanted (us ++ vs) ns := by
  simpa using h.append (none vs)

/-- What is wanted of the kinds of phrases may be weakened. -/
theorem mono (h : Phrases wanted us ns)
    (himp : ∀ kind, wanted kind = true → wanted' kind = true) : Phrases wanted' us ns :=
  ⟨h.spells, fun n hn => himp _ (h.kinds n hn)⟩

/-- No phrases, or one, are at most one part of a wanted kind, as layouts ask for it. -/
theorem atMostOne (h : Phrases wanted us ns) (hlength : ns.length ≤ 1) :
    Kind.AtMostOne wanted (ns.map Node.kind) := ⟨by simpa using hlength, by simpa using h.kinds⟩

/-- All phrases in a list are of a wanted kind, which is what a layout asks of them. -/
theorem mapKinds (h : Phrases wanted us ns) : ∀ kind ∈ ns.map Node.kind, wanted kind = true := by
  simpa using h.kinds

end Phrases

namespace Parser

variable {wanted : Kind → Bool} {item : Parser Node}

/-- A list with commas is spelled by its items, and there is at least one of them. -/
theorem separated_phrases (hitem : item.Gives (Phrase wanted)) :
    (separated item).Gives fun u ns => Phrases wanted u ns ∧ ns ≠ [] := by
  refine separated_gives hitem ?_ ?_
  · intro v n hn
    exact ⟨.one hn, by simp⟩
  · rintro u ns comma v n - ⟨hns, _⟩ hn
    exact ⟨hns.append (.one (hn.skip [comma])), by simp⟩

/-- Items that are read as long as a test holds are spelled one after the other. -/
theorem many_phrases {more : Stream → Bool} (hitem : item.GivesAt (more · = true) (Phrase wanted)) :
    (many more item).Gives (Phrases wanted) :=
  many_gives hitem (.none []) fun _ _ _ _ hns hn => hns.append (.one hn)

section Choice

variable {β : Type} {c : Prop} [Decidable c] {f : List Node → Parser β} {b : β}
  {s₀ s s' : Stream} {u : List Token}

/-- Phrases that are read only where a condition holds are phrases either way: elsewhere no token
is read and there is no node. -/
theorem when_phrases {p : Parser (List Node)} {guard : Stream → Prop}
    (hp : p.GivesAt guard (Phrases wanted)) (hs : s₀.Sound) (hread : s₀.Reads u s)
    (hguard : c → guard s) (h : (if c then p >>= f else pure [] >>= f) s = .ok (b, s')) :
    ∃ ns s₁ v, s₀.Reads (u ++ v) s₁ ∧ Phrases wanted v ns ∧ f ns s₁ = .ok (b, s') := by
  split at h
  case isTrue hc =>
    exact hp.bind hs hread (hguard hc) h
  case isFalse => exact ⟨[], s, [], by simpa using hread, .none [], h⟩

/-- An item that is read only where a condition holds. -/
theorem when_item {guard : Stream → Prop} {post : List Token → Node → Prop}
    (hitem : item.GivesAt guard post) (hs : s₀.Sound) (hread : s₀.Reads u s) (hguard : c → guard s)
    (h : (if c then item >>= fun n => pure [n] >>= f else pure [] >>= f) s = .ok (b, s')) :
    ∃ ns s₁ v, s₀.Reads (u ++ v) s₁ ∧ ((∃ n, ns = [n] ∧ post v n) ∨ ns = [] ∧ v = []) ∧
      f ns s₁ = .ok (b, s') := by
  split at h
  case isTrue hc =>
    obtain ⟨n, s₁, v, hread₁, hn, h⟩ := hitem.bind hs hread (hguard hc) h
    exact ⟨[n], s₁, v, hread₁, .inl ⟨n, rfl, hn⟩, h⟩
  case isFalse => exact ⟨[], s, [], by simpa using hread, .inr ⟨rfl, rfl⟩, h⟩

/-- A phrase that is read only where a condition holds. -/
theorem when_phrase {guard : Stream → Prop} (hitem : item.GivesAt guard (Phrase wanted))
    (hs : s₀.Sound) (hread : s₀.Reads u s) (hguard : c → guard s)
    (h : (if c then item >>= fun n => pure [n] >>= f else pure [] >>= f) s = .ok (b, s')) :
    ∃ ns s₁ v, s₀.Reads (u ++ v) s₁ ∧ (Phrases wanted v ns ∧ ns.length ≤ 1) ∧
      f ns s₁ = .ok (b, s') := by
  obtain ⟨ns, s₁, v, hread₁, ⟨n, rfl, hn⟩ | ⟨rfl, rfl⟩, h⟩ := when_item hitem hs hread hguard h
  · exact ⟨[n], s₁, v, hread₁, ⟨.one hn, by simp⟩, h⟩
  · exact ⟨[], s₁, [], hread₁, ⟨.none [], by simp⟩, h⟩

/-- A phrase that is read unless a condition holds leaves one node or none. -/
theorem unless_phrase (hitem : item.Gives (Phrase wanted)) (hs : s₀.Sound) (hread : s₀.Reads u s)
    (h : (if c then pure [] >>= f else item >>= fun n => pure [n] >>= f) s = .ok (b, s')) :
    ∃ ns s₁ v, s₀.Reads (u ++ v) s₁ ∧ (Phrases wanted v ns ∧ ns.length ≤ 1) ∧
      f ns s₁ = .ok (b, s') := by
  rw [← ite_not] at h
  exact when_phrase hitem hs hread (fun _ => trivial) h

end Choice

/-- Items that leave several nodes each: read in a loop, they leave the phrases of all of them, in
order. -/
theorem many_flatten_phrases {more : Stream → Bool} {item : Parser (List Node)}
    (hitem : item.GivesAt (more · = true) (Phrases wanted)) :
    (many more item).Gives fun u lists => Phrases wanted u lists.flatten := by
  refine many_gives hitem (.none []) ?_
  intro u lists v ns hlists hns
  simpa using hlists.append hns

/-- Items that leave a node or none: read in a loop, they leave the phrases of those that are
there. -/
theorem many_filterMap_phrases {more : Stream → Bool} {item : Parser (Option Node)}
    (hitem : item.GivesAt (more · = true) fun u n => Phrases wanted u n.toList) :
    (many more item).Gives fun u ns => Phrases wanted u (ns.filterMap id) := by
  refine many_gives hitem (.none []) ?_
  intro u ns v n hns hn
  cases n <;> simpa using hns.append hn

end Parser

/-! ### Going down -/

/-- A node of a program that is spelled by `tokens`. -/
def Spelled (tokens : List Token) (n : Node) : Prop :=
  (∃ us, us <:+: tokens ∧ Takes us n) ∨
    ∃ token ∈ tokens, n = .leaf .declareSection token.span.collapse

/-- A node that fits a run of tokens fits in any text that the run is part of. -/
theorem Spelled.of_isInfix {us tokens : List Token} {n : Node} (h : Spelled us n)
    (hsub : us <:+: tokens) : Spelled tokens n := by
  rcases h with ⟨vs, hvs, htakes⟩ | ⟨token, htoken, rfl⟩
  · exact .inl ⟨vs, hvs.trans hsub, htakes⟩
  · exact .inr ⟨token, hsub.subset htoken, rfl⟩

namespace Spells

variable {tokens : List Token} {ns : List Node}

/-- Each node that tokens spell fits a run of them. -/
theorem spelled_of_mem (h : Spells tokens ns) {n : Node} (hn : n ∈ ns) : Spelled tokens n := by
  induction h with
  | nil => simp at hn
  | skip token _ ih => exact (ih hn).of_isInfix (List.suffix_cons _ _).isInfix
  | empty token _ ih =>
    rcases List.mem_cons.1 hn with rfl | hn
    · exact .inr ⟨token, List.mem_cons_self, rfl⟩
    · exact ih hn
  | @node used tokens _ _ fits inner _ _ ih =>
    rcases List.mem_cons.1 hn with rfl | hn
    · exact .inl ⟨used, (List.prefix_append _ _).isInfix, fits, inner⟩
    · exact (ih hn).of_isInfix (List.suffix_append _ _).isInfix

/-- Whatever stands below a place whose parts are spelled is spelled. -/
theorem spelled {p q : Place} (h : Spells tokens p.node.children) (hq : q ∈ p.descendants) :
    Spelled tokens q.node := by
  induction p using Place.induction_below generalizing tokens with
  | step p ih =>
    obtain ⟨c, hc, hqc⟩ := Place.mem_descendants.1 hq
    have hnode : c.node ∈ p.node.children := by
      rw [← Place.map_node_children]
      exact List.mem_map_of_mem hc
    have hspelled := h.spelled_of_mem hnode
    rcases Place.mem_subtree.1 hqc with rfl | hqc
    · exact hspelled
    · rcases hspelled with ⟨us, hus, htakes⟩ | ⟨token, -, hleaf⟩
      · exact (ih c hc htakes.inner hqc).of_isInfix hus
      · obtain ⟨d, hd, -⟩ := Place.mem_descendants.1 hqc
        have hd' : d.node ∈ c.node.children := by
          rw [← Place.map_node_children]
          exact List.mem_map_of_mem hd
        simp [hleaf, Node.leaf, Node.children] at hd'

end Spells

/-- The kinds under a node of a program follow its layout. -/
theorem Spelled.layout {tokens : List Token} {n : Node} (h : Spelled tokens n) :
    n.kind.Layout (n.children.map Node.kind) := by
  rcases h with ⟨us, -, htakes⟩ | ⟨token, -, rfl⟩
  · exact htakes.fits.layout
  · simp [Node.leaf, Node.kind, Node.children, Kind.Layout]

end PlsqlAudit
