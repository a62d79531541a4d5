import PlsqlAudit.Grammar.Expression
import PlsqlAudit.Proofs.Reading

/-!
# The words between the parts of an expression

An expression is written with the tokens of its parts and with tokens of its own
between them.  Few of the latter are identifiers: the words that the expression is
written with, an attribute behind a percent sign, the name of a database link behind
an at sign, and in an argument whatever follows the value.  All others belong to a
part, unless the expression is a name or a query and has no parts.

`Accounted` follows the tokens from left to right, so that the tokens of phrases that are
read one after the other can be put together.
-/

namespace PlsqlAudit

/-! ### Words -/

/-- The words that an operator between operands is written with.  A comparison that is
negated has the `NOT` in front of the operator. -/
def BinaryOp.words : BinaryOp → List String
  | .or => ["or"]
  | .and => ["and"]
  | .mod => ["mod"]
  | .like => ["not", "like", "escape"]
  | .member => ["not", "in"]
  | .between => ["not", "between", "and"]
  | _ => []

/-- The words that an operator on one operand is written with. -/
def UnaryOp.words : UnaryOp → List String
  | .not => ["not"]
  | .prior => ["prior"]
  | .isNull => ["is", "null"]
  | .isNotNull => ["is", "not", "null"]
  | _ => []

/-- The words that an expression or an argument is written with, besides those of its
parts.  `NEW` may stand in front of every part but the first. -/
def Kind.words : Kind → List String
  | .literal => ["null", "true", "false", "date", "timestamp", "interval"] ++ Grammar.intervalWords
  | .binary op => "new" :: op.words
  | .unary op => "new" :: op.words
  | .parenthesized => ["new"]
  | .caseExpression => ["new", "case", "when", "then", "else", "end"]
  | .argument => ["new", "distinct"]
  | _ => []

/-- Signs that make the word behind them something else than a name in the program. -/
def TokenKind.isLink : TokenKind → Bool
  | .percent | .atSign => true
  | _ => false

/-- A token that may stand between parts that are written with the given words. -/
def Token.Writes (words : List String) (token : Token) : Prop :=
  token.kind.isIdentifier = false ∨ token.isAnyWord words = true

theorem Token.isAnyWord_mono {words words' : List String} {token : Token} (h : words ⊆ words')
    (htoken : token.isAnyWord words = true) : token.isAnyWord words' = true := by
  simp only [isAnyWord, Bool.and_eq_true, List.contains_iff_mem] at htoken ⊢
  exact ⟨htoken.1, h htoken.2⟩

theorem Token.writes_of_isWord {words : List String} {word : String} {token : Token}
    (h : token.isWord word = true) (hword : word ∈ words) : token.Writes words := by
  simp only [isWord, Bool.and_eq_true, beq_iff_eq] at h
  right
  simp [isAnyWord, h.1, h.2, hword]

theorem Token.writes_of_isAnyWord {words words' : List String} {token : Token}
    (h : token.isAnyWord words = true) (hwords : words ⊆ words') : token.Writes words' :=
  .inr (token.isAnyWord_mono hwords h)

theorem Token.writes_of_kind {words : List String} {kind : TokenKind} {token : Token}
    (h : token.kind = kind) (hkind : kind.isIdentifier = false) : token.Writes words :=
  .inl (h ▸ hkind)

theorem Token.Writes.single {words : List String} {token : Token} (h : token.Writes words) :
    ∀ other ∈ [token], other.Writes words := by
  simpa using h

/-! ### Tokens from left to right -/

/-- The span reaches over the token. -/
def Span.Holds (span : Span) (token : Token) : Prop :=
  span.offset ≤ token.span.offset ∧ token.span.stop ≤ span.stop

instance (span : Span) (token : Token) : Decidable (span.Holds token) :=
  inferInstanceAs (Decidable (_ ∧ _))

/-- All identifiers pass a test, except those behind a sign for an attribute or a
link. -/
inductive Accounted (test : Token → Prop) : List Token → Prop
  | nil : Accounted test []
  | other (token : Token) {tokens : List Token} (h : token.kind.isIdentifier = false)
    (rest : Accounted test tokens) : Accounted test (token :: tokens)
  | passes (token : Token) {tokens : List Token} (h : test token) (rest : Accounted test tokens) :
    Accounted test (token :: tokens)
  | link (sign word : Token) {tokens : List Token} (h : sign.kind.isLink = true)
    (rest : Accounted test tokens) : Accounted test (sign :: word :: tokens)

namespace Accounted

variable {test test' : Token → Prop} {u v : List Token} {token : Token}

theorem append (h : Accounted test u) (h' : Accounted test v) : Accounted test (u ++ v) := by
  induction h with
  | nil => exact h'
  | other token h _ ih => exact .other token h ih
  | passes token h _ ih => exact .passes token h ih
  | link sign word h _ ih => exact .link sign word h ih

theorem mono (h : Accounted test u) (himp : ∀ token, test token → test' token) :
    Accounted test' u := by
  induction h with
  | nil => exact .nil
  | other token h _ ih => exact .other token h ih
  | passes token h _ ih => exact .passes token (himp token h) ih
  | link sign word h _ ih => exact .link sign word h ih

theorem of_forall (h : ∀ token ∈ u, token.kind.isIdentifier = false ∨ test token) :
    Accounted test u := by
  induction u with
  | nil => exact .nil
  | cons token u ih =>
    have hrest := ih fun other hother => h other (List.mem_cons_of_mem _ hother)
    rcases h token List.mem_cons_self with hother | hpasses
    · exact .other token hother hrest
    · exact .passes token hpasses hrest

/-- An identifier with no sign in front of it passes the test. -/
theorem test_of_mem (h : Accounted test u) (htoken : token ∈ u)
    (hidentifier : token.kind.isIdentifier = true)
    (hlink : ∀ sign, [sign, token] <:+: u → sign.kind.isLink = false) : test token := by
  induction h with
  | nil => cases htoken
  | other first hfirst _ ih =>
    rcases List.mem_cons.1 htoken with rfl | htoken
    · rw [hfirst] at hidentifier
      cases hidentifier
    · exact ih htoken fun sign hsign => hlink sign (hsign.trans (List.suffix_cons _ _).isInfix)
  | passes first hfirst _ ih =>
    rcases List.mem_cons.1 htoken with rfl | htoken
    · exact hfirst
    · exact ih htoken fun sign hsign => hlink sign (hsign.trans (List.suffix_cons _ _).isInfix)
  | link sign word hsign _ ih =>
    rcases List.mem_cons.1 htoken with rfl | htoken
    · cases hkind : token.kind <;> simp [hkind, TokenKind.isLink] at hsign
      all_goals simp [hkind, TokenKind.isIdentifier] at hidentifier
    · rcases List.mem_cons.1 htoken with rfl | htoken
      · have hnone := hlink sign ⟨[], _, rfl⟩
        rw [hsign] at hnone
        cases hnone
      · exact ih htoken fun other hother =>
          hlink other (hother.trans (List.suffix_append [sign, word] _).isInfix)

end Accounted

/-! ### Identifiers and the parts of a node -/

/-- An identifier that belongs to one of the nodes or is one of the words. -/
def Among (words : List String) (ns : List Node) (token : Token) : Prop :=
  token.isAnyWord words = true ∨ ∃ n ∈ ns, n.span.Holds token

theorem Among.mono {words words' : List String} {ns ms : List Node} {token : Token}
    (h : Among words ns token) (hwords : words ⊆ words') (hsub : ns ⊆ ms) :
    Among words' ms token := by
  rcases h with hword | ⟨n, hn, hholds⟩
  · exact .inl (token.isAnyWord_mono hwords hword)
  · exact .inr ⟨n, hsub hn, hholds⟩

/-- What becomes of an identifier that stands in an expression or an argument of the
given kind, with the given parts. -/
inductive Placed (kind : Kind) (parts : List Node) (token : Token) : Prop
  /-- It stands in a name, or in a query, which has no parts. -/
  | whole (h : kind = .name ∨ kind = .staticQuery)
  | among (h : Among kind.words parts token)
  /-- It stands behind the value of an argument. -/
  | behind (value : Node) (hkind : kind = .argument) (hvalue : parts.getLast? = some value)
    (h : value.span.stop ≤ token.span.offset)

theorem Accounted.words {kind : Kind} {parts : List Node} {u : List Token}
    (h : ∀ token ∈ u, token.Writes kind.words) : Accounted (Placed kind parts) u :=
  .of_forall fun token htoken => (h token htoken).imp_right fun hword => .among (.inl hword)

end PlsqlAudit
