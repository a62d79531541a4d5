import Mathlib.Data.List.Infix
import PlsqlAudit.Proofs.NestedSpans
import PlsqlAudit.Proofs.NodeLayout
import PlsqlAudit.Proofs.Origins
import PlsqlAudit.Proofs.TokenGaps

/-!
# Which identifiers of an expression are names

A search follows the names in the expression that is executed, so an identifier counts
only if a name was made for it.  Each token of an expression stands directly in one
node, the innermost one that spans it.  If the token is an identifier and that node is
no name, the identifier is a word that such nodes are written with, or it follows the
value of an argument, as the second operand of `TRIM(BOTH ' ' FROM x)` does.

What follows a percent sign or an at sign is left out, and so are queries, which are
read without looking at what is in them.
-/

namespace PlsqlAudit

/-! ### Tokens under a span -/

/-- A node that spans a token has taken it. -/
theorem Spans.mem_of_holds {used tokens : List Token} {a : Span} {token : Token}
    (h : Spans used a) (hsub : used <:+: tokens) (ho : Ordered tokens) (htoken : token ∈ tokens)
    (hlength : 0 < token.span.length) (hholds : a.Holds token) : token ∈ used := by
  obtain ⟨before, after, rfl⟩ := hsub
  obtain ⟨first, hfirst, hoffset, -⟩ := h.begins
  obtain ⟨last, hlast, hstop⟩ := h.stops
  obtain ⟨hlow, hhigh⟩ := hholds
  have hsize : token.span.stop = token.span.offset + token.span.length := rfl
  obtain ⟨hfront, -, hback⟩ := List.pairwise_append.1 ho
  rcases List.mem_append.1 htoken with htoken | htoken
  · rcases List.mem_append.1 htoken with htoken | htoken
    · have hle := (List.pairwise_append.1 hfront).2.2 token htoken first
        (List.mem_of_mem_head? hfirst)
      omega
    · exact htoken
  · have hle := hback last (List.mem_append_right _ (List.mem_of_getLast? hlast)) token htoken
    omega

namespace Place

variable {p q r c d : Place} {token : Token}

/-- The place is the innermost one that spans the token. -/
structure Innermost (q : Place) (token : Token) : Prop where
  holds : q.span.Holds token
  direct : ∀ c ∈ q.children, ¬ c.span.Holds token

theorem exists_innermost (h : p.span.Holds token) : ∃ q ∈ p.subtree, q.Innermost token := by
  induction p using induction_below with
  | step p ih =>
    by_cases hinner : ∃ c ∈ p.children, c.span.Holds token
    · obtain ⟨c, hc, hholds⟩ := hinner
      obtain ⟨q, hq, hinnermost⟩ := ih c hc hholds
      exact ⟨q, mem_subtree.2 (.inr (mem_descendants.2 ⟨c, hc, hq⟩)), hinnermost⟩
    · exact ⟨p, mem_subtree.2 (.inl rfl), h, fun c hc hholds => hinner ⟨c, hc, hholds⟩⟩

/-- No two parts of a node span the same token. -/
theorem eq_of_holds (h : p.node.Rowed) (hlength : 0 < token.span.length) (hc : c ∈ p.children)
    (hd : d ∈ p.children) (hholds : c.span.Holds token) (hholds' : d.span.Holds token) : c = d := by
  have hdisjoint : ∀ a b : Place, a.span.stop ≤ b.span.offset →
      ¬ (a.span.Holds token ∧ b.span.Holds token) := by
    rintro a b hle ⟨⟨-, hhigh⟩, hlow, -⟩
    have hsize : token.span.stop = token.span.offset + token.span.length := rfl
    omega
  have hapart := apart_children h
  refine List.Pairwise.forall_of_forall_of_flip
    (R := fun a b => a.span.Holds token → b.span.Holds token → a = b) (fun _ _ _ _ => rfl)
    (hapart.imp ?_) (hapart.imp ?_) hc hd hholds hholds'
  · intro a b hle ha hb
    exact absurd ⟨ha, hb⟩ (hdisjoint a b hle)
  · intro a b hle hb ha
    exact absurd ⟨ha, hb⟩ (hdisjoint a b hle)

/-- What spans a token below the place is above the innermost place that does. -/
theorem Innermost.mem_subtree (hq : q.Innermost token) (h : ∀ a ∈ p.subtree, a.node.Rowed)
    (hlength : 0 < token.span.length) (hqp : q ∈ p.subtree) (hrp : r ∈ p.subtree)
    (hholds : r.span.Holds token) : q ∈ r.subtree := by
  induction p using induction_below with
  | step p ih =>
    have hbelow : ∀ c ∈ p.children, ∀ a ∈ c.subtree, a.node.Rowed := by
      intro c hc a ha
      exact h a (Place.mem_subtree.2 (.inr (mem_descendants.2 ⟨c, hc, ha⟩)))
    have hspans : ∀ c ∈ p.children, ∀ a ∈ c.subtree, a.span.Holds token → c.span.Holds token := by
      intro c hc a ha hholds
      have hwithin := within_of_rowed (hbelow c hc) ha
      exact ⟨Nat.le_trans hwithin.1 hholds.1, Nat.le_trans hholds.2 hwithin.2⟩
    rcases Place.mem_subtree.1 hrp with rfl | hr
    · exact hqp
    obtain ⟨c, hc, hrc⟩ := mem_descendants.1 hr
    have hcholds := hspans c hc r hrc hholds
    rcases Place.mem_subtree.1 hqp with rfl | hqp
    · exact absurd hcholds (hq.direct c hc)
    obtain ⟨d, hd, hqd⟩ := mem_descendants.1 hqp
    obtain rfl : c = d := eq_of_holds (h p (Place.mem_subtree.2 (.inl rfl))) hlength hc hd hcholds
      (hspans d hd q hqd hq.holds)
    exact ih c hc (hbelow c hc) hqd hrc

/-- An identifier stands directly in the place, and no name is made for it: it is one
of the words that the node is written with, or follows the value of an argument. -/
structure Drops (q : Place) (token : Token) : Prop extends q.Innermost token where
  dropped : token.isAnyWord q.kind.words = true ∨
    ∃ value, q.argumentValue? = some value ∧ value.span.stop ≤ token.span.offset

/-- A name drops nothing. -/
theorem Drops.kind_ne_name (h : q.Drops token) : q.kind ≠ .name := by
  intro hname
  rcases h.dropped with hword | ⟨value, hvalue, -⟩
  · simp [hname, Kind.words, Token.isAnyWord] at hword
  · simp [argumentValue?, hname] at hvalue

/-- The ways in which a token can stand directly in a place. -/
theorem Innermost.drops_of_placed (h : q.Innermost token)
    (hplaced : Placed q.kind q.node.children token) :
    (q.kind = .name ∨ q.kind = .staticQuery) ∨ q.Drops token := by
  cases hplaced with
  | whole hkind => exact .inl hkind
  | among hamong =>
    rcases hamong with hword | ⟨n, hn, hholds⟩
    · exact .inr ⟨h, .inl hword⟩
    · rw [← map_node_children] at hn
      obtain ⟨c, hc, rfl⟩ := List.mem_map.1 hn
      exact absurd hholds (h.direct c hc)
  | behind value hkind hvalue hbehind =>
    rw [← map_node_children, List.getLast?_map] at hvalue
    obtain ⟨c, hc, rfl⟩ := Option.map_eq_some_iff.1 hvalue
    exact .inr ⟨h, .inr ⟨c, by rw [argumentValue?, if_pos hkind, hc], hbehind⟩⟩

end Place

/-! ### Expressions of a program -/

/-- One of the tokens is an identifier, and the one in front of it makes it no attribute
and no link. -/
structure Token.StandsFree (tokens : List Token) (token : Token) : Prop where
  mem : token ∈ tokens
  identifier : token.kind.isIdentifier = true
  unlinked : ∀ sign, [sign, token] <:+: tokens → sign.kind.isLink = false

namespace Tree

variable {source : String} {t : Tree} {tokens : TokenSequence} {p q : Place} {token : Token}

/-- An identifier that an expression spans is accounted for. -/
theorem placed_of_parse (h : parse source = .ok t) (htokens : tokenize source = .ok tokens)
    (hq : q ∈ t.top.descendants) (hkind : q.kind.isOperand = true)
    (hfree : token.StandsFree tokens.tokens) (hholds : q.span.Holds token) :
    Placed q.kind q.node.children token := by
  obtain ⟨tokens', htokens', hspelled⟩ := spelled_of_parse h hq
  obtain rfl := Except.ok.inj (htokens.symm.trans htokens')
  rcases hspelled with ⟨us, hus, htakes⟩ | ⟨first, -, hleaf⟩
  · have hmem := htakes.fits.spans.mem_of_holds hus (Stream.sound_start htokens).ordered hfree.mem
      (length_pos_of_tokenize htokens hfree.mem) hholds
    exact (htakes.fits.accounted hkind).test_of_mem hmem hfree.identifier fun sign hsign =>
      hfree.unlinked sign (hsign.trans hus)
  · rw [Place.kind, hleaf] at hkind
    cases hkind

/-- In an expression of a program an identifier outside queries is a name unless it is
dropped. -/
theorem named_iff_of_operand (h : parse source = .ok t) (htokens : tokenize source = .ok tokens)
    (hp : p ∈ t.top.descendants) (hkind : p.kind.isOperand = true)
    (hfree : token.StandsFree tokens.tokens) (hholds : p.span.Holds token)
    (hquery : ∀ q ∈ p.subtree, q.kind = .staticQuery → ¬ q.span.Holds token) :
    (∃ name ∈ p.subtree, name.kind = .name ∧ name.span.Holds token) ↔
      ¬ ∃ q ∈ p.subtree, q.Drops token := by
  have hlaid := laidOut_of_parse h
  have hmem : p ∈ t.places := mem_places.2 (.inr hp)
  have hplaces : ∀ q ∈ p.subtree, q ∈ t.places := fun q hq => subtree_subset_places hmem hq
  constructor
  · rintro ⟨name, hname, hnamed, hspan⟩ ⟨q, hq, hdrops⟩
    have hbelow := hdrops.toInnermost.mem_subtree (fun a ha => rowed_of_parse h (hplaces a ha))
      (length_pos_of_tokenize htokens hfree.mem) hq hname hspan
    have hleaf : name.children = [] := by
      have hlayout := hlaid name (hplaces name hname)
      rw [hnamed] at hlayout
      simpa [Kind.Layout] using hlayout
    rcases Place.mem_subtree.1 hbelow with rfl | hbelow
    · exact hdrops.kind_ne_name hnamed
    · obtain ⟨c, hc, -⟩ := Place.mem_descendants.1 hbelow
      simp [hleaf] at hc
  · intro hnone
    obtain ⟨q, hq, hinnermost⟩ := Place.exists_innermost hholds
    have hbelow : q ∈ t.top.descendants ∧ q.kind.isOperand = true := by
      rcases Place.mem_subtree.1 hq with rfl | hq
      · exact ⟨hp, hkind⟩
      · exact ⟨Place.descendants_subset hp hq, hlaid.isOperand hmem hkind hq⟩
    have hplaced := placed_of_parse h htokens hbelow.1 hbelow.2 hfree hinnermost.holds
    rcases hinnermost.drops_of_placed hplaced with (hname | hstatic) | hdrops
    · exact ⟨q, hq, hname, hinnermost.holds⟩
    · exact absurd hinnermost.holds (hquery q hq hstatic)
    · exact absurd ⟨q, hq, hdrops⟩ hnone

/-- **Which identifiers of an executed text are names.**  An `EXECUTE IMMEDIATE` has an
expression, and an identifier that the expression spans, outside queries and not behind
a sign for an attribute or a link, is covered by a name in it except where it is
dropped: where it is one of the words that the node it stands directly in is written
with, or follows the value of an argument. -/
theorem executed_named_iff (h : parse source = .ok t) (htokens : tokenize source = .ok tokens)
    {statement : Place} (hstatement : statement ∈ t.places)
    (hkind : statement.kind = .executeImmediate) :
    ∃ sql, statement.executedSql? = some sql ∧
      ∀ token : Token, token.StandsFree tokens.tokens → sql.span.Holds token →
        (∀ q ∈ sql.subtree, q.kind = .staticQuery → ¬ q.span.Holds token) →
        ((∃ name ∈ sql.subtree, name.kind = .name ∧ name.span.Holds token) ↔
          ¬ ∃ q ∈ sql.subtree, q.Drops token) := by
  obtain ⟨sql, hsql, hhead, hexpression⟩ :=
    (laidOut_of_parse h).executedSql?_eq_some hstatement hkind
  refine ⟨sql, hsql, fun token hfree hholds hquery => ?_⟩
  have hchild := List.mem_of_mem_head? hhead
  have hbelow : sql ∈ t.top.descendants := by
    rcases mem_places.1 hstatement with rfl | hstatement
    · exact Place.mem_descendants_of_mem_children hchild
    · exact Place.children_subset_descendants hstatement hchild
  exact named_iff_of_operand h htokens hbelow (Kind.isOperand_of_isExpression hexpression) hfree
    hholds hquery

/-- Looks for an `EXECUTE IMMEDIATE` whose expression spans an identifier, outside queries
and behind no sign for an attribute or a link, that passes a test. -/
def findsIdentifier (test : Tree → Place → Token → Bool) (t : Tree) : Bool :=
  (tokenize t.source).toOption.any fun tokens =>
    t.places.any fun statement => statement.executedSql?.any fun sql =>
      tokens.tokens.any fun token => token.kind.isIdentifier && decide (sql.span.Holds token) &&
        sql.subtree.all (fun q => q.kind != .staticQuery || !decide (q.span.Holds token)) &&
        test t sql token &&
        tokens.tokens.all fun sign => !sign.kind.isLink ||
          !decide ([sign, token] <:+: tokens.tokens)

theorem exists_of_findsIdentifier {test : Tree → Place → Token → Bool}
    (h : parse source = .ok t) (hfound : findsIdentifier test t = true) :
    ∃ tokens statement sql token, tokenize source = .ok tokens ∧ statement ∈ t.places ∧
      statement.kind = .executeImmediate ∧ statement.executedSql? = some sql ∧
      token.StandsFree tokens.tokens ∧ sql.span.Holds token ∧
      (∀ q ∈ sql.subtree, q.kind = .staticQuery → ¬ q.span.Holds token) ∧
      test t sql token = true := by
  obtain ⟨hsource, -⟩ := parse_spells h
  simp only [findsIdentifier, hsource, Option.any_eq_true, List.any_eq_true, List.all_eq_true,
    Bool.and_eq_true, Bool.or_eq_true, Bool.not_eq_true', decide_eq_true_eq,
    decide_eq_false_iff_not, bne_iff_ne] at hfound
  obtain ⟨tokens, htokens, statement, hstatement, sql, hsql, token, htoken,
    ⟨⟨⟨hidentifier, hholds⟩, hquery⟩, htest⟩, hlink⟩ := hfound
  refine ⟨tokens, statement, sql, token, ?_, hstatement, Place.kind_of_executedSql? hsql, hsql,
    ⟨htoken, hidentifier, fun sign hsign => ?_⟩, hholds, fun q hq hstatic => ?_, htest⟩
  · cases hresult : tokenize source with
    | error e => simp [hresult, Except.toOption] at htokens
    | ok list => simpa [hresult, Except.toOption] using htokens
  · exact (hlink sign (hsign.subset List.mem_cons_self)).resolve_right fun hnot => hnot hsign
  · exact (hquery q hq).resolve_left fun hne => hne hstatic

/-- A parameter in an argument, behind a link of the same name; the same name is dropped
in front of it, and stands in a query after it. -/
theorem executed_named_iff_of_link : ∃ source t tokens statement sql token,
    source =
      "CREATE PROCEDURE p(x t) IS BEGIN EXECUTE IMMEDIATE g(0 AT x) || f@x(x, (SELECT x)); END;" ∧
      parse source = .ok t ∧ tokenize source = .ok tokens ∧
      (statement ∈ t.places ∧ statement.kind = .executeImmediate ∧
        statement.executedSql? = some sql) ∧
      (token.text = "x" ∧ token.StandsFree tokens.tokens ∧ sql.span.Holds token ∧
        ∀ q ∈ sql.subtree, q.kind = .staticQuery → ¬ q.span.Holds token) ∧
      (∃ name ∈ sql.subtree, name.kind = .name ∧ name.span.Holds token) ∧
      ¬ ∃ q ∈ sql.subtree, q.Drops token := by
  obtain ⟨t, hparse, hfound⟩ := exists_parse
    "CREATE PROCEDURE p(x t) IS BEGIN EXECUTE IMMEDIATE g(0 AT x) || f@x(x, (SELECT x)); END;"
    (findsIdentifier fun _ sql token => token.text == "x" &&
      sql.subtree.any fun q => q.kind == .name && decide (q.span.Holds token)) (by decide +kernel)
  obtain ⟨tokens, statement, sql, token, htokens, hstatement, hkind, hsql, hfree, hholds, hquery,
    htest⟩ := exists_of_findsIdentifier hparse hfound
  simp only [Bool.and_eq_true, List.any_eq_true, beq_iff_eq, decide_eq_true_eq] at htest
  obtain ⟨htext, hname⟩ := htest
  obtain ⟨sql', hsql', hnamed⟩ := executed_named_iff hparse htokens hstatement hkind
  obtain rfl := Option.some.inj (hsql.symm.trans hsql')
  exact ⟨_, t, tokens, statement, sql, token, rfl, hparse, htokens, ⟨hstatement, hkind, hsql⟩,
    ⟨htext, hfree, hholds, hquery⟩, hname, (hnamed token hfree hholds hquery).1 hname⟩

/-- **A trimmed parameter is no name.**  The parameter stands behind the value of an
argument, in the expression that is executed, and no name in it covers it. -/
theorem trimmed_not_named : ∃ source t tokens statement sql token,
    source = "CREATE PROCEDURE p(x CHAR) IS BEGIN EXECUTE IMMEDIATE TRIM(BOTH ' ' FROM x); END;" ∧
      parse source = .ok t ∧ tokenize source = .ok tokens ∧
      (statement ∈ t.places ∧ statement.kind = .executeImmediate ∧
        statement.executedSql? = some sql) ∧
      (token.StandsFree tokens.tokens ∧ sql.span.Holds token ∧
        ∀ q ∈ sql.subtree, q.kind = .staticQuery → ¬ q.span.Holds token) ∧
      (∃ routine parameter, sql.routine? = some routine ∧ parameter ∈ routine.children ∧
        t.isParameterOf (PlsqlAudit.nameKey token.text) parameter = true) ∧
      ∀ name ∈ sql.subtree, name.kind = .name → ¬ name.span.Holds token := by
  obtain ⟨t, hparse, hfound⟩ := exists_parse
    "CREATE PROCEDURE p(x CHAR) IS BEGIN EXECUTE IMMEDIATE TRIM(BOTH ' ' FROM x); END;"
    (findsIdentifier fun t sql token =>
      sql.routine?.any (fun routine =>
        routine.children.any (t.isParameterOf (PlsqlAudit.nameKey token.text))) &&
      sql.subtree.all fun q => q.kind != .name || !decide (q.span.Holds token)) (by decide +kernel)
  obtain ⟨tokens, statement, sql, token, htokens, hstatement, hkind, hsql, hfree, hholds, hquery,
    htest⟩ := exists_of_findsIdentifier hparse hfound
  simp only [Bool.and_eq_true, Option.any_eq_true, List.any_eq_true, List.all_eq_true,
    Bool.or_eq_true, bne_iff_ne, Bool.not_eq_true', decide_eq_false_iff_not] at htest
  obtain ⟨⟨routine, hroutine, parameter, hparameter, hkey⟩, hnone⟩ := htest
  exact ⟨_, t, tokens, statement, sql, token, rfl, hparse, htokens, ⟨hstatement, hkind, hsql⟩,
    ⟨hfree, hholds, hquery⟩, ⟨routine, parameter, hroutine, hparameter, hkey⟩,
    fun name hname hnamed => (hnone name hname).resolve_left fun hne => hne hnamed⟩

end Tree

end PlsqlAudit
