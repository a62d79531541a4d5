import PlsqlAudit.Proofs.LevelReaders

/-!
# Expressions read back

An expression that stands at a level is read back from its pieces: the reader of
the level answers with a node that has its outline.
-/

namespace PlsqlAudit

open PlsqlAudit.Grammar PlsqlAudit.Parser

namespace Stream.At

variable {source : String} {s : Stream} {p : Piece} {level : Level}

/-- An expression does not start with one of these words. -/
theorem not_atWord_of_starts (hat : s.At source p) (hp : p.starts level = true) {word : String}
    (hword : word ∈ ["select", "with", "distinct", "when"]) : s.atWord word = false := by
  rw [hat.atWord, Piece.isWord, Bool.and_eq_false_iff]
  by_cases hkind : p.kind = .word
  · right
    rw [Piece.starts, hkind] at hp
    simp only [Bool.and_eq_true, Bool.not_eq_true', List.contains_eq_mem,
      decide_eq_false_iff_not] at hp
    rw [beq_eq_false_iff_ne]
    rintro rfl
    exact hp.1.1 hword
  · left
    simpa using hkind

/-- What binds more tightly than `NOT` does not start with it. -/
theorem not_atNot_of_starts (hat : s.At source p) (hp : p.starts level = true)
    (hlevel : Level.not.rank < level.rank) : s.atWord "not" = false := by
  rw [hat.atWord, Piece.isWord, Bool.and_eq_false_iff]
  by_cases hkind : p.kind = .word
  · right
    rw [Piece.starts, hkind] at hp
    simp only [Bool.and_eq_true, Bool.or_eq_true, decide_eq_true_eq, bne_iff_ne] at hp
    rw [beq_eq_false_iff_ne]
    exact hp.1.2.resolve_left (Nat.not_le.2 hlevel)
  · left
    simpa using hkind

/-- What binds more tightly than a sign does not start with one. -/
theorem sign?_of_starts (hat : s.At source p) (hp : p.starts level = true)
    (hlevel : Level.sign.rank < level.rank) : sign? s = none := by
  rw [sign?, hat.kind]
  rw [Piece.starts] at hp
  have hle : decide (level.rank ≤ Level.sign.rank) = false := by simpa using hlevel
  cases hkind : p.kind with
  | plus | minus =>
    rw [hkind] at hp
    exact absurd (hle.symm.trans hp) (by decide)
  | word =>
    rw [hkind] at hp
    simp only [hle, Bool.and_eq_true, Bool.false_or, bne_iff_ne] at hp
    refine if_neg ?_
    rw [hat.atWord, Piece.isWord, Bool.and_eq_true, beq_iff_eq]
    exact fun hword => hp.2 (beq_iff_eq.1 hword.2)
  | _ => rfl

/-- An expression does not start with a token of another kind. -/
theorem not_atKind_of_starts (hat : s.At source p) (hp : p.starts level = true) {kind : TokenKind}
    (hkind : Piece.starts level ⟨kind, p.text⟩ = false) : s.atKind kind = false := by
  rw [hat.atKind, beq_eq_false_iff_ne]
  rintro rfl
  cases hkind.symm.trans hp

/-- A name is none of the words that mean something. -/
theorem not_isAnyWord {id : Identifier} (hat : s.At source id.toPiece) {words : List String}
    (hwords : ∀ word ∈ words, word ∈ expressionWords) : s.peek.isAnyWord words = false := by
  have hlower : s.peek.lowerText = id.lowerText := hat.lowerText
  rw [Token.isAnyWord, hlower, Bool.and_eq_false_iff]
  by_cases hkind : id.kind = .word
  · right
    simpa using fun hmem => id.free hkind (hwords _ hmem)
  · left
    rw [beq_eq_false_iff_ne]
    exact fun hword => hkind (hat.kind.symm.trans hword)

/-- Where an identifier stands, none of the words with a meaning in expressions does. -/
theorem not_isWord {id : Identifier} (hat : s.At source id.toPiece) {word : String}
    (hword : word ∈ expressionWords) : s.peek.isWord word = false := by
  have hany : s.peek.isAnyWord [word] = false := hat.not_isAnyWord (by simpa using hword)
  simpa [Token.isAnyWord, Token.isWord] using hany

end Stream.At

/-- The reader of a level reads the expression back, from `s` up to `s'`. -/
def ReadsBack (source : String) (r : Rules) (level : Level) (e : Expr) (s s' : Stream) : Prop :=
  ∃ n, reader r level s = .ok (n, s') ∧ n.outline source = e.outline

/-! ### Items with commas between them -/

/-- The outlines of nodes in a row are taken one by one. -/
theorem Node.outlineAll_eq_map (source : String) (ns : List Node) :
    Node.outlineAll source ns = ns.map (Node.outline source) := by
  induction ns with
  | nil => rfl
  | cons n ns ih => rw [Node.outlineAll, ih, List.map_cons]

/-- The outline of a node with others under it has their outlines for its parts, and no text. -/
theorem Node.outline_mk {source : String} {ns : List Node} {parts : List Outline}
    (h : ns.map (Node.outline source) = parts) (hne : parts ≠ []) (kind : Kind) (span : Span) :
    (Node.mk kind span ns).outline source = .node kind parts := by
  rw [Node.outline, Node.outlineAll_eq_map, h, if_neg]
  rw [List.isEmpty_iff]
  rintro rfl
  exact hne h.symm

/-- Where an item ends: at a comma or a closing parenthesis. -/
def Stream.EndsItem (s : Stream) : Prop := s.kind = .comma ∨ s.kind = .rParen

/-- The parser reads the pieces and answers with a node of the outline, where an
item ends. -/
def ReadsItem (source : String) (item : Parser Node) (pieces : List Piece) (outline : Outline) :
    Prop :=
  ∀ ⦃s s'⦄, s.Shows source pieces s' → s'.EndsItem →
    ∃ n, item s = .ok (n, s') ∧ n.outline source = outline

section Items

variable {ι : Type} {source : String} {item : Parser Node} {s s' : Stream} {first : ι}
  {items : List ι} (pieces : ι → List Piece) (outline : ι → Outline)

/-- What follows an item is a comma with the next item, or the closing parenthesis. -/
theorem endsItem_of_shows
    (hshows : s.Shows source (items.flatMap fun x => .comma :: pieces x) s')
    (hend : s'.kind = .rParen) : s.EndsItem := by
  cases items with
  | nil =>
    obtain rfl := Stream.Shows.nil_iff.1 hshows
    exact .inr hend
  | cons x items => exact .inl hshows.at_of_cons.kind

/-- Items behind commas are read back turn by turn, up to the closing parenthesis, and their nodes
have the outlines of the items. -/
theorem exists_separatedTurns (hitems : ∀ x ∈ items, ReadsItem source item (pieces x) (outline x))
    (hshows : s.Shows source (items.flatMap fun x => .comma :: pieces x) s')
    (hend : s'.kind = .rParen) (before : List Node) :
    ∃ ns : List Node, Turns (separatedStep item) (before, s) (ns.reverse ++ before, s') ∧
      ns.map (Node.outline source) = items.map outline := by
  induction items generalizing s before with
  | nil =>
    obtain rfl := Stream.Shows.nil_iff.1 hshows
    exact ⟨[], .refl, rfl⟩
  | cons x items ih =>
    obtain ⟨hcomma, hshows⟩ := Stream.Shows.cons_iff.1 hshows
    obtain ⟨s₁, hx, hrest⟩ := Stream.Shows.append_iff.1 hshows
    obtain ⟨n, hn, houtline⟩ :=
      hitems x List.mem_cons_self hx (endsItem_of_shows pieces hrest hend)
    obtain ⟨ns, hturns, houtlines⟩ :=
      ih (fun y hy => hitems y (List.mem_cons_of_mem _ hy)) hrest (n :: before)
    have hturn : Turn (separatedStep item) (before, s) (n :: before, s₁) := by
      constructor
      · rw [separatedStep, bind_of_ok (eat_of_atKind (hcomma.atKind _))]
        simp only [if_true]
        rw [bind_of_ok hn]
        rfl
      · have hlength := hx.length
        have hadvance := hcomma.length_advance
        simp only
        omega
    refine ⟨n :: ns, .head hturn ?_, ?_⟩
    · simpa using hturns
    · simp [houtline, houtlines]

/-- One or more items with commas between them are read one by one, up to the closing parenthesis.
-/
theorem exists_separated
    (hitems : ∀ x ∈ first :: items, ReadsItem source item (pieces x) (outline x))
    (hshows : s.Shows source (pieces first ++ items.flatMap fun x => .comma :: pieces x) s')
    (hend : s'.kind = .rParen) :
    ∃ ns, separated item s = .ok (ns, s') ∧
      ns.map (Node.outline source) = outline first :: items.map outline := by
  obtain ⟨s₁, hfirst, hrest⟩ := Stream.Shows.append_iff.1 hshows
  obtain ⟨n, hn, houtline⟩ :=
    hitems first List.mem_cons_self hfirst (endsItem_of_shows pieces hrest hend)
  obtain ⟨ns, hturns, houtlines⟩ := exists_separatedTurns pieces outline
    (fun y hy => hitems y (List.mem_cons_of_mem _ hy)) hrest hend [n]
  refine ⟨_, separated_of_turns hn hturns (by simp [Stream.atKind, hend]), ?_⟩
  simp [houtline, houtlines]

end Items

/-- Inside other phrases, the expression is read back wherever nothing follows that
binds to it. -/
def Rules.ReadsBack (r : Rules) (source : String) (e : Expr) : Prop :=
  ∀ ⦃s s'⦄, s.Shows source e.pieces s' → s'.Stops .or →
    ∃ n, r.expression s = .ok (n, s') ∧ n.outline source = e.outline

/-- The end of an item stops the readers of all levels, since neither a comma nor a parenthesis
that closes binds to an expression. -/
theorem Stream.EndsItem.stops {s : Stream} (h : s.EndsItem) (level : Level) : s.Stops level := by
  intro binding hbinding
  rcases h with h | h
  · cases (Stream.binding_of_kind h).symm.trans hbinding
  · cases (Stream.binding_of_kind h).symm.trans hbinding

/-- An expression that is read back is read back as an item. -/
theorem Rules.ReadsBack.item {r : Rules} {source : String} {e : Expr}
    (h : r.ReadsBack source e) : ReadsItem source r.expression e.pieces e.outline :=
  fun _ _ hshows hend => h hshows (hend.stops .or)

/-- The pieces of further expressions in a list are those of each, with a comma in front. -/
theorem itemPieces_eq (rest : List Expr) :
    Expr.itemPieces rest = rest.flatMap fun e => .comma :: e.pieces := by
  induction rest with
  | nil => rfl
  | cons e rest ih => rw [Expr.itemPieces, ih, List.flatMap_cons]

/-- The outlines of further expressions in a list are taken one by one. -/
theorem itemOutlines_eq (rest : List Expr) :
    Expr.itemOutlines rest = rest.map Expr.outline := by
  induction rest with
  | nil => rfl
  | cons e rest ih => rw [Expr.itemOutlines, ih, List.map_cons]

section Primary

variable {source : String} {r : Rules} {s s' : Stream}

/-- A name is read back as a primary expression, with its text as its outline. -/
theorem readsBack_name {id : Identifier} (hat : s.At source id.toPiece) :
    ReadsBack source r .primary (.name id) s s.advance := by
  refine ⟨.leaf .name s.peek.span, ?_, hat.outline_leaf _⟩
  have hkind : s.peek.kind = id.kind := hat.kind
  have hidentifier := id.isIdentifier
  rw [reader, primary, get_bind]
  cases hid : id.kind with
  | quotedIdent =>
    rw [hid] at hkind
    simp only [hkind]
    rfl
  | word =>
    rw [hid] at hkind
    have hconstant : s.peek.isAnyWord ["null", "true", "false"] = false :=
      hat.not_isAnyWord (by decide)
    have hcase : s.peek.isWord "case" = false := hat.not_isWord (by decide)
    have hdated : s.peek.isAnyWord ["date", "timestamp", "interval"] = false :=
      hat.not_isAnyWord (by decide)
    have hnew : s.peek.isWord "new" = false := hat.not_isWord (by decide)
    simp only [hkind, hconstant, hcase, hdated, hnew, Bool.false_and]
    rfl
  | _ => simp [hid, TokenKind.isIdentifier] at hidentifier

/-- A literal is read back as a primary expression, whichever of the kinds of literals it is. -/
theorem readsBack_literal {l : Literal} (hat : s.At source l.piece) :
    ReadsBack source r .primary (.literal l) s s.advance := by
  refine ⟨.leaf l.cls.kind s.peek.span, ?_, hat.outline_leaf _⟩
  have hkind : s.peek.kind = l.cls.tokenKind := hat.kind
  rw [reader, primary, get_bind]
  cases hcls : l.cls with
  | string | number | bindVariable =>
    rw [hcls, LiteralClass.tokenKind] at hkind
    simp only [hkind]
    rfl

/-- A list in parentheses is read back if each of its items is, provided that it does not look like
a query. -/
theorem readsBack_list {first : Expr} {rest : List Expr} (hopen : s.At source .lParen)
    (hshows : s.advance.Shows source (first.pieces ++ Expr.itemPieces rest) s')
    (hclose : s'.At source .rParen) (hquery : atQuery s.advance = false)
    (hitems : ∀ e ∈ first :: rest, r.ReadsBack source e) :
    ReadsBack source r .primary (.list first rest) s s'.advance := by
  rw [itemPieces_eq] at hshows
  obtain ⟨ns, hns, houtlines⟩ := exists_separated Expr.pieces Expr.outline
    (fun e he => (hitems e he).item) hshows hclose.kind
  refine ⟨.mk .parenthesized (s.peek.span.cover s'.peek.span) ns, ?_, ?_⟩
  · have hkind : s.peek.kind = .lParen := hopen.kind
    rw [reader, primary, get_bind]
    simp only [hkind]
    rw [parenthesized, bump_bind, get_bind, if_neg (by simp [hquery]), bind_of_ok hns,
      bind_of_ok (expect_of_atKind _ (hclose.atKind _))]
    rfl
  · rw [Node.outline_mk houtlines (List.cons_ne_nil _ _), Expr.outline, itemOutlines_eq]

/-- What follows the branches of a `CASE`, or the next of them, ends an
expression. -/
theorem stops_of_branches {branches : List (Expr × Expr)}
    (hshows : s.Shows source (Expr.branchPieces branches) s') (hstops : s'.Stops .or) :
    s.Stops .or := by
  cases branches with
  | nil =>
    obtain rfl := Stream.Shows.nil_iff.1 hshows
    exact hstops
  | cons b rest => exact hshows.at_of_cons.stops_of_none (by simp [wordBinding]) _

/-- A branch of a `CASE` is one turn of the loop, in which its choice and its result are read back.
-/
theorem exists_branchTurn {choice result : Expr} {s₁ : Stream}
    (hchoice : r.ReadsBack source choice) (hresult : r.ReadsBack source result)
    (hwhen : s.At source (.keyword "WHEN")) (hfirst : s.advance.Shows source choice.pieces s₁)
    (hthen : s₁.At source (.keyword "THEN")) (hsecond : s₁.advance.Shows source result.pieces s')
    (hstops : s'.Stops .or) (before : List (List Node)) :
    ∃ n m, Turn (manyStep (·.atWord "when") (caseBranch r)) (before, s) ([n, m] :: before, s') ∧
      n.outline source = choice.outline ∧ m.outline source = result.outline := by
  obtain ⟨n, hn, hnOutline⟩ := hchoice hfirst (hthen.stops_of_none (by simp [wordBinding]) _)
  obtain ⟨m, hm, hmOutline⟩ := hresult hsecond hstops
  refine ⟨n, m, ⟨?_, ?_⟩, hnOutline, hmOutline⟩
  · have hbranch : caseBranch r s = .ok ([n, m], s') := by
      rw [caseBranch, bump_bind, bind_of_ok hn,
        bind_of_ok (expectWord_of_atWord ((hthen.atWord _).trans (by simp))),
        bind_of_ok hm]
      rfl
    rw [manyStep, get_bind, if_pos ((hwhen.atWord _).trans (by simp)),
      bind_of_ok hbranch]
    rfl
  · have hadvance := hwhen.length_advance
    have hfirstLength := hfirst.length
    have hadvance' := hthen.length_advance
    have hsecondLength := hsecond.length
    simp only
    omega

/-- The branches of a `CASE` expression are read back turn by turn, choice and result of each. -/
theorem exists_branchTurns {branches : List (Expr × Expr)}
    (hchoices : ∀ b ∈ branches, r.ReadsBack source b.1)
    (hresults : ∀ b ∈ branches, r.ReadsBack source b.2)
    (hshows : s.Shows source (Expr.branchPieces branches) s') (hstops : s'.Stops .or)
    (before : List (List Node)) :
    ∃ ns : List (List Node), Turns (manyStep (·.atWord "when") (caseBranch r)) (before, s)
        (ns.reverse ++ before, s') ∧
      ns.flatten.map (Node.outline source) = Expr.branchOutlines branches := by
  induction branches generalizing s before with
  | nil =>
    obtain rfl := Stream.Shows.nil_iff.1 hshows
    exact ⟨[], .refl, rfl⟩
  | cons b branches ih =>
    obtain ⟨choice, result⟩ := b
    simp only [Expr.branchPieces, List.append_assoc, List.cons_append, Stream.Shows.cons_iff,
      Stream.Shows.append_iff] at hshows
    obtain ⟨hwhen, s₁, hchoice, hthen, s₂, hresult, hrest⟩ := hshows
    obtain ⟨n, m, hturn, hnoutline, hmoutline⟩ :=
      exists_branchTurn (hchoices _ List.mem_cons_self) (hresults _ List.mem_cons_self) hwhen
        hchoice hthen hresult (stops_of_branches hrest hstops) before
    obtain ⟨ns, hturns, houtlines⟩ :=
      ih (fun b hb => hchoices b (List.mem_cons_of_mem _ hb))
        (fun b hb => hresults b (List.mem_cons_of_mem _ hb)) hrest ([n, m] :: before)
    refine ⟨[n, m] :: ns, .head hturn ?_, ?_⟩
    · simpa using hturns
    · simp [hnoutline, hmoutline, houtlines, Expr.branchOutlines]

/-- The selector of a `CASE`, read if there is one. -/
theorem exists_selector {selector : Option Expr}
    (hselector : ∀ e ∈ selector, r.ReadsBack source e ∧ Piece.Lead .or e.pieces)
    (hmissing : selector = none → s.atWord "when" = true)
    (hshows : s.Shows source (Expr.optionPieces [] selector) s') (hstops : s'.Stops .or) :
    ∃ ns, Optional r.expression (s.atWord "when" = true) ns s s' ∧
      ns.map (Node.outline source) = Expr.optionOutline selector := by
  cases selector with
  | none =>
    obtain rfl := Stream.Shows.nil_iff.1 hshows
    exact ⟨[], .inl ⟨hmissing rfl, rfl, rfl⟩, rfl⟩
  | some e =>
    obtain ⟨hreads, hlead⟩ := hselector e rfl
    rw [Expr.optionPieces, List.nil_append] at hshows
    obtain ⟨n, hn, houtline⟩ := hreads hshows hstops
    have hwhen : s.atWord "when" = false := by
      obtain ⟨p, hat, hp⟩ := hlead.exists_at hshows
      exact hat.not_atWord_of_starts hp (by decide)
    refine ⟨[n], .inr ⟨by simp [hwhen], n, rfl, hn⟩, ?_⟩
    simp [houtline, Expr.optionOutline]

/-- A part behind a word of its own, read if there is one. -/
theorem exists_behindWord {p : Parser Node} {e? : Option Expr} (word : String) {front : Piece}
    (hfront : front.isWord word = true)
    (hreads : ∀ e ∈ e?, ∀ t, t.Shows source e.pieces s' →
      ∃ n, p t = .ok (n, s') ∧ n.outline source = e.outline)
    (hmissing : s'.atWord word = false)
    (hshows : s.Shows source (Expr.optionPieces [front] e?) s') :
    ∃ read t ns, eatWord word s = .ok (read, t) ∧ Optional p (¬ read = true) ns t s' ∧
      ns.map (Node.outline source) = Expr.optionOutline e? := by
  cases e? with
  | none =>
    obtain rfl := Stream.Shows.nil_iff.1 hshows
    exact ⟨false, s, [], eatWord_of_not hmissing, .inl ⟨by simp, rfl, rfl⟩, rfl⟩
  | some e =>
    obtain ⟨hat, hshows⟩ := Stream.Shows.cons_iff.1 hshows
    obtain ⟨n, hn, houtline⟩ := hreads e rfl _ hshows
    refine ⟨true, s.advance, [n], eatWord_of_atWord ((hat.atWord _).trans hfront),
      .inr ⟨by simp, n, rfl, hn⟩, ?_⟩
    simp [houtline, Expr.optionOutline]

/-- The word `CASE` makes a primary expression a `CASE` expression. -/
theorem primary_of_case (hat : s.At source (.keyword "CASE")) :
    primary r s = caseExpression r s := by
  have hkind : s.peek.kind = .word := hat.kind
  have hconstant : s.peek.isAnyWord ["null", "true", "false"] = false :=
    (hat.atAnyWord _).trans (by simp)
  have hcase : s.peek.isWord "case" = true := (hat.atWord _).trans (by simp)
  rw [primary, get_bind]
  simp only [hkind, hconstant, hcase]
  rfl

/-- What follows the branches of a `CASE` is `ELSE` or `END`. -/
theorem stops_of_otherwise {otherwise : Option Expr}
    (hshows : s.Shows source (Expr.optionPieces [.keyword "ELSE"] otherwise) s')
    (hend : s'.At source (.keyword "END")) : s.Stops .or ∧ s.atWord "when" = false := by
  cases otherwise with
  | none =>
    obtain rfl := Stream.Shows.nil_iff.1 hshows
    exact ⟨hend.stops_of_none (by simp [wordBinding]) _, (hend.atWord _).trans (by simp)⟩
  | some e =>
    have helse := hshows.at_of_cons
    exact ⟨helse.stops_of_none (by simp [wordBinding]) _, (helse.atWord _).trans (by simp)⟩

/-- A `CASE` is read back if all its parts are: the selector, the branches and what stands behind
`ELSE`. -/
theorem readsBack_case {selector otherwise : Option Expr} {branches : List (Expr × Expr)}
    (hne : selector.isSome ∨ branches ≠ [])
    (hshows : s.Shows source (Expr.case selector branches otherwise).pieces s')
    (hselector : ∀ e ∈ selector, r.ReadsBack source e ∧ Piece.Lead .or e.pieces)
    (hchoices : ∀ b ∈ branches, r.ReadsBack source b.1)
    (hresults : ∀ b ∈ branches, r.ReadsBack source b.2)
    (hotherwise : ∀ e ∈ otherwise, r.ReadsBack source e) :
    ReadsBack source r .primary (.case selector branches otherwise) s s' := by
  simp only [Expr.pieces, List.append_assoc, List.cons_append, Stream.Shows.cons_iff,
      Stream.Shows.append_iff, Stream.Shows.nil_iff] at hshows
  obtain ⟨hcase, s₁, hfirst, s₂, hbranches, s₃, hlast, hend, rfl⟩ := hshows
  have hendStops : s₃.Stops .or := hend.stops_of_none (by simp [wordBinding]) _
  obtain ⟨read, t, os, heat, hos, hosOutline⟩ :=
    exists_behindWord "else" (by simp) (fun e he t ht => hotherwise e he ht hendStops)
      ((hend.atWord _).trans (by simp)) hlast
  obtain ⟨hstops, hwhen⟩ := stops_of_otherwise hlast hend
  obtain ⟨bs, hturns, hbsOutline⟩ := exists_branchTurns hchoices hresults hbranches hstops []
  have hmissing : selector = none → s.advance.atWord "when" = true := by
    rintro rfl
    obtain rfl := Stream.Shows.nil_iff.1 hfirst
    obtain ⟨b, rest, rfl⟩ := List.exists_cons_of_ne_nil (hne.resolve_left (by simp))
    exact (hbranches.at_of_cons.atWord _).trans (by simp)
  obtain ⟨ns, hns, hnsOutline⟩ := exists_selector hselector hmissing hfirst
    (stops_of_branches hbranches hstops)
  refine ⟨.mk .caseExpression (s.peek.span.cover s₃.peek.span) (ns ++ bs.flatten ++ os), ?_, ?_⟩
  · have hmany := many_of_turns hturns hwhen
    rw [List.append_nil, List.reverse_reverse] at hmany
    rw [reader, primary_of_case hcase, caseExpression, bump_bind, get_bind, hns.unless_run]
    beta_reduce
    rw [bind_of_ok hmany, bind_of_ok heat, hos.if_run]
    beta_reduce
    rw [bind_of_ok (expectWord_of_atWord ((hend.atWord _).trans (by simp)))]
    rfl
  · rw [Expr.outline]
    apply Node.outline_mk
    · rw [List.map_append, List.map_append, hnsOutline, hbsOutline, hosOutline]
    · cases selector with
      | some e => simp [Expr.optionOutline]
      | none =>
        obtain ⟨b, rest, rfl⟩ := List.exists_cons_of_ne_nil (hne.resolve_left (by simp))
        simp [Expr.branchOutlines]

end Primary

/-! ### Arguments and other suffixes -/

section Suffixes

variable {source : String} {r : Rules} {s s' : Stream}

/-- Where an identifier stands the stream is at an identifier, whether it is quoted or not. -/
theorem atIdentifier_of_at {id : Identifier} (hat : s.At source id.toPiece) :
    s.atIdentifier = true := by
  rw [Stream.atIdentifier, hat.kind]
  exact id.isIdentifier

/-- An expression is not taken for the label of an argument. -/
theorem not_label_of_lead {ps : List Piece} {level : Level} (hlead : Piece.Lead level ps)
    (hshows : s.Shows source ps s') (hend : s'.EndsItem) :
    ((s.peekAt 1).kind == .arrow) = false := by
  obtain @⟨first, rest, -, hnext⟩ := hlead
  obtain ⟨-, hshows⟩ := Stream.Shows.cons_iff.1 hshows
  rw [← s.peek_advance, beq_eq_false_iff_ne]
  intro harrow
  cases rest with
  | nil =>
    obtain rfl := Stream.Shows.nil_iff.1 hshows
    rcases hend with hend | hend <;> cases hend.symm.trans harrow
  | cons p rest =>
    have hp := hshows.at_of_cons.kind
    exact hnext p rfl (hp.symm.trans harrow)

/-- The label of an argument, read if there is one. -/
theorem exists_label {label : Option Identifier} {t : Stream}
    (hshows : s.Shows source (Identifier.labelPieces label) t)
    (hplain : label = none → ((s.peekAt 1).kind == .arrow) = false) :
    ∃ ns : List Node, ns.map (Node.outline source) = Identifier.labelOutline label ∧
      ∀ f : List Node → Parser Node,
        (if (s.atIdentifier && (s.peekAt 1).kind == .arrow) = true then
          bump >>= fun name => bump >>= fun _ => pure [Node.leaf .name name.span] >>= f
        else pure [] >>= f) s = f ns t := by
  cases label with
  | none =>
    obtain rfl := Stream.Shows.nil_iff.1 hshows
    refine ⟨[], rfl, ?_⟩
    intro f
    rw [if_neg (by simp [hplain rfl])]
    rfl
  | some id =>
    simp only [Identifier.labelPieces, Stream.Shows.cons_iff, Stream.Shows.nil_iff] at hshows
    obtain ⟨hid, harrow, rfl⟩ := hshows
    refine ⟨[.leaf .name s.peek.span], ?_, ?_⟩
    · rw [List.map_singleton, hid.outline_leaf]
      rfl
    · intro f
      have hnext : (s.peekAt 1).kind = .arrow := by
        rw [← s.peek_advance]
        exact harrow.kind
      rw [if_pos (by simp [atIdentifier_of_at hid, hnext]), bump_bind, bump_bind]
      rfl

/-- An argument is read back if its value is, with the label that it has in front. -/
theorem readsItem_argument (label : Option Identifier) {e : Expr} (hreads : r.ReadsBack source e)
    (hlead : Piece.Lead .or e.pieces) :
    ReadsItem source (argument r) (Identifier.labelPieces label ++ e.pieces)
      (.node .argument (Identifier.labelOutline label ++ [e.outline])) := by
  intro s s' hshows hend
  obtain ⟨t, hlabel, hvalue⟩ := Stream.Shows.append_iff.1 hshows
  obtain ⟨n, hn, houtline⟩ := hreads hvalue (hend.stops .or)
  obtain ⟨p, hat, hp⟩ := hlead.exists_at hvalue
  have hplain : label = none → ((s.peekAt 1).kind == .arrow) = false := by
    rintro rfl
    obtain rfl := Stream.Shows.nil_iff.1 hlabel
    exact not_label_of_lead hlead hvalue hend
  obtain ⟨ns, hnsOutline, hrun⟩ := exists_label hlabel hplain
  have hdistinct : t.atWord "distinct" = false := hat.not_atWord_of_starts hp (by decide)
  have hstar : t.atKind .star = false := hat.not_atKind_of_starts hp rfl
  have hskip : (s'.atKind .comma || s'.atKind .rParen) = true := by
    rcases hend with hend | hend <;> simp [Stream.atKind, hend]
  refine ⟨.mk .argument (s.peek.span.cover s'.lastSpan) (ns ++ [n]), ?_, ?_⟩
  · rw [argument, get_bind, hrun]
    beta_reduce
    rw [bind_of_ok (eatWord_of_not hdistinct), get_bind, if_neg (by simp [hstar]),
      bind_of_ok hn]
    beta_reduce
    rw [skipUntil_bind, Stream.skipUntil_of_stop hskip]
    rfl
  · apply Node.outline_mk
    · rw [List.map_append, hnsOutline, List.map_singleton, houtline]
    · simp

/-- The pieces of further arguments are those of each, with a comma in front and its label if it
has one. -/
theorem argumentPieces_eq (arguments : List (Option Identifier × Expr)) :
    Expr.argumentPieces [.comma] arguments =
      arguments.flatMap fun a => .comma :: (Identifier.labelPieces a.1 ++ a.2.pieces) := by
  induction arguments with
  | nil => rfl
  | cons a rest ih =>
    obtain ⟨label, e⟩ := a
    rw [Expr.argumentPieces, ih, List.flatMap_cons]
    simp

/-- The outlines of arguments are taken one by one, each with its label if it has one. -/
theorem argumentOutlines_eq (arguments : List (Option Identifier × Expr)) :
    Expr.argumentOutlines arguments =
      arguments.map fun a => .node .argument (Identifier.labelOutline a.1 ++ [a.2.outline]) := by
  induction arguments with
  | nil => rfl
  | cons a rest ih =>
    obtain ⟨label, e⟩ := a
    rw [Expr.argumentOutlines, ih, List.map_cons]

/-- A member is taken as a suffix: the dot and the name behind it go around what was read so far.
-/
theorem exists_suffix_member (n : Node) {field : Identifier} (hdot : s.At source .dot)
    (hfield : s.advance.At source field.toPiece) :
    ∃ m, suffix r n s = .ok (some m, s.advance.advance) ∧
      m.outline source = .node .memberAccess [n.outline source, .leaf .name field.text] := by
  have hnext : (s.peekAt 1).kind.isIdentifier = true := by
    rw [← s.peek_advance]
    exact atIdentifier_of_at hfield
  refine ⟨.mk .memberAccess (n.span.cover s.advance.peek.span)
    [n, .leaf .name s.advance.peek.span], ?_, ?_⟩
  · rw [suffix, get_bind]
    simp only [hdot.kind, Piece.dot, hnext]
    rfl
  · apply Node.outline_mk
    · rw [List.map_cons, List.map_singleton, hfield.outline_leaf]
    · simp

/-- The arguments of a call are read one by one, up to the closing parenthesis. -/
theorem exists_arguments {arguments : List (Option Identifier × Expr)}
    {a : Option Identifier × Expr}
    (harguments : ∀ b ∈ a :: arguments,
      r.ReadsBack source b.2 ∧ Piece.Lead .or b.2.pieces)
    (hshows : s.Shows source (Expr.argumentPieces [] (a :: arguments)) s')
    (hclose : s'.At source .rParen) :
    ∃ ns, separated (argument r) s = .ok (ns, s') ∧
      ns.map (Node.outline source) = Expr.argumentOutlines (a :: arguments) := by
  obtain ⟨label, e⟩ := a
  rw [Expr.argumentPieces, argumentPieces_eq, List.nil_append] at hshows
  rw [argumentOutlines_eq]
  exact exists_separated (fun a => Identifier.labelPieces a.1 ++ a.2.pieces)
    (fun a => .node .argument (Identifier.labelOutline a.1 ++ [a.2.outline]))
    (fun b hb => readsItem_argument b.1 (harguments b hb).1 (harguments b hb).2) hshows hclose.kind

/-- What an argument starts with: its label or its value. -/
theorem exists_at_argument {arguments : List (Option Identifier × Expr)}
    {a : Option Identifier × Expr} (hlead : Piece.Lead .or a.2.pieces)
    (hshows : s.Shows source (Expr.argumentPieces [] (a :: arguments)) s') :
    ∃ p, s.At source p ∧ p.starts .or = true := by
  obtain ⟨label, e⟩ := a
  rw [Expr.argumentPieces, List.nil_append] at hshows
  obtain ⟨t, hshows, -⟩ := Stream.Shows.append_iff.1 hshows
  cases label with
  | none => exact hlead.exists_at hshows
  | some id => exact ⟨id.toPiece, hshows.at_of_cons, id.starts .or⟩

/-- Arguments in parentheses are taken as a suffix, also where there are none of them. -/
theorem exists_suffix_call (n : Node) {arguments : List (Option Identifier × Expr)}
    (hopen : s.At source .lParen)
    (hshows : s.advance.Shows source (Expr.argumentPieces [] arguments) s')
    (hclose : s'.At source .rParen)
    (harguments : ∀ a ∈ arguments, r.ReadsBack source a.2 ∧ Piece.Lead .or a.2.pieces) :
    ∃ m, suffix r n s = .ok (some m, s'.advance) ∧
      m.outline source = .node .call (n.outline source :: Expr.argumentOutlines arguments) := by
  have hsuffix : suffix r n s = (do return some (← call r n)) s := by
    rw [suffix, get_bind]
    simp only [hopen.kind, Piece.lParen]
  rw [hsuffix]
  cases arguments with
  | nil =>
    obtain rfl := Stream.Shows.nil_iff.1 hshows
    refine ⟨.mk .call (n.span.cover s.advance.advance.lastSpan) [n], ?_, rfl⟩
    have hcall : call r n s =
        .ok (.mk .call (n.span.cover s.advance.advance.lastSpan) [n], s.advance.advance) := by
      rw [call, bump_bind, bind_of_ok (eat_of_atKind (hclose.atKind _))]
      rfl
    rw [bind_of_ok hcall]
    rfl
  | cons a arguments =>
    obtain ⟨ns, hns, houtlines⟩ := exists_arguments harguments hshows hclose
    refine ⟨.mk .call (n.span.cover s'.advance.lastSpan) (n :: ns), ?_, ?_⟩
    · have hmore : s.advance.atKind .rParen = false := by
        obtain ⟨p, hat, hp⟩ := exists_at_argument (harguments a List.mem_cons_self).2 hshows
        exact hat.not_atKind_of_starts hp rfl
      have hcall : call r n s =
          .ok (.mk .call (n.span.cover s'.advance.lastSpan) (n :: ns), s'.advance) := by
        rw [call, bump_bind, bind_of_ok (eat_of_not hmore)]
        simp only [Bool.false_eq_true, if_false]
        rw [bind_of_ok hns, bind_of_ok (expect_of_atKind _ (hclose.atKind _))]
        rfl
      rw [bind_of_ok hcall]
      rfl
    · apply Node.outline_mk
      · rw [List.map_cons, houtlines]
      · simp

end Suffixes

end PlsqlAudit
