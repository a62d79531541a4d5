import PlsqlAudit.Grammar.Program
import PlsqlAudit.Proofs.ReadBack

/-!
# Operators bind as they should

Every expression whose operators bind as they should is read back from its pieces,
with as many rules inside rules as it has pieces.
-/

namespace PlsqlAudit

open PlsqlAudit.Grammar PlsqlAudit.Parser

section Comparisons

variable {source : String} {r : Rules} {s s₁ s₂ s' : Stream} {lhs : Node}

/-- At the piece of a comparison the operator of a comparison is read, and it is that one. -/
theorem comparison?_of_at {op : BinaryOp} (hat : s.At source op.piece)
    (hop : op.level?.getD .comparison = .comparison) : comparison? s = some op := by
  have hkind : s.kind = op.tokenKind := hat.kind
  have hword := hat.atWord
  rw [comparison?, hkind]
  cases op with
  | eq | notEq | lt | gt | ltEq | gtEq => rfl
  | like | member | between => simp [hword, BinaryOp.tokenKind, BinaryOp.symbol]
  | _ => cases hop

/-- No binary operator is written with `IS`, so none is taken for a test for null. -/
theorem BinaryOp.piece_ne_is (op : BinaryOp) : op.piece.isWord "is" = false := by
  cases op <;> simp [tokenKind, symbol]

/-- No binary operator is written with `NOT`, so none is taken for a negation. -/
theorem BinaryOp.piece_ne_not (op : BinaryOp) : op.piece.isWord "not" = false := by
  cases op <;> simp [tokenKind, symbol]

/-- The rest of a comparison, where its operator is looked for. -/
def comparisonRest (r : Rules) (lhs : Node) (negated : Bool) : Parser Node := do
  match comparison? (← get) with
  | none => return lhs
  | some op =>
    let _ ← bump
    let node ← comparisonOf r op lhs
    return if negated then unary .not lhs.span node else node

/-- Behind the operand of a comparison its operator and the right side are read, and a `NOT` in
front is put around the whole. -/
theorem comparisonRest_of_operator {op : BinaryOp} {n : Node} (negated : Bool)
    (hat : s.At source op.piece) (hop : op.level?.getD .comparison = .comparison)
    (hrest : comparisonOf r op lhs s.advance = .ok (n, s')) :
    comparisonRest r lhs negated s = .ok (if negated then unary .not lhs.span n else n, s') := by
  rw [comparisonRest, get_bind, comparison?_of_at hat hop]
  simp only
  rw [bump_bind, bind_of_ok hrest]
  rfl

/-- A comparison by its operator, with `NOT` in front of it or not. -/
theorem comparison_of_operator {op : BinaryOp} {negated : Bool} {n : Node}
    (hlhs : additive r s = .ok (lhs, s₁)) (hnot : s₁.Shows source (Piece.negation negated) s₂)
    (hat : s₂.At source op.piece) (hop : op.level?.getD .comparison = .comparison)
    (hnegated : negated = true → op.level? = none)
    (hrest : comparisonOf r op lhs s₂.advance = .ok (n, s')) :
    comparison r s = .ok (if negated then unary .not lhs.span n else n, s') := by
  rw [comparison, bind_of_ok hlhs, get_bind]
  cases negated with
  | false =>
    obtain rfl := Stream.Shows.nil_iff.1 hnot
    have his : s₁.atWord "is" = false := (hat.atWord _).trans op.piece_ne_is
    have hplain : atNegatedComparison s₁ = false := by
      rw [atNegatedComparison, hat.atWord, op.piece_ne_not, Bool.false_and]
    rw [if_neg (by simp [his]), get_bind]
    simp only [hplain]
    exact comparisonRest_of_operator false hat hop hrest
  | true =>
    obtain ⟨hword, hshows⟩ := Stream.Shows.cons_iff.1 hnot
    obtain rfl := Stream.Shows.nil_iff.1 hshows
    have his : s₁.atWord "is" = false := (hword.atWord _).trans (by simp)
    have hboth : atNegatedComparison s₁ = true := by
      have hnone := hnegated rfl
      rw [atNegatedComparison, hword.atWord, ← s₁.atWord_advance, ← s₁.atWord_advance,
        ← s₁.atWord_advance, hat.atWord, hat.atWord, hat.atWord]
      cases op with
      | like | member | between => simp [BinaryOp.tokenKind, BinaryOp.symbol]
      | _ => cases hnone
    rw [if_neg (by simp [his]), get_bind]
    simp only [hboth]
    exact comparisonRest_of_operator true hat hop hrest

/-- A token at which a comparison is read binds as comparisons do. -/
theorem binding_of_comparison? {op : BinaryOp} (h : comparison? s = some op) :
    s.peek.piece.binding = some .comparison := by
  rw [comparison?] at h
  split at h
  case h_1 hkind | h_2 hkind | h_3 hkind | h_4 hkind | h_5 hkind | h_6 hkind =>
    exact Stream.binding_of_kind hkind
  case h_7 =>
    split at h
    case isTrue hword =>
      exact Stream.binding_of_atWord hword
    split at h
    case isTrue hword =>
      exact Stream.binding_of_atWord hword
    obtain ⟨hword, -⟩ := Option.ite_none_right_eq_some.1 h
    exact Stream.binding_of_atWord hword
  case h_8 => cases h

/-- What stands alone, with nothing behind it that compares, is no comparison but the operand
itself. -/
theorem comparison_of_stops (hlhs : additive r s = .ok (lhs, s')) (hstops : s'.Stops .comparison) :
    comparison r s = .ok (lhs, s') := by
  have hbinding := hstops.ne (Nat.le_refl Level.comparison.rank)
  have his : s'.atWord "is" = false := by
    rw [Bool.eq_false_iff]
    exact fun hword => hbinding (Stream.binding_of_atWord hword)
  have hnot : s'.atWord "not" = false := by
    rw [Bool.eq_false_iff]
    exact fun hword => hbinding (Stream.binding_of_atWord hword)
  have hplain : atNegatedComparison s' = false := by rw [atNegatedComparison, hnot, Bool.false_and]
  have hnone : comparison? s' = none := by
    cases hop : comparison? s' with
    | none => rfl
    | some op => exact absurd (binding_of_comparison? hop) hbinding
  have hrest : comparisonRest r lhs false s' = .ok (lhs, s') := by
    rw [comparisonRest, get_bind, hnone]
    rfl
  rw [comparison, bind_of_ok hlhs, get_bind, if_neg (by simp [his]), get_bind]
  simp only [hplain]
  exact hrest

/-- The outline of a binary node is that of its operator over the outlines of its operands. -/
theorem outline_binary (op : BinaryOp) (n m : Node) :
    (binary op n m).outline source = .node (.binary op) [n.outline source, m.outline source] :=
  Node.outline_mk rfl (by simp) _ _

/-- The outline of a node with one operand is that of its operator over the outline of the
operand. -/
theorem outline_unary (op : UnaryOp) (span : Span) (n : Node) :
    (unary op span n).outline source = .node (.unary op) [n.outline source] :=
  Node.outline_mk rfl (by simp) _ _

/-- A comparison that is negated has the outline of the negation around that of the comparison. -/
theorem outline_negated (negated : Bool) (span : Span) (n : Node) :
    (if negated then unary .not span n else n).outline source =
      .negate negated (n.outline source) := by
  cases negated with
  | false => rfl
  | true => exact outline_unary _ _ _

/-- A comparison of two operands is read back if both operands are, each from the additive level.
-/
theorem readsBack_comparison {op : BinaryOp} {lhs rhs : Expr} (hop : op.level? = some .comparison)
    (hlhs : ReadsBack source r .additive lhs s s₁) (hat : s₁.At source op.piece)
    (hrhs : ReadsBack source r .additive rhs s₁.advance s') :
    ReadsBack source r .comparison (.binary op lhs rhs) s s' := by
  obtain ⟨n, hn, hnOutline⟩ := hlhs
  obtain ⟨m, hm, hmOutline⟩ := hrhs
  rw [reader] at hn hm
  have hrest : comparisonOf r op n s₁.advance = .ok (binary op n m, s') := by
    cases op with
    | eq | notEq | lt | gt | ltEq | gtEq => exact bind_of_ok hm
    | _ => cases hop
  have hplain : s₁.Shows source (Piece.negation false) s₁ := .nil s₁
  refine ⟨_, comparison_of_operator hn hplain hat (by rw [hop]; rfl) ?_ hrest, ?_⟩
  · intro hnegated
    cases hnegated
  · rw [outline_negated, outline_binary, hnOutline, hmOutline]
    rfl

/-- A test with `IS NULL` or `IS NOT NULL` is read back if its operand is. -/
theorem readsBack_nullTest {operand : Expr} {negated : Bool}
    (hoperand : ReadsBack source r .additive operand s s₁) (hat : s₁.At source (.keyword "IS"))
    (hnot : s₁.advance.Shows source (Piece.negation negated) s₂)
    (hnull : s₂.At source (.keyword "NULL")) :
    ReadsBack source r .comparison (.nullTest negated operand) s s₂.advance := by
  obtain ⟨n, hn, houtline⟩ := hoperand
  rw [reader] at hn
  have heat : eatWord "not" s₁.advance = .ok (negated, s₂) := by
    cases negated with
    | false =>
      obtain rfl := Stream.Shows.nil_iff.1 hnot
      exact eatWord_of_not ((hnull.atWord _).trans (by simp))
    | true =>
      obtain ⟨hword, hshows⟩ := Stream.Shows.cons_iff.1 hnot
      obtain rfl := Stream.Shows.nil_iff.1 hshows
      exact eatWord_of_atWord ((hword.atWord _).trans (by simp))
  refine ⟨.mk (.unary (if negated then .isNotNull else .isNull))
    (n.span.cover s₂.peek.span) [n], ?_, ?_⟩
  · rw [reader, comparison, bind_of_ok hn, get_bind,
      if_pos ((hat.atWord _).trans (by simp)), nullTest, bump_bind, bind_of_ok heat,
      bind_of_ok (expectWord_of_atWord ((hnull.atWord _).trans (by simp)))]
    rfl
  · rw [Expr.outline, ← houtline]
    exact Node.outline_mk rfl (by simp) _ _

/-- A test with `IN` or `NOT IN` is read back if its operand and its list are. -/
theorem readsBack_isIn {operand items : Expr} {negated : Bool}
    (hoperand : ReadsBack source r .additive operand s s₁)
    (hnot : s₁.Shows source (Piece.negation negated) s₂) (hat : s₂.At source (.keyword "IN"))
    (hitems : ReadsBack source r .primary items s₂.advance s') :
    ReadsBack source r .comparison (.isIn negated operand items) s s' := by
  obtain ⟨n, hn, hnOutline⟩ := hoperand
  obtain ⟨m, hm, hmOutline⟩ := hitems
  rw [reader] at hn
  rw [reader] at hm
  have hop : s₂.At source BinaryOp.member.piece := hat
  have hrest : comparisonOf r .member n s₂.advance = .ok (binary .member n m, s') := bind_of_ok hm
  refine ⟨_, comparison_of_operator hn hnot hop rfl (fun _ => rfl) hrest, ?_⟩
  rw [outline_negated, outline_binary, hnOutline, hmOutline]
  rfl

/-- `BETWEEN` or `NOT BETWEEN`; its `AND` is not the operator. -/
theorem readsBack_between {operand low high : Expr} {negated : Bool} {s₃ : Stream}
    (hoperand : ReadsBack source r .additive operand s s₁)
    (hnot : s₁.Shows source (Piece.negation negated) s₂)
    (hat : s₂.At source (.keyword "BETWEEN"))
    (hlow : ReadsBack source r .additive low s₂.advance s₃)
    (hand : s₃.At source (.keyword "AND"))
    (hhigh : ReadsBack source r .additive high s₃.advance s') :
    ReadsBack source r .comparison (.between negated operand low high) s s' := by
  obtain ⟨n, hn, hnOutline⟩ := hoperand
  obtain ⟨l, hl, hlOutline⟩ := hlow
  obtain ⟨m, hm, hmOutline⟩ := hhigh
  rw [reader] at hn hl hm
  have hop : s₂.At source BinaryOp.between.piece := hat
  have hrest : comparisonOf r .between n s₂.advance =
      .ok (.mk (.binary .between) (n.span.cover m.span) [n, l, m], s') := by
    rw [comparisonOf, bind_of_ok hl,
      bind_of_ok (expectWord_of_atWord ((hand.atWord _).trans (by simp))),
      bind_of_ok hm]
    rfl
  refine ⟨_, comparison_of_operator hn hnot hop rfl (fun _ => rfl) hrest, ?_⟩
  rw [outline_negated, Expr.outline, ← hnOutline, ← hlOutline, ← hmOutline,
    Node.outline_mk rfl (by simp)]
  rfl

/-- The rest of a `LIKE` is read with `ESCAPE` or without, and the escape becomes a third part of
the node. -/
theorem exists_comparisonOf_like {pattern : Expr} {escape : Option Expr}
    (hpattern : ReadsBack source r .additive pattern s s₁)
    (hshows : s₁.Shows source (Expr.optionPieces [.keyword "ESCAPE"] escape) s')
    (hescape : ∀ e ∈ escape, ∀ t, t.Shows source e.pieces s' →
      ReadsBack source r .additive e t s')
    (hend : s'.atWord "escape" = false) :
    ∃ k, comparisonOf r .like lhs s = .ok (k, s') ∧
      k.outline source = .node (.binary .like)
        (lhs.outline source :: pattern.outline :: Expr.optionOutline escape) := by
  obtain ⟨m, hm, hmOutline⟩ := hpattern
  rw [reader] at hm
  cases escape with
  | none =>
    obtain rfl := Stream.Shows.nil_iff.1 hshows
    refine ⟨binary .like lhs m, ?_, ?_⟩
    · rw [comparisonOf, bind_of_ok hm, bind_of_ok (eatWord_of_not hend)]
      rfl
    · rw [outline_binary, hmOutline]
      rfl
  | some e =>
    obtain ⟨hword, hshows⟩ := Stream.Shows.cons_iff.1 hshows
    obtain ⟨l, hl, hlOutline⟩ := hescape e rfl _ hshows
    rw [reader] at hl
    refine ⟨.mk (.binary .like) ((binary .like lhs m).span.cover l.span) [lhs, m, l], ?_, ?_⟩
    · rw [comparisonOf, bind_of_ok hm,
        bind_of_ok (eatWord_of_atWord ((hword.atWord _).trans (by simp)))]
      simp only [if_true]
      rw [bind_of_ok hl]
      rfl
    · rw [Node.outline_mk rfl (by simp), List.map_cons, List.map_cons, List.map_singleton,
        hmOutline, hlOutline]
      rfl

/-- A test with `LIKE` or `NOT LIKE` is read back if its operand, its pattern and its escape are.
-/
theorem readsBack_like {operand pattern : Expr} {escape : Option Expr} {negated : Bool}
    {s₃ : Stream} (hoperand : ReadsBack source r .additive operand s s₁)
    (hnot : s₁.Shows source (Piece.negation negated) s₂) (hat : s₂.At source (.keyword "LIKE"))
    (hpattern : ReadsBack source r .additive pattern s₂.advance s₃)
    (hshows : s₃.Shows source (Expr.optionPieces [.keyword "ESCAPE"] escape) s')
    (hescape : ∀ e ∈ escape, ∀ t, t.Shows source e.pieces s' →
      ReadsBack source r .additive e t s')
    (hend : s'.atWord "escape" = false) :
    ReadsBack source r .comparison (.like negated operand pattern escape) s s' := by
  obtain ⟨n, hn, hnOutline⟩ := hoperand
  rw [reader] at hn
  have hop : s₂.At source BinaryOp.like.piece := hat
  obtain ⟨k, hrest, hkOutline⟩ := exists_comparisonOf_like hpattern hshows hescape hend
  refine ⟨_, comparison_of_operator hn hnot hop rfl (fun _ => rfl) hrest, ?_⟩
  rw [outline_negated, hkOutline, hnOutline]
  rfl

end Comparisons

/-! ### The lengths of parts -/

namespace Expr

/-- Each item behind the first is no longer than all of them with the commas between. -/
theorem length_le_of_mem_items {e : Expr} {rest : List Expr} (h : e ∈ rest) :
    e.pieces.length ≤ (itemPieces rest).length := by
  induction rest with
  | nil => cases h
  | cons first rest ih =>
    rw [itemPieces, List.length_append, List.length_cons]
    rcases List.mem_cons.1 h with rfl | h
    · omega
    · have hle := ih h
      omega

/-- Each argument is no longer than all of them with their labels and commas. -/
theorem length_le_of_mem_arguments {a : Option Identifier × Expr}
    {arguments : List (Option Identifier × Expr)} (h : a ∈ arguments) (front : List Piece) :
    a.2.pieces.length ≤ (argumentPieces front arguments).length := by
  induction arguments generalizing front with
  | nil => cases h
  | cons first rest ih =>
    obtain ⟨label, e⟩ := first
    rw [argumentPieces, List.length_append, List.length_append]
    rcases List.mem_cons.1 h with rfl | h
    · dsimp only
      omega
    · have hle := ih h [.comma]
      omega

/-- Each choice and each result is no longer than all branches together. -/
theorem length_le_of_mem_branches {b : Expr × Expr} {branches : List (Expr × Expr)}
    (h : b ∈ branches) : b.1.pieces.length ≤ (branchPieces branches).length ∧
      b.2.pieces.length ≤ (branchPieces branches).length := by
  induction branches with
  | nil => cases h
  | cons first rest ih =>
    obtain ⟨choice, result⟩ := first
    simp only [branchPieces, List.length_append, List.length_cons]
    rcases List.mem_cons.1 h with rfl | h
    · dsimp only
      omega
    · have hle := ih h
      omega

/-- An optional part is no longer than itself with what is written in front of it. -/
theorem length_le_of_mem_option {e : Expr} {e? : Option Expr} (h : e ∈ e?) (front : List Piece) :
    e.pieces.length ≤ (optionPieces front e?).length := by
  obtain rfl := h
  rw [optionPieces, List.length_append]
  omega

end Expr

/-! ### Reading back by levels -/

/-- The reader of the level gets to the end of the expression, wherever its last
part ends there. -/
def Expr.Reached (source : String) (level : Level) (e : Expr) : Prop :=
  ∀ ⦃depth s s'⦄, e.pieces.length ≤ depth → s.Shows source e.pieces s' → s'.Stops level.inner →
    ∃ n, Reaches (rules depth) level s n s' ∧ n.outline source = e.outline

section Levels

variable {source : String} {level : Level} {depth : Nat} {e : Expr} {s s' : Stream}

/-- Where nothing follows that binds at the level, the expression is read back. -/
theorem Expr.Reached.readsBack (h : e.Reached source level) (hdepth : e.pieces.length ≤ depth)
    (hshows : s.Shows source e.pieces s') (hstops : s'.Stops level) :
    ReadsBack source (rules depth) level e s s' := by
  obtain ⟨n, hn, houtline⟩ := h hdepth hshows (hstops.mono level.rank_le_inner)
  exact ⟨n, hn.done hstops, houtline⟩

/-- An expression inside another phrase is read one rule further in. -/
theorem Expr.Reached.inside (h : e.Reached source .or) (hdepth : e.pieces.length < depth) :
    (rules depth).ReadsBack source e := by
  intro s s' hshows hstops
  obtain ⟨outer, rfl⟩ := Nat.exists_eq_add_of_lt hdepth
  exact h.readsBack (Nat.le_add_right _ outer) hshows hstops

/-- A reader without a loop is done at once: when it has read an expression it has reached its end.
-/
theorem ReadsBack.reaches {r : Rules} (h : ReadsBack source r level e s s')
    (hloops : level.loops = false) :
    ∃ n, Reaches r level s n s' ∧ n.outline source = e.outline := by
  obtain ⟨n, hn, houtline⟩ := h
  refine ⟨n, ?_, houtline⟩
  rw [Reaches, if_neg (by simp [hloops])]
  exact hn

/-- A list in parentheses is read back as itself, and as a primary expression it need not be
enclosed anywhere. -/
theorem reached_list {first : Expr} {rest : List Expr} (hlead : Piece.Lead .or first.pieces)
    (hitems : ∀ e ∈ first :: rest, e.Reached source .or) :
    (Expr.list first rest).Reached source .primary := by
  intro depth s s' hdepth hshows _
  simp only [Expr.pieces, List.length_append, List.length_cons, List.length_nil] at hdepth
  simp only [Expr.pieces, Stream.Shows.append_iff, Stream.Shows.cons_iff,
    Stream.Shows.nil_iff, List.cons_append] at hshows
  obtain ⟨hopen, t, ⟨u, hfirst, hrest⟩, hclose, rfl⟩ := hshows
  obtain ⟨p, hat, hp⟩ := hlead.exists_at hfirst
  have hquery : atQuery s.advance = false := by
    rw [atQuery, hat.not_atWord_of_starts hp (by decide), hat.not_atWord_of_starts hp (by decide)]
    rfl
  have hinside := Stream.Shows.append_iff.2 ⟨u, hfirst, hrest⟩
  refine (readsBack_list hopen hinside hclose hquery ?_).reaches rfl
  intro e he
  apply (hitems e he).inside
  rcases List.mem_cons.1 he with rfl | he
  · omega
  · have hle := Expr.length_le_of_mem_items he
    omega

/-- A `CASE` expression is read back as itself, and as a primary expression it need not be enclosed
anywhere. -/
theorem reached_case {selector otherwise : Option Expr} {branches : List (Expr × Expr)}
    (hne : selector.isSome ∨ branches ≠ [])
    (hlead : ∀ e ∈ selector, Piece.Lead .or e.pieces)
    (hselector : ∀ e ∈ selector, e.Reached source .or)
    (hchoices : ∀ b ∈ branches, b.1.Reached source .or)
    (hresults : ∀ b ∈ branches, b.2.Reached source .or)
    (hotherwise : ∀ e ∈ otherwise, e.Reached source .or) :
    (Expr.case selector branches otherwise).Reached source .primary := by
  intro depth s s' hdepth hshows _
  simp only [Expr.pieces, List.length_append, List.length_cons, List.length_nil] at hdepth
  refine (readsBack_case hne hshows ?_ ?_ ?_ ?_).reaches rfl
  · intro e he
    have hle := Expr.length_le_of_mem_option he []
    exact ⟨(hselector e he).inside (by omega), hlead e he⟩
  · intro b hb
    have hle := Expr.length_le_of_mem_branches hb
    exact (hchoices b hb).inside (by omega)
  · intro b hb
    have hle := Expr.length_le_of_mem_branches hb
    exact (hresults b hb).inside (by omega)
  · intro e he
    have hle := Expr.length_le_of_mem_option he [.keyword "ELSE"]
    exact (hotherwise e he).inside (by omega)

/-- A member behind an expression that is read back is read back too, at the level of suffixes. -/
theorem reached_member {base : Expr} (field : Identifier) (hbase : base.Reached source .suffix) :
    (Expr.member base field).Reached source .suffix := by
  intro depth s s' hdepth hshows _
  simp only [Expr.pieces, List.length_append, List.length_cons, List.length_nil] at hdepth
  simp only [Expr.pieces, Stream.Shows.append_iff, Stream.Shows.cons_iff,
    Stream.Shows.nil_iff] at hshows
  obtain ⟨t, hshows, hdot, hfield, rfl⟩ := hshows
  have hle : base.pieces.length ≤ depth := by omega
  obtain ⟨n, hn, houtline⟩ := hbase hle hshows (hdot.stops .suffix rfl (by decide))
  obtain ⟨m, hm, hmOutline⟩ := exists_suffix_member n hdot hfield
  refine ⟨m, hn.turn rfl hm ?_, ?_⟩
  · have hlength := hdot.length_advance
    have hlength' := hfield.length_advance
    omega
  · rw [hmOutline, houtline]
    rfl

/-- Arguments behind an expression that is read back are read back too, at the level of
suffixes. -/
theorem reached_call {callee : Expr} {arguments : List (Option Identifier × Expr)}
    (hcallee : callee.Reached source .suffix)
    (hlead : ∀ a ∈ arguments, Piece.Lead .or a.2.pieces)
    (harguments : ∀ a ∈ arguments, a.2.Reached source .or) :
    (Expr.call callee arguments).Reached source .suffix := by
  intro depth s s' hdepth hshows _
  simp only [Expr.pieces, List.length_append, List.length_cons, List.length_nil] at hdepth
  simp only [Expr.pieces, Stream.Shows.append_iff, Stream.Shows.cons_iff,
    Stream.Shows.nil_iff, List.cons_append, List.append_assoc] at hshows
  obtain ⟨t, hshows, hopen, u, hinner, hclose, rfl⟩ := hshows
  have hle : callee.pieces.length ≤ depth := by omega
  obtain ⟨n, hn, houtline⟩ := hcallee hle hshows (hopen.stops .suffix rfl (by decide))
  have hinside : ∀ a ∈ arguments,
      (rules depth).ReadsBack source a.2 ∧ Piece.Lead .or a.2.pieces := by
    intro a ha
    have hle := Expr.length_le_of_mem_arguments ha []
    exact ⟨(harguments a ha).inside (by omega), hlead a ha⟩
  obtain ⟨m, hm, hmOutline⟩ := exists_suffix_call n hopen hinner hclose hinside
  refine ⟨m, hn.turn rfl hm ?_, ?_⟩
  · have hlength := hopen.length_advance
    have hinnerLength := hinner.length
    have hlength' := hclose.length_advance
    omega
  · rw [hmOutline, houtline]
    rfl

/-- At the piece of a sign that sign is read. -/
theorem sign?_of_at {op : Sign} (hat : s.At source op.piece) : sign? s = some op.op := by
  have hword := hat.atWord
  rw [sign?, hat.kind]
  cases op with
  | neg | plus => rfl
  | prior => exact if_pos ((hword _).trans (by simp [Sign.piece]))

/-- A sign in front of an expression that is read back is read back too, at the level of signs. -/
theorem reached_sign (op : Sign) {operand : Expr} (hoperand : operand.Reached source .sign) :
    (Expr.sign op operand).Reached source .sign := by
  intro depth s s' hdepth hshows hstops
  rw [Expr.pieces, List.length_cons] at hdepth
  obtain ⟨hat, hshows⟩ := Stream.Shows.cons_iff.1 hshows
  obtain ⟨outer, rfl⟩ := Nat.exists_eq_add_of_lt hdepth
  obtain ⟨n, hn, houtline⟩ := hoperand.readsBack (Nat.le_add_right _ outer) hshows hstops
  refine ReadsBack.reaches ⟨unary op.op s.peek.span n, ?_, ?_⟩ rfl
  · rw [reader, signed, get_bind, sign?_of_at hat]
    simp only
    rw [bump_bind]
    exact bind_of_ok hn
  · rw [outline_unary, houtline]
    rfl

/-- A negation of an expression that is read back is read back too, at the level of negations. -/
theorem reached_not {operand : Expr} (hoperand : operand.Reached source .not) :
    (Expr.not operand).Reached source .not := by
  intro depth s s' hdepth hshows hstops
  rw [Expr.pieces, List.length_cons] at hdepth
  obtain ⟨hat, hshows⟩ := Stream.Shows.cons_iff.1 hshows
  obtain ⟨outer, rfl⟩ := Nat.exists_eq_add_of_lt hdepth
  obtain ⟨n, hn, houtline⟩ := hoperand.readsBack (Nat.le_add_right _ outer) hshows hstops
  refine ReadsBack.reaches ⟨unary .not s.peek.span n, ?_, ?_⟩ rfl
  · rw [reader, negation, get_bind, if_pos ((hat.atWord _).trans (by simp)), bump_bind]
    exact bind_of_ok hn
  · rw [outline_unary, houtline]
    rfl

/-- Operators of one level are grouped from the left, with one turn of the loop for each of them.
-/
theorem reached_binary {op : BinaryOp} {lhs rhs : Expr} (hop : op.level? = some level)
    (hlevel : level ≠ .comparison) (hlhs : lhs.Reached source level)
    (hrhs : rhs.Reached source level.next) : (Expr.binary op lhs rhs).Reached source level := by
  intro depth s s' hdepth hshows hstops
  have hloops := loops_of_level? hop hlevel
  simp only [Expr.pieces, List.length_append, List.length_cons] at hdepth
  simp only [Expr.pieces, Stream.Shows.append_iff, Stream.Shows.cons_iff] at hshows
  obtain ⟨t, hleft, hat, hright⟩ := hshows
  have hinner : level.inner = level.next := by rw [Level.inner, if_pos hloops]
  rw [hinner] at hstops
  have hle : lhs.pieces.length ≤ depth := by omega
  have hle' : rhs.pieces.length ≤ depth := by omega
  have hbinding : op.piece.binding = some level := by rw [op.binding_piece, hop]; rfl
  have hbefore := hat.stops level hbinding (Level.rank_lt_inner hloops)
  obtain ⟨n, hn, hnOutline⟩ := hlhs hle hleft hbefore
  obtain ⟨m, hm, hmOutline⟩ := hrhs.readsBack hle' hright hstops
  refine ⟨binary op n m, hn.turn hloops (turn_of_at hat hop hlevel hm) ?_, ?_⟩
  · have hlength := hat.length_advance
    have hrightLength := hright.length
    omega
  · rw [outline_binary, hnOutline, hmOutline]
    rfl

/-- A comparison of two expressions of the additive level that are read back is read back too. -/
theorem reached_comparison {op : BinaryOp} {lhs rhs : Expr} (hop : op.level? = some .comparison)
    (hlhs : lhs.Reached source .additive) (hrhs : rhs.Reached source .additive) :
    (Expr.binary op lhs rhs).Reached source .comparison := by
  intro depth s s' hdepth hshows hstops
  simp only [Expr.pieces, List.length_append, List.length_cons] at hdepth
  simp only [Expr.pieces, Stream.Shows.append_iff, Stream.Shows.cons_iff] at hshows
  obtain ⟨t, hleft, hat, hright⟩ := hshows
  have hbinding : op.piece.binding = some .comparison := by
    rw [op.binding_piece, hop]
    rfl
  have hbefore := hat.stops .comparison hbinding (by decide : _ < Level.additive.rank)
  refine (readsBack_comparison hop (hlhs.readsBack ?_ hleft hbefore) hat
    (hrhs.readsBack ?_ hright (hstops.mono (by decide)))).reaches rfl
  · omega
  · omega

/-- A test for null of an expression that is read back is read back too, negated or not. -/
theorem reached_nullTest (negated : Bool) {operand : Expr}
    (hoperand : operand.Reached source .additive) :
    (Expr.nullTest negated operand).Reached source .comparison := by
  intro depth s s' hdepth hshows _
  simp only [Expr.pieces, List.length_append] at hdepth
  simp only [Expr.pieces, List.append_assoc, List.cons_append, Stream.Shows.append_iff,
    Stream.Shows.cons_iff, Stream.Shows.nil_iff] at hshows
  obtain ⟨t, hleft, hat, u, hnot, hnull, rfl⟩ := hshows
  have hstops : t.Stops .additive := hat.stops .comparison (by simp [wordBinding]) (by decide)
  refine (readsBack_nullTest (hoperand.readsBack ?_ hleft hstops) hat hnot hnull).reaches rfl
  omega

/-- The left side of a comparison ends in front of its operator or of `NOT`. -/
theorem stops_of_negation {negated : Bool} {p : Piece}
    (hnot : s.Shows source (Piece.negation negated) s') (hat : s'.At source p)
    (hp : p.binding = some .comparison) : s.Stops .additive := by
  cases negated with
  | false =>
    obtain rfl := Stream.Shows.nil_iff.1 hnot
    exact hat.stops .comparison hp (by decide)
  | true => exact hnot.at_of_cons.stops .comparison (by simp [wordBinding]) (by decide)

/-- A test for membership is read back if its operand and its list are, negated or not. -/
theorem reached_isIn (negated : Bool) {operand items : Expr}
    (hoperand : operand.Reached source .additive) (hitems : items.Reached source .primary) :
    (Expr.isIn negated operand items).Reached source .comparison := by
  intro depth s s' hdepth hshows hstops
  simp only [Expr.pieces, List.length_append, List.length_cons] at hdepth
  simp only [Expr.pieces, List.append_assoc, Stream.Shows.append_iff,
    Stream.Shows.cons_iff] at hshows
  obtain ⟨t, hleft, u, hnot, hat, hright⟩ := hshows
  have hleftStops := stops_of_negation hnot hat (by simp [wordBinding])
  refine (readsBack_isIn (hoperand.readsBack ?_ hleft hleftStops) hnot hat
    (hitems.readsBack ?_ hright (hstops.mono (by decide)))).reaches rfl
  · omega
  · omega

/-- A test for a range is read back if its operand and its bounds are: the `AND` between the bounds
belongs to neither of them. -/
theorem reached_between (negated : Bool) {operand low high : Expr}
    (hoperand : operand.Reached source .additive) (hlow : low.Reached source .additive)
    (hhigh : high.Reached source .additive) :
    (Expr.between negated operand low high).Reached source .comparison := by
  intro depth s s' hdepth hshows hstops
  simp only [Expr.pieces, List.length_append, List.length_cons] at hdepth
  simp only [Expr.pieces, List.append_assoc, List.cons_append, Stream.Shows.append_iff,
    Stream.Shows.cons_iff] at hshows
  obtain ⟨t, hleft, u, hnot, hat, v, hlowShows, hand, hhighShows⟩ := hshows
  have hleftStops := stops_of_negation hnot hat (by simp [wordBinding])
  have hlowStops : v.Stops .additive := hand.stops .and (by simp [wordBinding]) (by decide)
  refine (readsBack_between (hoperand.readsBack ?_ hleft hleftStops) hnot hat
    (hlow.readsBack ?_ hlowShows hlowStops) hand
    (hhigh.readsBack ?_ hhighShows (hstops.mono (by decide)))).reaches rfl
  · omega
  · omega
  · omega

/-- A test against a pattern is read back if its parts are: the pattern ends in front of `ESCAPE`,
or where the whole comparison does. -/
theorem reached_like (negated : Bool) {operand pattern : Expr} {escape : Option Expr}
    (hoperand : operand.Reached source .additive) (hpattern : pattern.Reached source .additive)
    (hescape : ∀ e ∈ escape, e.Reached source .additive) :
    (Expr.like negated operand pattern escape).Reached source .comparison := by
  intro depth s s' hdepth hshows hstops
  simp only [Expr.pieces, List.length_append, List.length_cons] at hdepth
  simp only [Expr.pieces, List.append_assoc, List.cons_append, Stream.Shows.append_iff,
    Stream.Shows.cons_iff] at hshows
  obtain ⟨t, hleft, u, hnot, hat, v, hpatternShows, hescapeShows⟩ := hshows
  have hleftStops := stops_of_negation hnot hat (by simp [wordBinding])
  have hadditive : s'.Stops .additive := hstops.mono (by decide)
  have hpatternStops : v.Stops .additive := by
    cases escape with
    | none =>
      obtain rfl := Stream.Shows.nil_iff.1 hescapeShows
      exact hadditive
    | some e => exact hescapeShows.at_of_cons.stops .comparison (by simp [wordBinding]) (by decide)
  have hend : s'.atWord "escape" = false := by
    rw [Bool.eq_false_iff]
    exact fun hword => hstops.ne (Nat.le_refl _) (Stream.binding_of_atWord hword)
  refine (readsBack_like (hoperand.readsBack ?_ hleft hleftStops) hnot hat
    (hpattern.readsBack ?_ hpatternShows hpatternStops) hescapeShows ?_ hend).reaches rfl
  · omega
  · omega
  · intro e he t ht
    have hle := Expr.length_le_of_mem_option he [.keyword "ESCAPE"]
    exact (hescape e he).readsBack (by omega) ht hadditive

/-- What binds more tightly is read where something looser is asked for. -/
theorem reached_looser (hlead : Piece.Lead level.next e.pieces)
    (h : e.Reached source level.next) : e.Reached source level := by
  intro depth s s' hdepth hshows hstops
  by_cases hloops : level.loops = true
  · rw [Level.inner, if_pos hloops] at hstops
    obtain ⟨n, hn, houtline⟩ := h.readsBack hdepth hshows hstops
    exact ⟨n, .first hloops hn, houtline⟩
  · rw [Level.inner, if_neg hloops] at hstops
    obtain ⟨n, hn, houtline⟩ := h.readsBack hdepth hshows (hstops.mono level.rank_le_next)
    obtain ⟨p, hat, hp⟩ := hlead.exists_at hshows
    refine ReadsBack.reaches ⟨n, ?_, houtline⟩ (Bool.eq_false_iff.2 hloops)
    cases level with
    | not =>
      have hnot : s.atWord "not" = false := hat.not_atNot_of_starts hp (by decide)
      rw [reader, negation, get_bind, if_neg (by simp [hnot])]
      exact hn
    | comparison => exact comparison_of_stops hn hstops
    | sign =>
      rw [reader, signed, get_bind, hat.sign?_of_starts hp (by decide)]
      exact hn
    | primary => exact hn
    | or | and | additive | multiplicative | power | suffix => exact absurd rfl hloops

/-- **Expressions are read back.**  The reader of a level gets to the end of every
expression that stands at the level. -/
theorem Expr.Stands.reached (h : e.Stands .primary level) : e.Reached source level := by
  induction h with
  | name id =>
    intro depth s s' _ hshows _
    obtain ⟨hat, hend⟩ := Stream.Shows.cons_iff.1 hshows
    obtain rfl := Stream.Shows.nil_iff.1 hend
    exact (readsBack_name hat).reaches rfl
  | literal l =>
    intro depth s s' _ hshows _
    obtain ⟨hat, hend⟩ := Stream.Shows.cons_iff.1 hshows
    obtain rfl := Stream.Shows.nil_iff.1 hend
    exact (readsBack_literal hat).reaches rfl
  | list hfirst hrest ihfirst ihrest =>
    apply reached_list hfirst.lead
    intro e he
    rcases List.mem_cons.1 he with rfl | he
    · exact ihfirst
    · exact ihrest e he
  | case hne hselector _ _ _ ihselector ihchoices ihresults ihotherwise =>
    exact reached_case hne (fun e he => (hselector e he).lead) ihselector ihchoices ihresults
      ihotherwise
  | member hbase field ih => exact reached_member field ih
  | call hcallee harguments ihcallee iharguments =>
    exact reached_call ihcallee (fun a ha => (harguments a ha).lead) iharguments
  | sign op hoperand ih => exact reached_sign op ih
  | binary hop hlevel hlhs hrhs ihlhs ihrhs => exact reached_binary hop hlevel ihlhs ihrhs
  | comparison hop hlhs hrhs ihlhs ihrhs => exact reached_comparison hop ihlhs ihrhs
  | nullTest negated hoperand ih => exact reached_nullTest negated ih
  | like negated _ _ _ ihoperand ihpattern ihescape =>
    exact reached_like negated ihoperand ihpattern ihescape
  | isIn negated hoperand hitems ihoperand ihitems => exact reached_isIn negated ihoperand ihitems
  | between negated hoperand hlow hhigh ihoperand ihlow ihhigh =>
    exact reached_between negated ihoperand ihlow ihhigh
  | not hoperand ih => exact reached_not ih
  | looser h ih => exact reached_looser h.lead ih

end Levels

end PlsqlAudit
