import PlsqlAudit.Proofs.EmbeddedExpressions
import PlsqlAudit.Proofs.ForwardRuns

/-!
# Readers for the levels

Each level of operators has its reader, and the readers are of two kinds.  Some
take an operand of the next level and go on in a loop, one operator at a time; the
others look at the next token and are done.  An expression that stands at a level
is read up to its end by the reader of the level, provided that nothing follows
that would bind to it (`Stream.Stops`).

A reader in a loop does not stop in front of an operator of its own level.  So
what is said of such a reader first is that it gets as far as the end of the
expression (`Grammar.Reaches`), whatever it does then.
-/

namespace PlsqlAudit

open PlsqlAudit.Grammar PlsqlAudit.Parser

/-! ### What follows an expression -/

/-- The level at which a word binds to the expression in front of it. -/
def wordBinding (word : String) : Option Level :=
  if word = "or" then some .or
  else if word = "and" then some .and
  else if word ∈ ["is", "not", "like", "in", "between", "escape"] then some .comparison
  else if word = "mod" then some .multiplicative
  else none

/-- The level at which a piece binds to the expression in front of it. -/
def Piece.binding (p : Piece) : Option Level :=
  match p.kind with
  | .word => wordBinding p.lowerText
  | .eq | .notEq | .lt | .gt | .ltEq | .gtEq => some .comparison
  | .plus | .minus | .concat => some .additive
  | .star | .slash => some .multiplicative
  | .power => some .power
  | .dot | .percent | .atSign | .lParen => some .suffix
  | _ => none

/-- What comes next binds more loosely than the level, if it binds at all. -/
def Stream.Stops (s : Stream) (level : Level) : Prop :=
  ∀ binding ∈ s.peek.piece.binding, binding.rank < level.rank

/-- A keyword binds as its letters in lower case do. -/
@[simp] theorem Piece.binding_keyword (text : String) :
    (keyword text).binding = wordBinding (String.ofList (text.toList.map Char.toLower)) := by
  rw [← lowerText_keyword]
  rfl

/-- An operator between two operands binds at its level; those without one are the comparisons. -/
theorem BinaryOp.binding_piece (op : BinaryOp) :
    op.piece.binding = some (op.level?.getD .comparison) := by
  cases op with
  | or | and | like | member | between | mod =>
    simp [piece, tokenKind, symbol, Piece.binding, Piece.lowerText_eq, wordBinding, level?]
  | _ => rfl

namespace Stream

variable {source : String} {s : Stream} {p : Piece} {level tighter : Level}

/-- What stops the reader of a level stops the readers of all tighter levels. -/
theorem Stops.mono (h : s.Stops level) (hle : level.rank ≤ tighter.rank) : s.Stops tighter :=
  fun binding hbinding => Nat.lt_of_lt_of_le (h binding hbinding) hle

/-- Where a level stops, nothing that binds at this level or more tightly comes next. -/
theorem Stops.ne (h : s.Stops level) {binding : Level} (hle : level.rank ≤ binding.rank) :
    s.peek.piece.binding ≠ some binding :=
  fun hbinding => absurd (h binding hbinding) (Nat.not_lt.2 hle)

/-- A piece that binds to nothing stops the readers of all levels. -/
theorem At.stops_of_none (h : s.At source p) (hp : p.binding = none) (level : Level) :
    s.Stops level := by
  intro binding hbinding
  rw [h.piece, hp] at hbinding
  cases hbinding

/-- A piece that binds more loosely than a level stops the reader of the level. -/
theorem At.stops (h : s.At source p) (binding : Level) (hp : p.binding = some binding)
    (hlt : binding.rank < level.rank) : s.Stops level := by
  intro other hother
  rw [h.piece, hp] at hother
  obtain rfl := Option.some.inj hother
  exact hlt

end Stream

/-- A word binds as its spelling in lower case says, and only as that. -/
theorem Stream.binding_of_atWord {s : Stream} {word : String} (h : s.atWord word = true) :
    s.peek.piece.binding = wordBinding word := by
  have hkind : s.peek.piece.kind = .word := Stream.kind_of_atWord h
  rw [Stream.atWord, Token.isWord, Bool.and_eq_true, beq_iff_eq, beq_iff_eq] at h
  rw [Piece.binding, hkind, ← h.2]
  rfl

/-- Any other piece binds as its kind says, whatever its text is. -/
theorem Stream.binding_of_kind {s : Stream} {kind : TokenKind} (h : s.kind = kind) :
    s.peek.piece.binding = Piece.binding ⟨kind, s.peek.text⟩ := by
  rw [← h]
  rfl

/-! ### What an expression starts with -/

/-- True for a piece that an expression of the level can start with. -/
def Piece.starts (level : Level) (p : Piece) : Bool :=
  match p.kind with
  | .word =>
    !(["select", "with", "distinct", "when"].contains p.lowerText) &&
      (level.rank ≤ Level.not.rank || p.lowerText != "not") &&
      (level.rank ≤ Level.sign.rank || p.lowerText != "prior")
  | .plus | .minus => level.rank ≤ Level.sign.rank
  | .quotedIdent | .string | .number | .bindVar | .lParen => true
  | _ => false

/-- The pieces start as an expression of the level does, and not with a label. -/
inductive Piece.Lead (level : Level) : List Piece → Prop
  | intro {first : Piece} {rest : List Piece} (hfirst : first.starts level = true)
    (hnext : ∀ p ∈ rest.head?, p.kind ≠ .arrow) : Lead level (first :: rest)

/-- An identifier can start an expression of any level, because the words with a meaning of their
own are not identifiers. -/
theorem Identifier.starts (id : Identifier) (level : Level) : id.toPiece.starts level = true := by
  have hkind := id.isIdentifier
  have hfree := id.free
  rw [Piece.starts]
  cases hword : id.kind with
  | word =>
    have hnot := hfree hword
    simp only [expressionWords, List.mem_cons, not_or] at hnot
    simp [hnot]
  | quotedIdent => rfl
  | _ => simp [hword, TokenKind.isIdentifier] at hkind

namespace Piece.Lead

variable {level tighter : Level} {ps more : List Piece}

/-- Pieces that lead an expression still do so with more behind them, unless this more starts with
the arrow of a label. -/
theorem append (h : Lead level ps) (hmore : ∀ p ∈ more.head?, p.kind ≠ .arrow) :
    Lead level (ps ++ more) := by
  obtain @⟨first, rest, hfirst, hnext⟩ := h
  rw [List.cons_append]
  refine .intro hfirst ?_
  intro p hp
  rw [List.head?_append] at hp
  rcases Option.or_eq_some_iff.1 hp with hp | ⟨-, hp⟩
  · exact hnext p hp
  · exact hmore p hp

/-- Pieces that lead an expression do not start with an arrow. -/
theorem head_ne_arrow (h : Lead level ps) (more : List Piece) :
    ∀ p ∈ (ps ++ more).head?, p.kind ≠ .arrow := by
  obtain ⟨hfirst, -⟩ := h
  intro p hp harrow
  obtain rfl := Option.some.inj hp
  rw [starts, harrow] at hfirst
  cases hfirst

/-- A piece that starts an expression of a level may stand in front of one of any other level, as a
sign or a `NOT` does. -/
theorem cons {p : Piece} (h : Lead tighter ps) (hp : p.starts level = true) :
    Lead level (p :: ps) := by
  have hnext := h.head_ne_arrow []
  rw [List.append_nil] at hnext
  exact .intro hp hnext

/-- What can start an expression of a tighter level can start one of a looser level. -/
theorem mono (h : Lead tighter ps) (hle : level.rank ≤ tighter.rank) : Lead level ps := by
  obtain ⟨hfirst, hnext⟩ := h
  refine .intro ?_ hnext
  rw [starts] at hfirst ⊢
  split at hfirst
  · simp only [Bool.and_eq_true, Bool.or_eq_true, decide_eq_true_eq] at hfirst ⊢
    obtain ⟨⟨hword, hnot⟩, hprior⟩ := hfirst
    exact ⟨⟨hword, hnot.imp_left (Nat.le_trans hle)⟩, hprior.imp_left (Nat.le_trans hle)⟩
  all_goals simp_all
  all_goals omega

/-- An expression starts with some piece. -/
theorem ne_nil (h : Lead level ps) : ps ≠ [] := by
  obtain ⟨-, -⟩ := h
  exact List.cons_ne_nil _ _

/-- The piece that an expression starts with is where the stream stands. -/
theorem exists_at {source : String} {s s' : Stream} (h : Lead level ps)
    (hshows : s.Shows source ps s') : ∃ p, s.At source p ∧ p.starts level = true := by
  obtain ⟨hfirst, -⟩ := h
  exact ⟨_, hshows.at_of_cons, hfirst⟩

end Piece.Lead

/-- None of the operators between two operands is the arrow of a label. -/
theorem BinaryOp.tokenKind_ne_arrow (op : BinaryOp) : op.tokenKind ≠ .arrow := by
  cases op <;> decide

/-- A sign can start an expression of the level of signs. -/
theorem Sign.starts_piece (op : Sign) : op.piece.starts .sign = true := by
  cases op with
  | neg | plus => rfl
  | prior => simp [piece, Piece.starts, Piece.keyword, Piece.lowerText_eq]

/-- A word with or without `NOT` in front of it does not start with the arrow of a label. -/
theorem Piece.negation_ne_arrow (negated : Bool) (word : String) (more : List Piece) :
    ∀ p ∈ (negation negated ++ keyword word :: more).head?, p.kind ≠ .arrow := by
  cases negated <;> simp [negation, keyword]

/-- What an expression starts with, by its level: nothing that a looser level would take for its
own, and never a label. -/
theorem Expr.Stands.lead {listed level : Level} {e : Expr} (h : e.Stands listed level) :
    Piece.Lead level e.pieces := by
  induction h with
  | name id => exact .intro (id.starts _) (by simp)
  | literal l =>
    refine .intro ?_ (by simp)
    cases hcls : l.cls <;> simp [Piece.starts, Literal.piece, LiteralClass.tokenKind, hcls]
  | list hfirst hrest ihfirst ihrest =>
    rw [pieces, List.append_assoc, List.cons_append]
    exact .intro rfl (ihfirst.head_ne_arrow _)
  | @case selector otherwise branches hne _ _ _ _ ihselector _ _ _ =>
    rw [pieces]
    refine .intro (by simp [Piece.starts, Piece.keyword, Piece.lowerText_eq]) ?_
    cases selector with
    | some e =>
      simp only [optionPieces, List.nil_append, List.append_eq, List.append_assoc]
      exact (ihselector e rfl).head_ne_arrow _
    | none =>
      cases branches with
      | nil => simp at hne
      | cons b rest => simp [optionPieces, branchPieces, Piece.keyword]
  | member hbase field ih => exact ih.append (by simp [Piece.dot])
  | call hcallee harguments ihcallee iharguments =>
    rw [pieces, List.append_assoc]
    exact ihcallee.append (by simp [Piece.lParen])
  | sign op hoperand ih =>
    rw [pieces]
    exact ih.cons op.starts_piece
  | binary hop hlevel hlhs hrhs ihlhs ihrhs =>
    rw [pieces]
    exact ihlhs.append (by simp [BinaryOp.piece, BinaryOp.tokenKind_ne_arrow])
  | comparison hop hlhs hrhs ihlhs ihrhs =>
    rw [pieces]
    exact (ihlhs.mono (by decide)).append (by simp [BinaryOp.piece, BinaryOp.tokenKind_ne_arrow])
  | nullTest negated hoperand ih =>
    rw [pieces, List.append_assoc]
    exact (ih.mono (by decide)).append (by simp [Piece.keyword])
  | like negated hoperand hpattern hescape ihoperand ihpattern ihescape =>
    rw [pieces, List.append_assoc, List.append_assoc]
    exact (ihoperand.mono (by decide)).append (Piece.negation_ne_arrow _ _ _)
  | isIn negated hoperand hitems ihoperand ihitems =>
    rw [pieces, List.append_assoc]
    exact (ihoperand.mono (by decide)).append (Piece.negation_ne_arrow _ _ _)
  | between negated hoperand hlow hhigh ihoperand ihlow ihhigh =>
    rw [pieces, List.append_assoc, List.append_assoc]
    exact (ihoperand.mono (by decide)).append (Piece.negation_ne_arrow _ _ _)
  | not hoperand ih =>
    rw [pieces]
    exact ih.cons (by simp [Piece.starts, Piece.keyword, Piece.lowerText_eq, Level.rank])
  | looser h ih => exact ih.mono (Level.rank_le_next _)

/-! ### Readers and their turns -/

namespace Level

/-- The levels that are read in a loop. -/
def loops : Level → Bool
  | .or | .and | .additive | .multiplicative | .power | .suffix => true
  | .not | .comparison | .sign | .primary => false

/-- The level of what is read last before the reader of `level` is asked whether to
go on. -/
def inner (level : Level) : Level := if level.loops then level.next else level

/-- A reader that goes on in a loop takes its operands from a strictly tighter level. -/
theorem rank_lt_inner {level : Level} (h : level.loops = true) : level.rank < level.inner.rank := by
  cases level with
  | or | and | additive | multiplicative | power | suffix => decide
  | not | comparison | sign | primary => cases h

/-- No reader takes its operands from a looser level. -/
theorem rank_le_inner (level : Level) : level.rank ≤ level.inner.rank := by
  rw [inner]
  split
  · exact level.rank_le_next
  · exact Nat.le_refl _

end Level

namespace Grammar

/-- The reader of a level. -/
def reader (r : Rules) : Level → Parser Node
  | .or => expression r
  | .and => chain (negation r) and?
  | .not => negation r
  | .comparison => comparison r
  | .additive => additive r
  | .multiplicative => chain (chain (signed r) power?) multiplicative?
  | .power => chain (signed r) power?
  | .sign => signed r
  | .suffix => postfixed r
  | .primary => primary r

/-- The operator of a level at a place. -/
def operator? : Level → Stream → Option BinaryOp
  | .or => or?
  | .and => and?
  | .additive => additive?
  | .multiplicative => multiplicative?
  | .power => power?
  | .not | .comparison | .sign | .suffix | .primary => fun _ => none

/-- One turn of the reader of a level. -/
def turn (r : Rules) (level : Level) : Node → Parser (Option Node) :=
  if level = .suffix then suffix r
  else Embedding.chainStep (reader r level.next) (operator? level)

/-- The reader of a level that is read in a loop takes an operand of the next level first and then
turn after turn. -/
theorem reader_eq_loop (r : Rules) {level : Level} (h : level.loops = true) :
    reader r level = (reader r level.next >>= loop (turn r level)) := by
  cases level with
  | or | and | additive | multiplicative | power | suffix => rfl
  | not | comparison | sign | primary => cases h

/-- An operator that a reader takes binds at its level. -/
theorem binding_of_operator? {level : Level} {s : Stream} {op : BinaryOp}
    (h : operator? level s = some op) : s.peek.piece.binding = some level := by
  cases level with
  | or =>
    obtain ⟨hword, -⟩ := Option.ite_none_right_eq_some.1 h
    exact Stream.binding_of_atWord hword
  | and =>
    obtain ⟨hword, -⟩ := Option.ite_none_right_eq_some.1 h
    exact Stream.binding_of_atWord hword
  | additive =>
    rw [operator?, additive?] at h
    split at h
    case h_1 hkind | h_2 hkind | h_3 hkind => exact Stream.binding_of_kind hkind
    case h_4 => cases h
  | multiplicative =>
    rw [operator?, multiplicative?] at h
    split at h
    case h_1 hkind | h_2 hkind => exact Stream.binding_of_kind hkind
    case h_3 =>
      obtain ⟨hword, -⟩ := Option.ite_none_right_eq_some.1 h
      exact Stream.binding_of_atWord hword
    case h_4 => cases h
  | power =>
    rw [operator?, power?] at h
    split at h
    case h_1 hkind => exact Stream.binding_of_kind hkind
    case h_2 => cases h
  | not | comparison | sign | suffix | primary => cases h

/-- The reader of a level takes an operator of its level where it stands. -/
theorem operator?_of_at {source : String} {level : Level} {s : Stream} {op : BinaryOp}
    (hat : s.At source op.piece) (hop : op.level? = some level) (hlevel : level ≠ .comparison) :
    operator? level s = some op := by
  have hkind := hat.kind
  have hword := hat.atWord
  cases op with
  | or | and =>
    obtain rfl := Option.some.inj hop
    exact if_pos ((hword _).trans (by simp [BinaryOp.tokenKind, BinaryOp.symbol]))
  | add | sub | concat =>
    obtain rfl := Option.some.inj hop
    rw [operator?, additive?, hkind]
    rfl
  | mul | div =>
    obtain rfl := Option.some.inj hop
    rw [operator?, multiplicative?, hkind]
    rfl
  | mod =>
    obtain rfl := Option.some.inj hop
    rw [operator?, multiplicative?, hkind]
    exact if_pos ((hword _).trans (by simp [BinaryOp.tokenKind, BinaryOp.symbol]))
  | power =>
    obtain rfl := Option.some.inj hop
    rw [operator?, power?, hkind]
    rfl
  | eq | notEq | lt | gt | ltEq | gtEq => exact absurd (Option.some.inj hop).symm hlevel
  | like | member | between => cases hop

/-- The operators that have a level are read in loops, apart from the comparisons. -/
theorem loops_of_level? {op : BinaryOp} {level : Level} (hop : op.level? = some level)
    (hlevel : level ≠ .comparison) : level.loops = true := by
  cases op with
  | or | and | concat | add | sub | mul | div | mod | power =>
    obtain rfl := Option.some.inj hop
    rfl
  | eq | notEq | lt | gt | ltEq | gtEq => exact absurd (Option.some.inj hop).symm hlevel
  | like | member | between => cases hop

/-- One turn with an operator of the level puts the operator between what was read and the operand
behind it. -/
theorem turn_of_at {source : String} {r : Rules} {level : Level} {s s' : Stream} {op : BinaryOp}
    {n m : Node} (hat : s.At source op.piece) (hop : op.level? = some level)
    (hlevel : level ≠ .comparison) (hrhs : reader r level.next s.advance = .ok (m, s')) :
    turn r level n s = .ok (some (binary op n m), s') := by
  have hsuffix : level ≠ .suffix := by
    rintro rfl
    cases op <;> cases hop
  rw [turn, if_neg hsuffix, Embedding.chainStep, get_bind, operator?_of_at hat hop hlevel]
  simp only
  rw [bump_bind, bind_of_ok hrhs]
  rfl

/-- Where nothing comes that binds to a primary expression, the loop over what follows it takes no
turn. -/
theorem suffix_of_stops (r : Rules) (n : Node) {s : Stream} (h : s.Stops .suffix) :
    suffix r n s = .ok (none, s) := by
  have hkind {kind : TokenKind} (hbinding : Piece.binding ⟨kind, s.peek.text⟩ = some .suffix) :
      s.kind ≠ kind := by
    intro hkind
    exact h.ne (Nat.le_refl _) ((Stream.binding_of_kind hkind).trans hbinding)
  rw [suffix, get_bind]
  cases hat : s.kind with
  | dot | percent | atSign | lParen => exact absurd hat (hkind rfl)
  | _ => rfl

/-- A reader stops where nothing binds at its level: its next turn reads nothing. -/
theorem turn_of_stops (r : Rules) {level : Level} (n : Node) {s : Stream}
    (h : s.Stops level) : turn r level n s = .ok (none, s) := by
  rw [turn]
  by_cases hlevel : level = .suffix
  · rw [if_pos hlevel]
    exact suffix_of_stops r n (hlevel ▸ h)
  · rw [if_neg hlevel, Embedding.chainStep, get_bind]
    cases hop : operator? level s with
    | none => rfl
    | some op => exact absurd (binding_of_operator? hop) (h.ne (Nat.le_refl _))

/-- The reader of a level gets to `s'` with `n`, and may go on from there. -/
def Reaches (r : Rules) (level : Level) (s : Stream) (n : Node) (s' : Stream) : Prop :=
  if level.loops then
    ∃ first s₁, reader r level.next s = .ok (first, s₁) ∧ Turns (turn r level) (first, s₁) (n, s')
  else reader r level s = .ok (n, s')

/-- An operand of the next level is where a loop starts. -/
theorem Reaches.first {r : Rules} {level : Level} {s s' : Stream} {n : Node}
    (hloops : level.loops = true) (h : reader r level.next s = .ok (n, s')) :
    Reaches r level s n s' := by
  rw [Reaches, if_pos hloops]
  exact ⟨n, s', h, .refl⟩

/-- One turn more brings a reader from the end of its left operand to the end of its right one. -/
theorem Reaches.turn {r : Rules} {level : Level} {s s₁ s' : Stream} {n m : Node}
    (h : Reaches r level s n s₁) (hloops : level.loops = true)
    (hturn : turn r level n s₁ = .ok (some m, s')) (hlt : s'.rest.length < s₁.rest.length) :
    Reaches r level s m s' := by
  rw [Reaches, if_pos hloops] at h ⊢
  obtain ⟨first, s₀, hfirst, hturns⟩ := h
  exact ⟨first, s₀, hfirst, hturns.tail ⟨hturn, hlt⟩⟩

/-- A reader is done where it got to, if nothing follows that binds. -/
theorem Reaches.done {r : Rules} {level : Level} {s s' : Stream} {n : Node}
    (h : Reaches r level s n s') (hstops : s'.Stops level) : reader r level s = .ok (n, s') := by
  rw [Reaches] at h
  split at h
  case isTrue hloops =>
    obtain ⟨first, s₁, hfirst, hturns⟩ := h
    rw [reader_eq_loop r hloops, bind_of_ok hfirst]
    exact loop_of_turns hturns (turn_of_stops r n hstops)
  case isFalse => exact h

end Grammar

end PlsqlAudit
