import Mathlib.Logic.Relation
import PlsqlAudit.Proofs.Following
import PlsqlAudit.Proofs.Printing

/-!
# Running parsers on pieces

A stream shows the pieces that stand in front of it (`Stream.Shows`), and what a
parser does there is found by running it piece by piece.  A loop is run turn by
turn: each turn that goes on reads a token, so the bound of the loop is never met
(`Parser.loop_of_turns`).
-/

namespace PlsqlAudit

/-- The token in print. -/
def Token.piece (t : Token) : Piece := ⟨t.kind, t.text⟩

namespace Stream

/-- The next token is the piece, and covers its text. -/
structure At (source : String) (s : Stream) (p : Piece) : Prop where
  rest : s.rest ≠ []
  piece : s.peek.piece = p
  text : s.peek.span.text source = p.text

/-- The next tokens of a stream are the pieces, and the second stream is what they
leave. -/
inductive Shows (source : String) : Stream → List Piece → Stream → Prop
  | nil (s : Stream) : Shows source s [] s
  | cons {s s' : Stream} {p : Piece} {ps : List Piece} (hat : s.At source p)
    (h : Shows source s.advance ps s') : Shows source s (p :: ps) s'

variable {source : String} {s s' s'' : Stream} {p : Piece} {ps qs : List Piece}

namespace At

/-- A stream at a piece stands at a token of the kind of the piece. -/
theorem kind (h : s.At source p) : s.kind = p.kind := congrArg Piece.kind h.piece

/-- Asking a stream at a piece for a kind is asking the piece. -/
theorem atKind (h : s.At source p) (kind : TokenKind) : s.atKind kind = (p.kind == kind) := by
  rw [Stream.atKind, h.kind]

/-- The text of the next token in lower case is that of the piece. -/
theorem lowerText (h : s.At source p) : s.peek.lowerText = p.lowerText :=
  congrArg Piece.lowerText h.piece

/-- Asking a stream at a piece for a word is asking the piece, in whatever case either is
written. -/
theorem atWord (h : s.At source p) (word : String) : s.atWord word = p.isWord word :=
  congrArg (Piece.isWord · word) h.piece

/-- Asking for one of several words comes down to the kind of the piece and its text in lower
case. -/
theorem atAnyWord (h : s.At source p) (words : List String) :
    s.atAnyWord words = (p.kind == .word && words.contains p.lowerText) :=
  congrArg (fun p : Piece => p.kind == .word && words.contains p.lowerText) h.piece

/-- Moving past a piece leaves one token less. -/
theorem length_advance (h : s.At source p) : s.rest.length = s.advance.rest.length + 1 := by
  obtain ⟨token, rest, hrest⟩ := List.exists_cons_of_ne_nil h.rest
  simp [advance, hrest]

/-- The leaf for a piece has the text of the piece for its outline. -/
theorem outline_leaf (h : s.At source p) (kind : Kind) :
    (Node.leaf kind s.peek.span).outline source = .leaf kind p.text := by
  rw [Node.leaf, Node.outline, h.text]
  rfl

end At

namespace Shows

/-- A stream that shows no pieces has not moved. -/
@[simp] theorem nil_iff : Shows source s [] s' ↔ s = s' := by
  constructor
  · intro h
    cases h
    rfl
  · rintro rfl
    exact .nil s

/-- A stream shows a first piece and more if it stands at the first one and shows the others behind
it. -/
@[simp] theorem cons_iff :
    Shows source s (p :: ps) s' ↔ s.At source p ∧ Shows source s.advance ps s' := by
  constructor
  · intro h
    cases h with
    | cons hat h => exact ⟨hat, h⟩
  · intro h
    exact .cons h.1 h.2

/-- Pieces shown one list after the other are shown from a stream in between. -/
@[simp] theorem append_iff :
    Shows source s (ps ++ qs) s'' ↔ ∃ s', Shows source s ps s' ∧ Shows source s' qs s'' := by
  induction ps generalizing s with
  | nil => simp
  | cons p ps ih => simp [ih, and_assoc]

/-- Every piece that is shown takes one token off what is left. -/
theorem length (h : Shows source s ps s') : s.rest.length = ps.length + s'.rest.length := by
  induction h with
  | nil s => simp
  | cons hat _ ih =>
    rw [hat.length_advance, ih, List.length_cons]
    omega

/-- The first piece is where the stream stands. -/
theorem at_of_cons (h : Shows source s (p :: ps) s') : s.At source p := (cons_iff.1 h).1

end Shows

/-- A skip does not move where it is to stop. -/
theorem skipUntil_of_stop {stop : Stream → Bool} (h : stop s = true) : s.skipUntil stop = s := by
  obtain ⟨source, last, rest, eof⟩ := s
  cases rest with
  | nil => rfl
  | cons token rest =>
    rw [skipUntil, skipFrom, if_pos (by simp [h])]

end Stream

namespace Parser

variable {α β : Type} {s s₁ s' s'' : Stream}

/-! ### Single tokens -/

/-- A token of the wanted kind is eaten, and the answer says so. -/
theorem eat_of_atKind {kind : TokenKind} (h : s.atKind kind = true) :
    eat kind s = .ok (true, s.advance) := by
  rw [eat, get_bind, if_pos h]
  rfl

/-- A token of another kind is left where it is. -/
theorem eat_of_not {kind : TokenKind} (h : s.atKind kind = false) :
    eat kind s = .ok (false, s) := by
  rw [eat, get_bind, if_neg (by simp [h])]
  rfl

/-- The wanted word is eaten, and the answer says so. -/
theorem eatWord_of_atWord {word : String} (h : s.atWord word = true) :
    eatWord word s = .ok (true, s.advance) := by
  rw [eatWord, get_bind, if_pos h]
  rfl

/-- Another word, or no word at all, is left where it is. -/
theorem eatWord_of_not {word : String} (h : s.atWord word = false) :
    eatWord word s = .ok (false, s) := by
  rw [eatWord, get_bind, if_neg (by simp [h])]
  rfl

/-- A token that has to come is given back and passed where it comes. -/
theorem expect_of_atKind {kind : TokenKind} (expected : String) (h : s.atKind kind = true) :
    expect kind expected s = .ok (s.peek, s.advance) := by
  rw [expect, get_bind, if_pos h]
  rfl

/-- A word that has to come is given back and passed where it comes. -/
theorem expectWord_of_atWord {word : String} (h : s.atWord word = true) :
    expectWord word s = .ok (s.peek, s.advance) := by
  rw [expectWord, get_bind, if_pos h]
  rfl

/-! ### Parts that may be missing -/

/-- A part that is missing or read, listed. -/
def Optional (p : Parser α) (missing : Prop) (list : List α) (s s' : Stream) : Prop :=
  (missing ∧ list = [] ∧ s = s') ∨ (¬ missing ∧ ∃ a, list = [a] ∧ p s = .ok (a, s'))

/-- Where the grammar asks for what is missing, the run goes on with the part in a list, or with
the empty list. -/
theorem Optional.unless_run {p : Parser α} {f : List α → Parser β} {missing : Prop}
    [Decidable missing] {list : List α} (h : Optional p missing list s s') :
    (if missing then pure [] >>= f else p >>= fun a => pure [a] >>= f) s = f list s' := by
  rcases h with ⟨hmissing, rfl, rfl⟩ | ⟨hpresent, a, rfl, ha⟩
  · rw [if_pos hmissing]
    rfl
  · rw [if_neg hpresent, bind_of_ok ha]
    rfl

/-- Where the grammar asks for what is present, the run goes on with the part in a list, or with
the empty list. -/
theorem Optional.if_run {p : Parser α} {f : List α → Parser β} {present : Prop}
    [Decidable present] {list : List α} (h : Optional p (¬ present) list s s') :
    (if present then p >>= fun a => pure [a] >>= f else pure [] >>= f) s = f list s' := by
  rcases h with ⟨hmissing, rfl, rfl⟩ | ⟨hpresent, a, rfl, ha⟩
  · rw [if_neg hmissing]
    rfl
  · rw [if_pos (Classical.not_not.1 hpresent), bind_of_ok ha]
    rfl

/-! ### Loops -/

/-- One turn of a loop that goes on, and reads something. -/
def Turn (step : β → Parser (Option β)) (now later : β × Stream) : Prop :=
  step now.1 now.2 = .ok (some later.1, later.2) ∧ later.2.rest.length < now.2.rest.length

/-- Several turns of a loop. -/
abbrev Turns (step : β → Parser (Option β)) : β × Stream → β × Stream → Prop :=
  Relation.ReflTransGen (Turn step)

/-- A loop runs through its turns and stops in front of what ends it. Each of the turns reads a
token, so that a bound longer than the tokens is not met. -/
theorem iterate_of_turns {step : β → Parser (Option β)} {now later : β × Stream}
    (hturns : Turns step now later) (hlast : step later.1 later.2 = .ok (none, s'))
    (bound : List Token) (hbound : now.2.rest.length < bound.length) :
    iterate step bound now.1 now.2 = .ok (later.1, s') := by
  induction hturns using Relation.ReflTransGen.head_induction_on generalizing bound with
  | refl =>
    cases bound with
    | nil => simp at hbound
    | cons t bound =>
      rw [iterate, bind_of_ok hlast]
      rfl
  | head hturn _ ih =>
    cases bound with
    | nil => simp at hbound
    | cons t bound =>
      rw [iterate, bind_of_ok hturn.1]
      exact ih bound (Nat.lt_of_lt_of_le hturn.2 (Nat.le_of_lt_succ hbound))

/-- A loop answers with what its turns lead to, when the next turn would not go on. -/
theorem loop_of_turns {step : β → Parser (Option β)} {b b' : β}
    (hturns : Turns step (b, s) (b', s')) (hlast : step b' s' = .ok (none, s'')) :
    loop step b s = .ok (b', s'') := by
  rw [loop, get_bind]
  exact iterate_of_turns hturns hlast _ (by simp)

/-- Items are read for as long as the loop is to go on, and they come in the order in which they
were read. -/
theorem many_of_turns {more : Stream → Bool} {item : Parser α} {items : List α}
    (hturns : Turns (manyStep more item) ([], s) (items, s')) (hend : more s' = false) :
    many more item s = .ok (items.reverse, s') := by
  have hlast : manyStep more item items s' = .ok (none, s') := by
    rw [manyStep, get_bind, if_neg (by simp [hend])]
    rfl
  rw [many_eq_loop, bind_of_ok (loop_of_turns hturns hlast)]
  rfl

/-- Items with commas between them are read up to the first token that is not a comma. -/
theorem separated_of_turns {item : Parser α} {a : α} {items : List α}
    (hfirst : item s = .ok (a, s₁)) (hturns : Turns (separatedStep item) ([a], s₁) (items, s'))
    (hend : s'.atKind .comma = false) : separated item s = .ok (items.reverse, s') := by
  have hlast : separatedStep item items s' = .ok (none, s') := by
    rw [separatedStep, bind_of_ok (eat_of_not hend)]
    rfl
  rw [separated_eq_loop, bind_of_ok hfirst, bind_of_ok (loop_of_turns hturns hlast)]
  rfl

end Parser

end PlsqlAudit
