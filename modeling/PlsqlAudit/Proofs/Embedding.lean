import PlsqlAudit.Grammar.Rules
import PlsqlAudit.Proofs.TokenPlaces
import PlsqlAudit.Text.LetterCase

/-!
# A text inside a longer one

The tokens of a text can be met again in a longer text that contains it: further
on, and perhaps with more tokens after them.  An `Embedding` describes this.  The
`tail` is what follows in the longer text; if it is not empty it begins with a
slash on a line of its own, and the text itself ends with a semicolon and closes
the parentheses it opens.

`Embedding.lift` takes a place in the tokens of the text to the same place in
those of the longer one.  What a parser can ask there has the same answer at both
places, and skipping stops at the same token, as long as the text does not end
first: a place is `Open` where it still has tokens or nothing follows it.
-/

namespace PlsqlAudit

/-- Counting on by `n` lines is addition as long as the count fits into 32 bits. -/
theorem toNat_add_ofNat {line : UInt32} {n : Nat} (h : line.toNat + n < 2 ^ 32) :
    (line + UInt32.ofNat n).toNat = line.toNat + n := by
  rw [UInt32.toNat_add, UInt32.toNat_ofNat']
  omega

/-- How far a text is moved by what is put in front of it. -/
structure Shift where
  bytes : Nat
  lines : Nat
  deriving DecidableEq, Repr, Inhabited

namespace Span

/-- The span in the text that was moved; it starts in the same column. -/
def shift (d : Shift) (s : Span) : Span :=
  ⟨s.offset + d.bytes, s.length, s.line + UInt32.ofNat d.lines, s.column⟩

variable {d : Shift} {s t : Span}

/-- A span that is moved ends as many bytes further on as it is moved. -/
theorem stop_shift : (s.shift d).stop = s.stop + d.bytes := by
  simp only [stop, shift]
  omega

/-- Stretching over two spans and moving them may be done in either order. -/
theorem cover_shift : (s.shift d).cover (t.shift d) = (s.cover t).shift d := by
  rw [cover, cover, stop_shift, stop_shift]
  by_cases hstop : t.stop ≤ s.stop
  · rw [if_pos hstop, if_pos (by omega)]
  · rw [if_neg hstop, if_neg (by omega)]
    simp only [shift, Span.mk.injEq, true_and, and_true]
    omega

/-- A text with nothing in front of it is not moved at all. -/
theorem shift_zero (s : Span) : s.shift ⟨0, 0⟩ = s := by
  simp [shift]

/-- Where the line counter does not start anew, a span is moved by as many lines as its
text. -/
theorem toNat_line_shift (h : s.line.toNat + d.lines < 2 ^ 32) :
    (s.shift d).line.toNat = s.line.toNat + d.lines := toNat_add_ofNat h

/-- Moved with its text, a span that starts and stops between characters covers the
same text. -/
theorem text_shift {source outer : String} {front back before upto : List Char}
    (houter : outer.toList = front ++ source.toList ++ back)
    (hd : d.bytes = String.utf8Len front) (hbefore : before <+: source.toList)
    (hupto : upto <+: source.toList) (hoffset : s.offset = String.utf8Len before)
    (hstop : s.stop = String.utf8Len upto) : (s.shift d).text outer = s.text source := by
  obtain ⟨middle, after, hsource, hmiddle⟩ := exists_middle hbefore hupto hoffset hstop
  rw [text_eq_ofList hsource hoffset hmiddle]
  have hlong : outer.toList = (front ++ before) ++ middle ++ (after ++ back) := by
    rw [houter, hsource]
    simp
  apply text_eq_ofList hlong
  · rw [String.utf8Len_append, ← hd, ← hoffset]
    exact Nat.add_comm _ _
  · rw [stop_shift, hmiddle, hd, String.utf8Len_append]
    omega

end Span

namespace Node

mutual

/-- The node in the text that was moved. -/
def shift (d : Shift) : Node → Node
  | .mk kind span children => .mk kind (span.shift d) (shiftAll d children)

/-- The nodes in the text that was moved. -/
def shiftAll (d : Shift) : List Node → List Node
  | [] => []
  | n :: ns => n.shift d :: shiftAll d ns

end

/-- Several nodes are moved one by one. -/
theorem shiftAll_eq_map (d : Shift) (nodes : List Node) :
    shiftAll d nodes = nodes.map (shift d) := by
  induction nodes with
  | nil => rfl
  | cons n ns ih => rw [shiftAll, ih, List.map_cons]

/-- A node is moved by moving its span and each node below it; its kind stays. -/
theorem shift_mk (d : Shift) (kind : Kind) (span : Span) (children : List Node) :
    shift d (.mk kind span children) = .mk kind (span.shift d) (children.map (shift d)) := by
  rw [shift, shiftAll_eq_map]

/-- A node that is moved has the span of the old one, moved. -/
theorem span_shift (d : Shift) (n : Node) : (n.shift d).span = n.span.shift d := by
  cases n
  rfl

/-- A node keeps its kind wherever it is moved. -/
theorem kind_shift (d : Shift) (n : Node) : (n.shift d).kind = n.kind := by
  cases n
  rfl

/-- Below a node that is moved stand the nodes that stood below it, moved. -/
theorem children_shift (d : Shift) (n : Node) :
    (n.shift d).children = n.children.map (shift d) := by
  cases n with
  | mk kind span children => rw [shift_mk, Node.children, Node.children]

mutual

/-- Moving a node by nothing leaves it as it is, with all that stands below it. -/
theorem shift_zero : ∀ n : Node, n.shift ⟨0, 0⟩ = n
  | .mk kind span children => by rw [shift, shiftAll_zero children, Span.shift_zero]

/-- Moving several nodes by nothing leaves them as they are. -/
theorem shiftAll_zero : ∀ nodes : List Node, shiftAll ⟨0, 0⟩ nodes = nodes
  | [] => rfl
  | n :: ns => by rw [shiftAll, shift_zero n, shiftAll_zero ns]

end

theorem shift_eq_id : shift ⟨0, 0⟩ = id := funext shift_zero

mutual

/-- A tree has as many nodes after it was moved as before. -/
theorem size_shift (d : Shift) : ∀ n : Node, (n.shift d).size = n.size
  | .mk kind span children => by rw [shift, size, size, sizeAll_shiftAll d children]

/-- Several trees have as many nodes after they were moved as before. -/
theorem sizeAll_shiftAll (d : Shift) : ∀ nodes : List Node, sizeAll (shiftAll d nodes) = sizeAll nodes
  | [] => rfl
  | n :: ns => by rw [shiftAll, sizeAll, sizeAll, size_shift d n, sizeAll_shiftAll d ns]

end

end Node

/-- The depth of parentheses after tokens that begin at depth `depth` never falls
below zero, and is zero at their end. -/
def Balanced : Nat → List Token → Prop
  | depth, [] => depth = 0
  | depth, t :: rest => (t.kind = .rParen → 0 < depth) ∧ Balanced (Stream.depthAfter depth t.kind) rest

instance Balanced.decidable : (depth : Nat) → (tokens : List Token) → Decidable (Balanced depth tokens)
  | depth, [] => inferInstanceAs (Decidable (depth = 0))
  | depth, t :: rest =>
    have := Balanced.decidable (Stream.depthAfter depth t.kind) rest
    inferInstanceAs (Decidable (_ ∧ _))

/-- Behind any of the tokens of a balanced stretch the rest is balanced too, from the depth that
has been reached there. -/
theorem Balanced.suffix {depth : Nat} {front back : List Token} (h : Balanced depth (front ++ back)) :
    ∃ depth, Balanced depth back := by
  induction front generalizing depth with
  | nil => exact ⟨depth, h⟩
  | cons t rest ih => exact ih h.2

/-- A token of this kind is neither the end of a text nor the slash after one. -/
def TokenKind.standsWithin : TokenKind → Bool
  | .slash | .eof => false
  | _ => true

/-- A kind that can stand inside a text is not the kind of its end. -/
theorem TokenKind.ne_eof_of_standsWithin {kind : TokenKind} (h : kind.standsWithin = true) :
    kind ≠ .eof := by
  rintro rfl
  cases h

/-- The tokens of a text, met again in a longer text. -/
structure Embedding where
  /-- How far the text is moved. -/
  shift : Shift
  source : String
  eof : Token
  /-- The longer text. -/
  outer : String
  outerEof : Token
  /-- How a token is spelled in the longer text. -/
  spelling : Token → String
  /-- The tokens that follow in the longer text. -/
  tail : List Token

namespace Embedding

variable (E : Embedding) {s s₁ : Stream} {used : List Token} {t : Token}

/-- The token in the longer text. -/
def token (t : Token) : Token := ⟨t.kind, E.spelling t, t.span.shift E.shift⟩

/-- The place in the longer text. -/
def lift (s : Stream) : Stream :=
  ⟨E.outer, s.last.map E.token, s.rest.map E.token ++ E.tail, E.outerEof⟩

/-- A number of bytes after which a character of the text begins. -/
def Boundary (n : Nat) : Prop := ∃ before, before <+: E.source.toList ∧ n = String.utf8Len before

/-- A token of the text: it is spelled the same up to the case of its letters, its line
can be counted in the longer text too, and it stands on a line before that of the slash
that follows the text. -/
structure Known (t : Token) : Prop where
  kind : t.kind ≠ .eof
  word : (E.token t).lowerText = t.lowerText
  start : E.Boundary t.span.offset
  stop : E.Boundary t.span.stop
  counted : t.span.line.toNat + E.shift.lines < 2 ^ 32
  line : ∀ slash ∈ E.tail.head?, t.span.line.toNat + E.shift.lines < slash.span.line.toNat

/-- What is assumed of the two texts. -/
structure Lawful : Prop where
  ends : E.eof.kind = .eof
  eofStop : E.Boundary E.eof.span.stop
  outerEof : E.tail = [] → E.outerEof = E.token E.eof
  slash : ∀ t ∈ E.tail.head?, t.kind = .slash
  text : ∀ span : Span, E.Boundary span.offset → E.Boundary span.stop →
    Text.lower ((span.shift E.shift).text E.outer) = Text.lower (span.text E.source)

/-- A place in the tokens of the text. -/
structure Inner (s : Stream) : Prop where
  lawful : E.Lawful
  sound : s.Sound
  source : s.source = E.source
  eof : s.eof = E.eof
  known : ∀ t ∈ s.rest, E.Known t
  knownLast : ∀ t ∈ s.last, E.Known t
  ends : E.tail ≠ [] → ∀ t ∈ s.rest.getLast?, t.kind = .semicolon
  ended : E.tail ≠ [] → s.rest = [] → ∃ t ∈ s.last, t.kind = .semicolon
  balanced : E.tail ≠ [] → ∃ depth, Balanced depth s.rest

/-- A place that has tokens left, or that nothing follows. -/
def Open (s : Stream) : Prop := E.tail = [] ∨ s.rest ≠ []

variable {E}

/-- A place that has at least as many tokens left as an open one is open. -/
theorem Open.of_le (h : E.Open s₁) (hle : s₁.rest.length ≤ s.rest.length) : E.Open s := by
  cases h with
  | inl htail => exact .inl htail
  | inr hrest =>
    refine .inr fun hnil => hrest (List.length_eq_zero_iff.1 ?_)
    simpa [hnil] using hle

/-- A place with tokens left is open, whatever follows the text. -/
theorem open_of_length {n : Nat} (h : n < s.rest.length) : E.Open s := by
  refine .inr fun hnil => ?_
  simp [hnil] at h

/-- At a place that is not open, the text has ended and others follow. -/
theorem not_open (h : ¬ E.Open s) : E.tail ≠ [] ∧ s.rest = [] := by
  constructor
  · exact fun htail => h (.inl htail)
  · by_contra hrest
    exact h (.inr hrest)

namespace Inner

/-- Reading on from a place in the inner text stays in the inner text. -/
theorem of_reads (hs : E.Inner s) (h : s.Reads used s₁) : E.Inner s₁ where
  lawful := hs.lawful
  sound := h.sound hs.sound
  source := h.source.trans hs.source
  eof := h.eof.trans hs.eof
  known := by
    intro t ht
    exact hs.known t (h.rest ▸ List.mem_append_right used ht)
  knownLast := by
    intro t ht
    rw [h.last] at ht
    cases hlast : used.getLast? with
    | none => exact hs.knownLast t (by simpa [hlast] using ht)
    | some last =>
      obtain rfl : last = t := by simpa [hlast] using ht
      exact hs.known last (h.rest ▸ List.mem_append_left _ (List.mem_of_getLast? hlast))
  ends := by
    intro htail t ht
    refine hs.ends htail t ?_
    rw [h.rest, List.getLast?_append, Option.mem_def.1 ht]
    rfl
  ended := by
    intro htail hrest
    have hused : s.rest = used := by rw [h.rest, hrest, List.append_nil]
    cases hlast : used.getLast? with
    | none =>
      obtain ⟨t, ht, hkind⟩ := hs.ended htail (hused.trans (List.getLast?_eq_none_iff.1 hlast))
      exact ⟨t, by simpa [h.last, hlast] using ht, hkind⟩
    | some t => exact ⟨t, by simp [h.last, hlast], hs.ends htail t (by simp [hused, hlast])⟩
  balanced := by
    intro htail
    obtain ⟨depth, hdepth⟩ := hs.balanced htail
    rw [h.rest] at hdepth
    exact hdepth.suffix

/-- Where no tokens are left the inner text has ended. -/
theorem kind_eq_eof (hs : E.Inner s) (hrest : s.rest = []) : s.kind = .eof := by
  simpa [Stream.kind, Stream.peek, hrest] using hs.sound.ends

/-- Where the next token is of another kind than that for the end, there is one. -/
theorem exists_cons (hs : E.Inner s) (hkind : s.kind ≠ .eof) :
    ∃ rest, s.rest = s.peek :: rest := by
  cases hrest : s.rest with
  | nil => exact absurd (hs.kind_eq_eof hrest) hkind
  | cons t rest => exact ⟨rest, by simp [Stream.peek, hrest]⟩

/-- Where tokens are left the inner text has not ended: no token of a text is of the kind of its
end. -/
theorem kind_ne_eof (hs : E.Inner s) (hrest : s.rest ≠ []) : s.kind ≠ .eof := by
  obtain ⟨t, rest, hrest⟩ := List.exists_cons_of_ne_nil hrest
  simpa [Stream.kind, Stream.peek, hrest] using (hs.known t (by simp [hrest])).kind

/-- A place with a token in front of it is open. -/
theorem open_of_kind (hs : E.Inner s) (hkind : s.kind ≠ .eof) : E.Open s := by
  obtain ⟨rest, hrest⟩ := hs.exists_cons hkind
  exact .inr (by simp [hrest])

/-- A token in front of the end belongs to the inner text, so all is known of it that was
assumed. -/
theorem knownPeek (hs : E.Inner s) (hkind : s.kind ≠ .eof) : E.Known s.peek := by
  obtain ⟨rest, hrest⟩ := hs.exists_cons hkind
  exact hs.known _ (by simp [hrest])

/-- The last token that was read ends where a character of the inner text begins, as the texts of
spans need it. -/
theorem boundary_lastSpan (hs : E.Inner s) : E.Boundary s.lastSpan.stop := by
  cases hlast : s.last with
  | some t => simpa [Stream.lastSpan, hlast] using (hs.knownLast t (by simp [hlast])).stop
  | none =>
    cases hrest : s.rest with
    | nil => simpa [Stream.lastSpan, Stream.peek, hlast, hrest, hs.eof] using hs.lawful.eofStop
    | cons t rest =>
      simpa [Stream.lastSpan, Stream.peek, hlast, hrest] using (hs.known t (by simp [hrest])).stop

/-- Behind a token of the inner text one is still inside it, and all that was assumed there
holds. -/
theorem advance (hs : E.Inner s) : E.Inner s.advance := by
  cases hrest : s.rest with
  | nil => rwa [show s.advance = s by simp [Stream.advance, hrest]]
  | cons t rest =>
    have hread : s.Reads [t] s.advance := by
      constructor <;> simp [Stream.advance, hrest]
    exact hs.of_reads hread

/-- An advance in front of the end takes exactly one token. -/
theorem length_advance (hs : E.Inner s) (hkind : s.kind ≠ .eof) :
    s.advance.rest.length + 1 = s.rest.length := by
  rw [(Stream.reads_advance hs.sound hkind).rest]
  simp [Nat.add_comm]

end Inner

/-! ### Looking ahead -/

section Looking

/-- The next token of an open place is met in the longer text too, moved. -/
theorem peek_lift (hs : E.Inner s) (hopen : E.Open s) : (E.lift s).peek = E.token s.peek := by
  cases hrest : s.rest with
  | cons t rest => simp [Stream.peek, lift, hrest]
  | nil =>
    cases hopen with
    | inl htail => simp [Stream.peek, lift, hrest, htail, hs.eof, hs.lawful.outerEof htail]
    | inr hne => exact absurd hrest hne

/-- At an open place the next token of the longer text is of the same kind. -/
theorem kind_lift_of_open (hs : E.Inner s) (hopen : E.Open s) : (E.lift s).kind = s.kind := by
  rw [Stream.kind, peek_lift hs hopen]
  rfl

/-- In the longer text a slash follows where the text has ended. -/
theorem kind_lift_of_not_open (hs : E.Inner s) (hopen : ¬ E.Open s) :
    (E.lift s).kind = .slash := by
  obtain ⟨htail, hrest⟩ := not_open hopen
  obtain ⟨slash, more, htail⟩ := List.exists_cons_of_ne_nil htail
  have hslash := hs.lawful.slash slash (by simp [htail])
  simpa [Stream.kind, Stream.peek, lift, hrest, htail] using hslash

/-- A place that is not open is at the end of the inner text. -/
theorem kind_of_not_open (hs : E.Inner s) (hopen : ¬ E.Open s) : s.kind = .eof :=
  hs.kind_eq_eof (not_open hopen).2

/-- The next token is of the same kind in both texts, but for the slash that
stands where the text has ended. -/
theorem kind_lift (hs : E.Inner s) :
    (E.lift s).kind = s.kind ∨ (E.lift s).kind = .slash ∧ s.kind = .eof := by
  by_cases hopen : E.Open s
  · exact .inl (kind_lift_of_open hs hopen)
  · exact .inr ⟨kind_lift_of_not_open hs hopen, kind_of_not_open hs hopen⟩

/-- Whether a token of a kind stands in front is answered alike in both texts, even at the end of
the inner one, as long as the slash is of another kind. -/
theorem atKind_lift (hs : E.Inner s) (kind : TokenKind) (hkind : kind.standsWithin = true) :
    (E.lift s).atKind kind = s.atKind kind := by
  rw [Stream.atKind, Stream.atKind]
  cases kind_lift hs with
  | inl hsame => rw [hsame]
  | inr hend =>
    rw [hend.1, hend.2]
    cases kind with
    | slash | eof => cases hkind
    | _ => rfl

/-- Whether an identifier stands in front is answered alike in both texts, since the slash is
none. -/
theorem atIdentifier_lift (hs : E.Inner s) : (E.lift s).atIdentifier = s.atIdentifier := by
  rw [Stream.atIdentifier, Stream.atIdentifier]
  cases kind_lift hs with
  | inl hsame => rw [hsame]
  | inr hend =>
    rw [hend.1, hend.2]
    rfl

/-- A question about words has the same answer in both texts. -/
theorem wordQuestion_lift (hs : E.Inner s) (question : String → Bool) :
    ((E.lift s).kind == .word && question (E.lift s).peek.lowerText) =
      (s.kind == .word && question s.peek.lowerText) := by
  by_cases hkind : s.kind = .word
  · have hne : s.kind ≠ .eof := by simp [hkind]
    have hopen := hs.open_of_kind hne
    rw [kind_lift_of_open hs hopen, peek_lift hs hopen, (hs.knownPeek hne).word]
  · have hhere : s.atKind .word = false := by simpa [Stream.atKind] using hkind
    have hlift := (atKind_lift hs .word rfl).trans hhere
    rw [Stream.atKind] at hhere hlift
    rw [hlift, hhere, Bool.false_and, Bool.false_and]

/-- Whether a word stands in front is answered alike in both texts: its letters are the same up to
their case. -/
theorem atWord_lift (hs : E.Inner s) (word : String) : (E.lift s).atWord word = s.atWord word :=
  wordQuestion_lift hs (· == word)

/-- Whether one of several words stands in front is answered alike in both texts. -/
theorem atAnyWord_lift (hs : E.Inner s) (words : List String) :
    (E.lift s).atAnyWord words = s.atAnyWord words :=
  wordQuestion_lift hs words.contains

/-- At an open place both texts have ended or neither has. -/
theorem atEnd_lift (hopen : E.Open s) : (E.lift s).atEnd = s.atEnd := by
  cases hopen with
  | inl htail => simp [Stream.atEnd, lift, htail]
  | inr hrest =>
    obtain ⟨t, rest, hrest⟩ := List.exists_cons_of_ne_nil hrest
    simp [Stream.atEnd, lift, hrest]

/-- The last token that was read is the same in both texts, moved, and so is its span. -/
theorem lastSpan_lift (hs : E.Inner s) : (E.lift s).lastSpan = s.lastSpan.shift E.shift := by
  cases hlast : s.last with
  | some t => simp [Stream.lastSpan, lift, hlast, token]
  | none =>
    have hopen : E.Open s := by
      by_contra hopen
      obtain ⟨htail, hrest⟩ := not_open hopen
      obtain ⟨t, ht, -⟩ := hs.ended htail hrest
      simp [hlast] at ht
    rw [Stream.lastSpan, Stream.lastSpan, hlast, peek_lift hs hopen]
    simp [lift, hlast, token]

/-- A slash after the text ends its last unit: at the end of the inner text the text around it has
a terminator. -/
theorem atTerminator_lift_of_not_open (hs : E.Inner s) (hopen : ¬ E.Open s) :
    (E.lift s).atTerminator = true := by
  have hkind := kind_lift_of_not_open hs hopen
  obtain ⟨htail, hrest⟩ := not_open hopen
  obtain ⟨slash, more, htail⟩ := List.exists_cons_of_ne_nil htail
  rw [Stream.atTerminator, Stream.atKind, hkind]
  cases hlast : s.last with
  | none => simp [lift, hlast]
  | some t =>
    have hknown := hs.knownLast t (by simp [hlast])
    have hline := hknown.line slash (by simp [htail])
    rw [← Span.toNat_line_shift hknown.counted, ← UInt32.lt_iff_toNat_lt] at hline
    simpa [lift, hlast, hrest, htail, Stream.peek, token] using hline

/-- Known tokens stand on lines in the same order in both texts. -/
theorem line_token_lt_iff {u : Token} (ht : E.Known t) (hu : E.Known u) :
    (E.token t).span.line < (E.token u).span.line ↔ t.span.line < u.span.line := by
  simp only [token, UInt32.lt_iff_toNat_lt]
  rw [Span.toNat_line_shift ht.counted, Span.toNat_line_shift hu.counted]
  omega

/-- A slash on a line of its own is one in both texts, since lines are counted on by the same
number. -/
theorem atTerminator_lift (hs : E.Inner s) (hopen : E.Open s) :
    (E.lift s).atTerminator = s.atTerminator := by
  rw [Stream.atTerminator, Stream.atTerminator, Stream.atKind, Stream.atKind,
    kind_lift_of_open hs hopen, peek_lift hs hopen]
  by_cases hslash : s.kind = .slash
  · have hpeek := hs.knownPeek (by simp [hslash])
    cases hlast : s.last with
    | none => simp [lift, hlast]
    | some t =>
      have hknown := hs.knownLast t (by simp [hlast])
      simp [lift, hlast, line_token_lt_iff hknown hpeek]
  · rw [beq_false_of_ne hslash, Bool.false_and, Bool.false_and]

/-- Where nothing follows the inner text, one looks ahead to the same tokens in both, moved,
however far. -/
theorem peekAt_lift_of_tail (hs : E.Inner s) (htail : E.tail = []) (n : Nat) :
    (E.lift s).peekAt n = E.token (s.peekAt n) := by
  simp only [Stream.peekAt, lift, htail, List.append_nil, List.getElem?_map,
    hs.lawful.outerEof htail, hs.eof]
  cases s.rest[n]? <;> rfl

/-- A look further ahead stays in the text where no semicolon stands in front of
what it finds. -/
theorem peekAt_lift (hs : E.Inner s) (hopen : E.Open s) {n : Nat}
    (hbefore : ∀ i < n, (s.peekAt i).kind ≠ .semicolon) :
    (E.lift s).peekAt n = E.token (s.peekAt n) := by
  by_cases htail : E.tail = []
  · exact peekAt_lift_of_tail hs htail n
  · have hrest : s.rest ≠ [] := hopen.resolve_left htail
    by_cases hlen : n < s.rest.length
    · have hlength : n < (s.rest.map E.token).length := by simpa using hlen
      simp [Stream.peekAt, lift, List.getElem?_append_left hlength, hlen]
    · have hlast := hs.ends htail (s.rest.getLast hrest) (List.getLast?_eq_some_getLast hrest)
      have hpos := List.length_pos_of_ne_nil hrest
      refine absurd ?_ (hbefore (s.rest.length - 1) (by omega))
      rw [Stream.peekAt, ← List.getLast?_eq_getElem?, List.getLast?_eq_some_getLast hrest]
      exact hlast

/-- Looking ahead by nothing is looking at the next token. -/
theorem peekAt_zero (s : Stream) : s.peekAt 0 = s.peek := by
  cases hrest : s.rest <;> simp [Stream.peekAt, Stream.peek, hrest]

/-- Behind a token that is not a semicolon the inner text goes on, so the token after it is the
same in both texts. -/
theorem peekAt_one_lift (hs : E.Inner s) (heof : s.kind ≠ .eof) (hkind : s.kind ≠ .semicolon) :
    (E.lift s).peekAt 1 = E.token (s.peekAt 1) := by
  refine peekAt_lift hs (hs.open_of_kind heof) fun i hi => ?_
  obtain rfl : i = 0 := by omega
  rwa [peekAt_zero]

/-- Behind an identifier the inner text goes on, so the token after it is the same in both
texts. -/
theorem peekAt_one_lift_of_atIdentifier (hs : E.Inner s) (hat : s.atIdentifier = true) :
    (E.lift s).peekAt 1 = E.token (s.peekAt 1) := by
  refine peekAt_one_lift hs (Stream.ne_eof_of_isIdentifier hat) fun hkind => ?_
  simp [Stream.atIdentifier, hkind, TokenKind.isIdentifier] at hat

/-- What is asked about a name and the kind of the token after it. -/
theorem atNamed_lift (hs : E.Inner s) (kind : TokenKind) :
    ((E.lift s).atIdentifier && ((E.lift s).peekAt 1).kind == kind) =
      (s.atIdentifier && (s.peekAt 1).kind == kind) := by
  rw [atIdentifier_lift hs]
  cases hat : s.atIdentifier with
  | false => rw [Bool.false_and, Bool.false_and]
  | true =>
    rw [peekAt_one_lift_of_atIdentifier hs hat]
    rfl

/-- A token that is looked at ahead is a known one or that for the end. -/
theorem Inner.knownPeekAt (hs : E.Inner s) {n : Nat} (hkind : (s.peekAt n).kind ≠ .eof) :
    E.Known (s.peekAt n) := by
  cases hget : s.rest[n]? with
  | none =>
    refine absurd ?_ hkind
    simpa [Stream.peekAt, hget] using hs.sound.ends
  | some t => simpa [Stream.peekAt, hget] using hs.known t (List.mem_of_getElem? hget)

/-- A token is the same word in both texts, for words are compared without regard to case. -/
theorem isWord_token (hknown : t.kind = .word → E.Known t) (word : String) :
    (E.token t).isWord word = t.isWord word := by
  rw [Token.isWord, Token.isWord]
  by_cases hkind : t.kind = .word
  · rw [(hknown hkind).word]
    rfl
  · have hword : (t.kind == .word) = false := by simpa using hkind
    simp [token, hword]

/-- A word ahead is the same word in both texts. -/
theorem isWord_peekAt (hs : E.Inner s) {n : Nat}
    (hlift : (E.lift s).peekAt n = E.token (s.peekAt n)) (word : String) :
    (E.lift s).atWordAt n word = s.atWordAt n word := by
  rw [Stream.atWordAt, Stream.atWordAt, hlift]
  exact isWord_token (fun hkind => hs.knownPeekAt (by simp [hkind])) word

/-- What is asked about a name and the word after it. -/
theorem atNamedWord_lift (hs : E.Inner s) (word : String) :
    ((E.lift s).atIdentifier && (E.lift s).atWordAt 1 word) =
      (s.atIdentifier && s.atWordAt 1 word) := by
  rw [atIdentifier_lift hs]
  cases hat : s.atIdentifier with
  | false => rw [Bool.false_and, Bool.false_and]
  | true => rw [isWord_peekAt hs (peekAt_one_lift_of_atIdentifier hs hat)]

/-- What is asked about the token after a word has the same answer in both texts, as a word is not
the last token of the inner one. -/
theorem atWordAt_one_lift (hs : E.Inner s) (hkind : s.kind = .word) (word : String) :
    (E.lift s).atWordAt 1 word = s.atWordAt 1 word :=
  isWord_peekAt hs (peekAt_one_lift hs (by simp [hkind]) (by simp [hkind])) word

end Looking

/-! ### Skipping -/

section Skipping

variable {stop stop' : Stream → Bool}

/-- An advance at an open place leads to the same place in both texts. -/
theorem advance_lift (hopen : E.Open s) : (E.lift s).advance = E.lift s.advance := by
  cases hrest : s.rest with
  | cons t rest => simp [Stream.advance, lift, hrest]
  | nil =>
    cases hopen with
    | inl htail => simp [Stream.advance, lift, hrest, htail]
    | inr hne => exact absurd hrest hne

/-- A smaller depth of parentheses stays smaller behind every token. -/
theorem depthAfter_le {depth bound : Nat} (h : depth ≤ bound) (kind : TokenKind) :
    Stream.depthAfter depth kind ≤ Stream.depthAfter bound kind := by
  cases kind <;> simp only [Stream.depthAfter] <;> omega

/-- Behind the first token of a place in the inner text there is a place in the inner text. -/
theorem Inner.tail {last : Option Token} {rest : List Token}
    (hs : E.Inner ⟨E.source, last, t :: rest, E.eof⟩) : E.Inner ⟨E.source, some t, rest, E.eof⟩ :=
  hs.advance

/-- A skip stops at the same token in both texts: where it stops before the end
of the text, and where a place after balanced parentheses would stop it. -/
theorem skipFrom_lift (hstop : ∀ s, E.Inner s → E.Open s → stop' (E.lift s) = stop s)
    (depth : Nat) (last : Option Token) (rest : List Token)
    (hs : E.Inner ⟨E.source, last, rest, E.eof⟩)
    (hend : E.Open (Stream.skipFrom stop E.source E.eof depth last rest) ∨
      (∃ bound, depth ≤ bound ∧ Balanced bound rest) ∧
        ∀ s, E.Inner s → ¬ E.Open s → stop' (E.lift s) = true) :
    Stream.skipFrom stop' E.outer E.outerEof depth (last.map E.token)
        (rest.map E.token ++ E.tail) =
      E.lift (Stream.skipFrom stop E.source E.eof depth last rest) := by
  induction rest generalizing depth last with
  | nil =>
    by_cases htail : E.tail = []
    · simp [Stream.skipFrom, lift, htail]
    · have hopen : ¬ E.Open ⟨E.source, last, [], E.eof⟩ := by simp [Open, htail]
      cases hend with
      | inl h => exact absurd h hopen
      | inr h =>
        obtain ⟨⟨bound, hle, hbalanced⟩, hslash⟩ := h
        obtain rfl : depth = 0 := by
          have hzero : bound = 0 := hbalanced
          omega
        have hslash := hslash _ hs hopen
        obtain ⟨slash, more, htail⟩ := List.exists_cons_of_ne_nil htail
        simp only [lift, htail, List.map_nil, List.nil_append] at hslash
        simp [Stream.skipFrom, lift, htail, hslash]
  | cons t rest ih =>
    have hlift : (⟨E.outer, last.map E.token, E.token t :: (rest.map E.token ++ E.tail),
        E.outerEof⟩ : Stream) = E.lift ⟨E.source, last, t :: rest, E.eof⟩ := rfl
    have hsame := hstop _ hs (.inr (by simp))
    rw [List.map_cons, List.cons_append, Stream.skipFrom, hlift, hsame]
    rw [Stream.skipFrom] at hend ⊢
    split
    case isTrue => rfl
    case isFalse hgo =>
      refine ih (Stream.depthAfter depth t.kind) (some t) hs.tail ?_
      rw [if_neg hgo] at hend
      refine hend.imp_right (And.imp_left ?_)
      rintro ⟨bound, hle, hbalanced⟩
      exact ⟨_, depthAfter_le hle t.kind, hbalanced.2⟩

/-- A skip that stops inside the inner text stops at the same place of the longer one. -/
theorem skipUntil_lift (hstop : ∀ s, E.Inner s → E.Open s → stop' (E.lift s) = stop s)
    (hs : E.Inner s) (hopen : E.Open (s.skipUntil stop)) :
    (E.lift s).skipUntil stop' = E.lift (s.skipUntil stop) := by
  obtain ⟨source, last, rest, eof⟩ := s
  obtain rfl : source = E.source := hs.source
  obtain rfl : eof = E.eof := hs.eof
  exact skipFrom_lift hstop 0 last rest hs (.inl hopen)

/-- A skip that a slash would stop moves alike in both texts, since it gets no further than the end
of the inner one. -/
theorem skipUntil_lift_of_slash (hstop : ∀ s, E.Inner s → E.Open s → stop' (E.lift s) = stop s)
    (hslash : ∀ s, E.Inner s → ¬ E.Open s → stop' (E.lift s) = true) (hs : E.Inner s) :
    (E.lift s).skipUntil stop' = E.lift (s.skipUntil stop) := by
  by_cases htail : E.tail = []
  · exact skipUntil_lift hstop hs (.inl htail)
  · obtain ⟨source, last, rest, eof⟩ := s
    obtain rfl : source = E.source := hs.source
    obtain rfl : eof = E.eof := hs.eof
    obtain ⟨bound, hbalanced⟩ := hs.balanced htail
    exact skipFrom_lift hstop 0 last rest hs (.inr ⟨⟨bound, Nat.zero_le _, hbalanced⟩, hslash⟩)

/-- Advancing to a stop leads to the same place in both texts, if the slash behind the inner text
is a stop too. -/
theorem advanceFrom_lift (hstop : ∀ s, E.Inner s → E.Open s → stop' (E.lift s) = stop s)
    (hslash : ∀ s, E.Inner s → ¬ E.Open s → stop' (E.lift s) = true)
    (last : Option Token) (rest : List Token) (hs : E.Inner ⟨E.source, last, rest, E.eof⟩) :
    Stream.advanceFrom stop' E.outer E.outerEof (last.map E.token) (rest.map E.token ++ E.tail) =
      E.lift (Stream.advanceFrom stop E.source E.eof last rest) := by
  induction rest generalizing last with
  | nil =>
    by_cases htail : E.tail = []
    · simp [Stream.advanceFrom, lift, htail]
    · have hslash := hslash _ hs (by simp [Open, htail])
      obtain ⟨slash, more, htail⟩ := List.exists_cons_of_ne_nil htail
      simp only [lift, htail, List.map_nil, List.nil_append] at hslash
      simp [Stream.advanceFrom, lift, htail, hslash]
  | cons t rest ih =>
    have hlift : (⟨E.outer, last.map E.token, E.token t :: (rest.map E.token ++ E.tail),
        E.outerEof⟩ : Stream) = E.lift ⟨E.source, last, t :: rest, E.eof⟩ := rfl
    rw [List.map_cons, List.cons_append, Stream.advanceFrom, Stream.advanceFrom, hlift,
      hstop _ hs (.inr (by simp))]
    split
    · rfl
    · exact ih (some t) hs.tail

/-- Reading on to a place where a slash would stop. -/
theorem advanceUntil_lift (hstop : ∀ s, E.Inner s → E.Open s → stop' (E.lift s) = stop s)
    (hslash : ∀ s, E.Inner s → ¬ E.Open s → stop' (E.lift s) = true) (hs : E.Inner s) :
    (E.lift s).advanceUntil stop' = E.lift (s.advanceUntil stop) := by
  obtain ⟨source, last, rest, eof⟩ := s
  obtain rfl : source = E.source := hs.source
  obtain rfl : eof = E.eof := hs.eof
  exact advanceFrom_lift hstop hslash last rest hs

/-- In balanced tokens that end with a semicolon, that one is met outside all
parentheses. -/
theorem skipFrom_semicolon_ne_nil (source : String) (eof : Token) {depth bound : Nat}
    (last : Option Token) {rest : List Token} (hrest : rest ≠ [])
    (hends : ∀ t ∈ rest.getLast?, t.kind = .semicolon) (hle : depth ≤ bound)
    (hbalanced : Balanced bound rest) :
    (Stream.skipFrom (·.atKind .semicolon) source eof depth last rest).rest ≠ [] := by
  induction rest generalizing depth bound last with
  | nil => exact absurd rfl hrest
  | cons t rest ih =>
    rw [Stream.skipFrom]
    split
    case isTrue => simp
    case isFalse hgo =>
      by_cases hnil : rest = []
      · subst hnil
        have hkind : t.kind = .semicolon := hends t (by simp)
        have hzero : bound = 0 := by simpa [Balanced, Stream.depthAfter, hkind] using hbalanced
        refine absurd ?_ hgo
        simp [Stream.atKind, Stream.kind, Stream.peek, hkind]
        omega
      · refine ih (some t) hnil ?_ (depthAfter_le hle t.kind) hbalanced.2
        intro u hu
        refine hends u ?_
        rw [List.getLast?_cons, Option.mem_def.1 hu]
        rfl

/-- A skip past a semicolon ends at the same place in both texts, for the inner text ends with
one. -/
theorem skipPastSemicolon_lift (hs : E.Inner s) (hkind : s.kind ≠ .eof) :
    (E.lift s).skipPastSemicolon = E.lift s.skipPastSemicolon := by
  have hopen : E.Open (s.skipUntil (·.atKind .semicolon)) := by
    by_cases htail : E.tail = []
    · exact .inl htail
    · obtain ⟨rest, hrest⟩ := hs.exists_cons hkind
      obtain ⟨bound, hbalanced⟩ := hs.balanced htail
      exact .inr (skipFrom_semicolon_ne_nil s.source s.eof s.last (by simp [hrest])
        (hs.ends htail) (Nat.zero_le bound) hbalanced)
  have hskip : (E.lift s).skipUntil (·.atKind .semicolon) = _ :=
    skipUntil_lift (fun u hu _ => atKind_lift hu .semicolon rfl) hs hopen
  obtain ⟨used, hread⟩ := Stream.reads_skipUntil (·.atKind .semicolon) s
  have hkind := atKind_lift (hs.of_reads hread) .semicolon rfl
  rw [Stream.skipPastSemicolon, Stream.skipPastSemicolon, hskip]
  simp only [hkind]
  split
  · exact advance_lift hopen
  · rfl

/-- A skip over a statement ends at the same place in both texts at every depth, since behind the
inner text all its parentheses are closed and the slash stops the skip. -/
theorem skipStatementFrom_lift (depth : Nat) (last : Option Token) (rest : List Token)
    (hs : E.Inner ⟨E.source, last, rest, E.eof⟩)
    (hend : E.tail ≠ [] → ∃ bound, depth ≤ bound ∧ Balanced bound rest) :
    Stream.skipStatementFrom E.outer E.outerEof depth (last.map E.token)
        (rest.map E.token ++ E.tail) =
      E.lift (Stream.skipStatementFrom E.source E.eof depth last rest) := by
  induction rest generalizing depth last with
  | nil =>
    by_cases htail : E.tail = []
    · simp [Stream.skipStatementFrom, lift, htail]
    · obtain ⟨bound, hle, hbalanced⟩ := hend htail
      obtain rfl : depth = 0 := by
        have hzero : bound = 0 := hbalanced
        omega
      have hslash := atTerminator_lift_of_not_open hs (by simp [Open, htail])
      obtain ⟨slash, more, htail⟩ := List.exists_cons_of_ne_nil htail
      simp only [lift, htail, List.map_nil, List.nil_append] at hslash
      simp [Stream.skipStatementFrom, lift, htail, hslash]
  | cons t rest ih =>
    have hlift : (⟨E.outer, last.map E.token, E.token t :: (rest.map E.token ++ E.tail),
        E.outerEof⟩ : Stream) = E.lift ⟨E.source, last, t :: rest, E.eof⟩ := rfl
    have hkind : (E.token t).kind = t.kind := rfl
    rw [List.map_cons, List.cons_append, Stream.skipStatementFrom, Stream.skipStatementFrom, hlift,
      atTerminator_lift hs (.inr (by simp)), hkind]
    split
    · rfl
    · split
      · rfl
      · refine ih (Stream.depthAfter depth t.kind) (some t) hs.tail fun htail => ?_
        obtain ⟨bound, hle, hbalanced⟩ := hend htail
        exact ⟨_, depthAfter_le hle t.kind, hbalanced.2⟩

/-- A statement is skipped to the same place in both texts. -/
theorem skipStatement_lift (hs : E.Inner s) :
    (E.lift s).skipStatement = E.lift s.skipStatement := by
  obtain ⟨source, last, rest, eof⟩ := s
  obtain rfl : source = E.source := hs.source
  obtain rfl : eof = E.eof := hs.eof
  refine skipStatementFrom_lift 0 last rest hs fun htail => ?_
  obtain ⟨bound, hbalanced⟩ := hs.balanced htail
  exact ⟨bound, Nat.zero_le _, hbalanced⟩

/-- The rest of a line is skipped to the same place in both texts, since the slash stands on a
later line. -/
theorem skipLine_lift (hs : E.Inner s) (hkind : s.kind ≠ .eof) :
    (E.lift s).skipLine = E.lift s.skipLine := by
  have hline : (E.lift s).peek.span.line = s.peek.span.line + UInt32.ofNat E.shift.lines := by
    rw [peek_lift hs (hs.open_of_kind hkind)]
    rfl
  rw [Stream.skipLine, Stream.skipLine, hline]
  apply advanceUntil_lift
  · intro u hu hopen
    rw [peek_lift hu hopen, Bool.eq_iff_iff]
    simp [token, Span.shift]
  · intro u hu hopen
    obtain ⟨htail, hrest⟩ := not_open hopen
    obtain ⟨slash, more, htail⟩ := List.exists_cons_of_ne_nil htail
    have hknown := hs.knownPeek hkind
    have hlater := hknown.line slash (by simp [htail])
    have hpeek : (E.lift u).peek = slash := by simp [lift, Stream.peek, hrest, htail]
    rw [hpeek, bne_iff_ne]
    intro hsame
    rw [hsame] at hlater
    exact Nat.lt_irrefl _ (Span.toNat_line_shift hknown.counted ▸ hlater)
  · exact hs

end Skipping

end Embedding

end PlsqlAudit
