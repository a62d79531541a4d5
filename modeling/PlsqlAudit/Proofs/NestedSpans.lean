import PlsqlAudit.Proofs.JoinedPrograms
import PlsqlAudit.Proofs.Numbering
import PlsqlAudit.Proofs.ProgramSpelling
import PlsqlAudit.Proofs.SearchAccount

/-!
# Spans nest

The tokens of a program come one after the other, and each node spans the tokens
it takes.  So the parts of a node stand in a row inside it (`Node.Rowed`), and
going down a tree one never leaves a span.  Since the parts of a node are listed
in the order of the text, so are all nodes: the walk over a tree never goes back
(`Place.ordered_subtree`).
-/

namespace PlsqlAudit

/-- Spans between two bytes, one after the other. -/
structure Row (low high : Nat) (spans : List Span) : Prop where
  within : ∀ span ∈ spans, low ≤ span.offset ∧ span.stop ≤ high
  apart : spans.Pairwise fun a b => a.stop ≤ b.offset

namespace Row

variable {low low' high : Nat} {span : Span} {spans : List Span}

theorem nil : Row low high [] := ⟨by simp, .nil⟩

theorem lower (h : Row low high spans) (hlow : low' ≤ low) : Row low' high spans := by
  constructor
  · intro span hspan
    obtain ⟨hoffset, hstop⟩ := h.within span hspan
    exact ⟨Nat.le_trans hlow hoffset, hstop⟩
  · exact h.apart

/-- A span in front of a row that starts where the span stops. -/
theorem cons (h : Row span.stop high spans) (hlow : low ≤ span.offset) (hhigh : span.stop ≤ high) :
    Row low high (span :: spans) := by
  have hoffset : span.offset ≤ span.stop := Nat.le_add_right _ _
  constructor
  · intro other hother
    rcases List.mem_cons.1 hother with rfl | hother
    · exact ⟨hlow, hhigh⟩
    · exact (h.lower (Nat.le_trans hlow hoffset)).within other hother
  · apply List.pairwise_cons.2
    constructor
    · intro other hother
      exact (h.within other hother).1
    · exact h.apart

end Row

/-- A span of a text stops in the text. -/
theorem Span.Covers.stop_le {span : Span} {source : String} {before middle after : List Char}
    (h : span.Covers source before middle after) : span.stop ≤ source.utf8ByteSize := by
  have hsource : source = String.ofList (before ++ middle ++ after) := by
    rw [← h.text, String.ofList_toList]
  rw [h.stop_eq_upto, hsource, String.utf8ByteSize_ofList, String.utf8Len_append _ after]
  exact Nat.le_add_right _ _

/-! ### The parts of a node -/

/-- A node whose parts stand in a row inside it. -/
def Node.Rowed (n : Node) : Prop := Row n.span.offset n.span.stop (n.children.map Node.span)

namespace Spells

variable {tokens : List Token} {ns : List Node} {low high : Nat}

/-- Nodes that are spelled by tokens in a row stand in a row. -/
theorem row (h : Spells tokens ns) (ho : Ordered tokens)
    (hbounds : ∀ token ∈ tokens, low ≤ token.span.offset ∧ token.span.stop ≤ high) :
    Row low high (ns.map Node.span) := by
  induction h generalizing low with
  | nil => exact .nil
  | skip token _ ih =>
    apply ih (List.pairwise_cons.1 ho).2
    intro other hother
    exact hbounds other (List.mem_cons_of_mem _ hother)
  | @empty token tokens ns _ ih =>
    obtain ⟨hlow, hhigh⟩ := hbounds token List.mem_cons_self
    have hsize : token.span.offset ≤ token.span.stop := Nat.le_add_right _ _
    apply Row.cons
    · apply ih ho
      intro other hother
      have hfrom : token.span.offset ≤ other.span.offset := by
        rcases List.mem_cons.1 hother with rfl | hother
        · exact Nat.le_refl _
        · exact Nat.le_trans hsize ((List.pairwise_cons.1 ho).1 other hother)
      exact ⟨hfrom, (hbounds other hother).2⟩
    · exact hlow
    · exact Nat.le_trans hsize hhigh
  | @node used tokens n ns fits _ _ _ ih =>
    obtain ⟨hused, htokens, hacross⟩ := List.pairwise_append.1 ho
    obtain ⟨first, hfirst, hoffset, -⟩ := fits.spans.begins
    obtain ⟨last, hlast, hstop⟩ := fits.spans.stops
    have hfirst := List.mem_of_mem_head? (Option.mem_def.2 hfirst)
    have hlast := List.mem_of_getLast? hlast
    apply Row.cons
    · apply ih htokens
      intro other hother
      rw [hstop]
      exact ⟨hacross last hlast other hother, (hbounds other (List.mem_append_right _ hother)).2⟩
    · rw [hoffset]
      exact (hbounds first (List.mem_append_left _ hfirst)).1
    · rw [hstop]
      exact (hbounds last (List.mem_append_left _ hlast)).2

end Spells

namespace Spelled

variable {tokens : List Token} {n : Node}

theorem rowed (h : Spelled tokens n) (ho : Ordered tokens) : n.Rowed := by
  rcases h with ⟨us, hus, htakes⟩ | ⟨token, -, rfl⟩
  · have hus : Ordered us := List.Pairwise.sublist hus.sublist ho
    apply htakes.inner.row hus
    intro token htoken
    exact htakes.fits.spans.bounds hus htoken
  · exact .nil

/-- A node starts where a token does. -/
theorem begins (h : Spelled tokens n) :
    ∃ token ∈ tokens, n.span.offset = token.span.offset ∧ n.span.line = token.span.line ∧
      n.span.column = token.span.column := by
  rcases h with ⟨us, hus, htakes⟩ | ⟨token, htoken, rfl⟩
  · obtain ⟨first, hfirst, hbegins⟩ := htakes.fits.spans.begins
    exact ⟨first, hus.subset (List.mem_of_mem_head? hfirst), hbegins⟩
  · exact ⟨token, htoken, rfl, rfl, rfl⟩

end Spelled

/-! ### Going down and going on -/

namespace Place

variable {p q : Place}

theorem map_span_children (p : Place) : p.children.map Place.span = p.node.children.map Node.span := by
  rw [← map_node_children, List.map_map]
  rfl

/-- The places directly below a place stand in a row inside it. -/
theorem row_children (h : p.node.Rowed) :
    Row p.span.offset p.span.stop (p.children.map Place.span) := by
  rw [map_span_children]
  exact h

theorem apart_children (h : p.node.Rowed) :
    p.children.Pairwise fun a b => a.span.stop ≤ b.span.offset :=
  List.pairwise_map.1 (row_children h).apart

/-- Going down one never leaves a span. -/
theorem within_of_rowed (h : ∀ r ∈ p.subtree, r.node.Rowed) (hq : q ∈ p.subtree) :
    p.span.offset ≤ q.span.offset ∧ q.span.stop ≤ p.span.stop := by
  induction p using induction_below with
  | step p ih =>
    rcases mem_subtree.1 hq with rfl | hq
    · exact ⟨Nat.le_refl _, Nat.le_refl _⟩
    · obtain ⟨c, hc, hqc⟩ := mem_descendants.1 hq
      have hbelow : ∀ r ∈ c.subtree, r.node.Rowed := by
        intro r hr
        exact h r (mem_subtree.2 (.inr (mem_descendants.2 ⟨c, hc, hr⟩)))
      have hrow := row_children (h p (mem_subtree.2 (.inl rfl)))
      have hpc := hrow.within c.span (List.mem_map_of_mem hc)
      have hcq := ih c hc hbelow hqc
      omega

/-- **The walk never goes back.** -/
theorem ordered_subtree (h : ∀ r ∈ p.subtree, r.node.Rowed) :
    p.subtree.Pairwise fun a b => a.span.offset ≤ b.span.offset := by
  induction p using induction_below with
  | step p ih =>
    have hbelow : ∀ c ∈ p.children, ∀ r ∈ c.subtree, r.node.Rowed := by
      intro c hc r hr
      exact h r (mem_subtree.2 (.inr (mem_descendants.2 ⟨c, hc, hr⟩)))
    rw [subtree, descendants_eq]
    apply List.pairwise_cons.2
    constructor
    · intro q hq
      rw [← descendants_eq] at hq
      exact (within_of_rowed h (mem_subtree.2 (.inr hq))).1
    · apply List.pairwise_flatMap.2
      constructor
      · intro c hc
        exact ih c hc (hbelow c hc)
      · have hapart := apart_children (h p (mem_subtree.2 (.inl rfl)))
        apply hapart.imp_of_mem
        intro a b ha hb hle q hq r hr
        have hqa := within_of_rowed (hbelow a ha) hq
        have hrb := within_of_rowed (hbelow b hb) hr
        have hsize : q.span.offset ≤ q.span.stop := Nat.le_add_right _ _
        omega

end Place

namespace Tree

variable {source : String} {t : Tree} {p : Place}

/-- The spans of a tree whose text has the given tokens. -/
structure SpansNest (t : Tree) (tokens : List Token) : Prop where
  /-- A node stands in the text, between characters, and its text is what stands
  there. -/
  covers : ∀ p ∈ t.places, ∃ before middle after,
    p.span.Covers t.source before middle after ∧ t.text p = String.ofList middle
  /-- No node of some length is without text. -/
  text_ne : ∀ p ∈ t.places, 0 < p.span.length → t.text p ≠ ""
  /-- A node below the root starts where a token does, in the same line and
  column. -/
  begins : ∀ p ∈ t.places, p ≠ t.top → ∃ token ∈ tokens,
    p.span.offset = token.span.offset ∧ p.span.line = token.span.line ∧
      p.span.column = token.span.column
  /-- A node stands inside the one directly above it. -/
  inside : ∀ p ∈ t.places, ∀ q, p.parent? = some q →
    q.span.offset ≤ p.span.offset ∧ p.span.stop ≤ q.span.stop
  /-- The nodes directly below a node stand one after the other. -/
  apart : ∀ p ∈ t.places, p.children.Pairwise fun a b => a.span.stop ≤ b.span.offset
  /-- The walk over the tree never goes back. -/
  ordered : t.places.Pairwise fun p q => p.span.offset ≤ q.span.offset

theorem span_top_of_parse (h : parse source = .ok t) :
    t.top.span = ⟨0, source.utf8ByteSize, 1, 1⟩ := by
  obtain ⟨-, -, tokens, htokens, -⟩ := parse_spells h
  obtain ⟨units, -, -, rfl⟩ := exists_units_of_parse htokens h
  rfl

/-- The whole program covers the whole text. -/
theorem covers_top_of_parse (h : parse source = .ok t) :
    t.top.span.Covers source [] source.toList [] := by
  rw [span_top_of_parse h]
  refine ⟨?_, rfl, ?_, rfl, rfl⟩
  · simp
  · rw [String.ofList_toList]

theorem covers_of_parse (h : parse source = .ok t) (hp : p ∈ t.places) :
    ∃ before middle after, p.span.Covers source before middle after := by
  rcases mem_places.1 hp with rfl | hp
  · exact ⟨_, _, _, covers_top_of_parse h⟩
  · obtain ⟨tokens, htokens, hspelled⟩ := spelled_of_parse h hp
    exact hspelled.covers htokens

/-- The parts of every node of a program stand in a row inside it. -/
theorem rowed_of_parse (h : parse source = .ok t) (hp : p ∈ t.places) : p.node.Rowed := by
  obtain ⟨-, -, tokens, htokens, hphrases⟩ := parse_spells h
  have hordered := (Stream.sound_start htokens).ordered
  rcases mem_places.1 hp with rfl | hp
  · apply hphrases.spells.row hordered
    intro token htoken
    obtain ⟨lexemes, hlexemes, hall, -⟩ := tokenize_spec htokens
    obtain ⟨before, lexeme, after, -, -, -, hcovers⟩ := token_covers hlexemes (hall ▸ htoken)
    have htop : t.root.span = ⟨0, source.utf8ByteSize, 1, 1⟩ := span_top_of_parse h
    have hstop : (⟨0, source.utf8ByteSize, 1, 1⟩ : Span).stop = source.utf8ByteSize :=
      Nat.zero_add _
    change t.root.span.offset ≤ _ ∧ _ ≤ t.root.span.stop
    rw [htop, hstop]
    exact ⟨Nat.zero_le _, hcovers.stop_le⟩
  · obtain ⟨tokens', htokens', hspelled⟩ := spelled_of_parse h hp
    obtain rfl := Except.ok.inj (htokens.symm.trans htokens')
    exact hspelled.rowed hordered

/-- **Spans nest, and the walk over a program follows its text.**  Every node of a program
spans a part of its text, and every node but the root starts with a token; the spans of the
parts of a node lie in its own span, one behind the other. -/
theorem spansNest_of_parse (h : parse source = .ok t) :
    t.source = source ∧ ∃ tokens, tokenize source = .ok tokens ∧ t.SpansNest tokens.tokens := by
  obtain ⟨hsource, -, tokens, htokens, -⟩ := parse_spells h
  refine ⟨hsource, tokens, htokens, ?_, ?_, ?_, ?_, ?_, ?_⟩
  · intro p hp
    obtain ⟨before, middle, after, hcovers⟩ := covers_of_parse h hp
    rw [Tree.text, hsource]
    exact ⟨before, middle, after, hcovers, hcovers.text_eq⟩
  · intro p hp hlength htext
    obtain ⟨before, middle, after, hcovers⟩ := covers_of_parse h hp
    rw [Tree.text, hsource, hcovers.text_eq] at htext
    rw [hcovers.length, htext] at hlength
    simp at hlength
  · intro p hp hne
    rcases mem_places.1 hp with rfl | hp
    · exact absurd rfl hne
    · obtain ⟨tokens', htokens', hspelled⟩ := spelled_of_parse h hp
      obtain rfl := Except.ok.inj (htokens.symm.trans htokens')
      exact hspelled.begins
  · intro p hp q hparent
    obtain ⟨hq, hpq⟩ := parent?_spec hp hparent
    exact (Place.row_children (rowed_of_parse h hq)).within p.span (List.mem_map_of_mem hpq)
  · intro p hp
    exact Place.apart_children (rowed_of_parse h hp)
  · rw [places_eq]
    apply Place.ordered_subtree
    intro p hp
    rw [← places_eq] at hp
    exact rowed_of_parse h hp

/-- A section without declarations, a link that widens a name, and a comment of more
bytes than characters in front. -/
theorem spansNest_of_parse_of_link : ∃ t tokens,
    parse "/*é*/ CREATE PROCEDURE p IS BEGIN y := f@db(x) NOT IN (1); END;" = .ok t ∧
      tokenize "/*é*/ CREATE PROCEDURE p IS BEGIN y := f@db(x) NOT IN (1); END;" = .ok tokens ∧
      (t.places.filter (·.kind == .declareSection)).map Place.span = [⟨29, 0, 1, 29⟩] ∧
      t.SpansNest tokens.tokens := by
  obtain ⟨t, hparse, htest⟩ := exists_parse
    "/*é*/ CREATE PROCEDURE p IS BEGIN y := f@db(x) NOT IN (1); END;"
    (fun t => (t.places.filter (·.kind == .declareSection)).map Place.span == [⟨29, 0, 1, 29⟩])
    (by decide +kernel)
  obtain ⟨-, tokens, htokens, hnest⟩ := spansNest_of_parse hparse
  exact ⟨t, tokens, hparse, htokens, by simpa using htest, hnest⟩

end Tree

end PlsqlAudit
