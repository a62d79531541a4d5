import PlsqlAudit.Proofs.FirstStops
import PlsqlAudit.Proofs.NodeLayout
import PlsqlAudit.Proofs.Progress

/-!
# What is certain of an answer, and what is pending

A statement or declaration that is not analysed is skipped up to its semicolon, and should
reach no further than that (`Node.Delimited`).  But a skip runs to the end of the text if
there is no semicolon, and a rule cannot tell what it has left before more is read.

So there are two kinds of knowledge about the answer of a rule: what is certain, and what is
pending, that is, certain as soon as another token is read (`Parser.Ensures`).  What is pending
stays pending as one reads on, whatever is read (`Parser.Gives.then`), and a word that has to
stand somewhere settles it (`Parser.Ensures.expectWord`).
-/

namespace PlsqlAudit

namespace Kind

/-- What is skipped up to its semicolon. -/
def isSkipped : Kind → Bool
  | .raiseStatement | .sqlStatement | .otherStatement | .otherDeclaration => true
  | _ => false

/-- What has nothing in it that is skipped: expressions, names, types, parameters, and the
clauses of a dynamic statement. -/
def isPlain (kind : Kind) : Bool :=
  kind.isOperand || kind.isDataType || kind.isParameter || kind.isClause || kind == .definingName

/-- A node of a plain kind is not one that was skipped up to its semicolon. -/
theorem not_isSkipped_of_isPlain {kind : Kind} (h : kind.isPlain = true) :
    kind.isSkipped = false := by
  cases kind <;> first | rfl | cases h

/-- A data type is plain: nothing in it is skipped. -/
theorem isPlain_of_isDataType {kind : Kind} (h : kind.isDataType = true) :
    kind.isPlain = true := by
  simp [isPlain, h]

/-- An expression is plain: nothing in it is skipped. -/
theorem isPlain_of_isExpression {kind : Kind} (h : kind.isExpression = true) :
    kind.isPlain = true := by
  simp [isPlain, isOperand, h]

/-- The parts of a node of a plain kind are plain again, by the layout that nodes of the kind
have. -/
theorem Layout.isPlain {kind part : Kind} {parts : List Kind} (h : kind.Layout parts)
    (hkind : kind.isPlain = true) (hpart : part ∈ parts) : part.isPlain = true := by
  by_cases hoperand : kind.isOperand = true
  · simp [Kind.isPlain, h.isOperand hoperand hpart]
  · cases kind <;> simp [Kind.isPlain, hoperand, isDataType, isParameter, isClause] at hkind <;>
      simp only [Layout, DeclarationLayout, AtMostOne] at h <;>
      grind [Kind.isPlain, Kind.isOperand]

end Kind

namespace Node

/-- All nodes of a tree pass a test. -/
inductive Every (test : Node → Prop) : Node → Prop
  | intro {n : Node} (here : test n) (below : ∀ c ∈ n.children, Every test c) : Every test n

/-- A test that all nodes of a tree pass is passed at each of the places in it. -/
theorem Every.of_mem_subtree {test : Node → Prop} {p q : Place} (h : p.node.Every test)
    (hq : q ∈ p.subtree) : test q.node := by
  induction p using Place.induction_below with
  | step p ih =>
    obtain ⟨here, below⟩ := h
    rcases Place.mem_subtree.1 hq with rfl | hq
    · exact here
    · obtain ⟨c, hc, hqc⟩ := Place.mem_descendants.1 hq
      refine ih c hc (below _ ?_) hqc
      rw [← Place.map_node_children]
      exact List.mem_map_of_mem hc

/-- A node without parts for the tokens through the first semicolon outside parentheses. -/
structure EndsAtSemicolon (tokens : List Token) (n : Node) : Prop where
  childless : n.children = []
  ended : ∃ used, used <:+: tokens ∧ Ended used ∧ Spans used n.span

/-- What is skipped in `n` reaches to its semicolon. -/
def Delimited (tokens : List Token) (n : Node) : Prop :=
  n.Every fun m => m.kind.isSkipped = true → m.EndsAtSemicolon tokens

variable {tokens used : List Token} {kind : Kind} {span : Span} {ns : List Node} {n : Node}

/-- A node that is not skipped is delimited if all nodes below it are. -/
theorem Delimited.mk (hkind : kind.isSkipped = false) (h : ∀ n ∈ ns, n.Delimited tokens) :
    Delimited tokens (.mk kind span ns) :=
  .intro (fun hskipped => absurd (hkind.symm.trans hskipped) (by simp)) h

/-- A leaf that is not skipped is delimited. -/
theorem Delimited.leaf (hkind : kind.isSkipped = false) : Delimited tokens (.leaf kind span) :=
  .mk hkind (by simp)

end Node

section Plain

variable {tokens used : List Token} {ns : List Node} {n : Node} {wanted : Kind → Bool}

/-- Nodes of plain kinds that spell tokens are delimited, since there is nothing skipped in
them. -/
theorem Spells.delimited (h : Spells used ns) (hn : n ∈ ns) (hplain : n.kind.isPlain = true) :
    n.Delimited tokens := by
  induction h generalizing n with
  | nil => simp at hn
  | skip _ _ ih => exact ih hn hplain
  | empty _ _ ih =>
    rcases List.mem_cons.1 hn with rfl | hn
    · exact .leaf rfl
    · exact ih hn hplain
  | node fits _ _ ihInner ihRest =>
    rcases List.mem_cons.1 hn with rfl | hn
    · refine .intro ?_ fun c hc => ihInner hc ?_
      · intro hskipped
        simp [Kind.not_isSkipped_of_isPlain hplain] at hskipped
      · exact fits.layout.isPlain hplain (List.mem_map_of_mem hc)
    · exact ihRest hn hplain

/-- Phrases of plain kinds are delimited, one by one, whatever stands around them. -/
theorem Phrases.delimited (h : Phrases wanted used ns)
    (hplain : ∀ kind, wanted kind = true → kind.isPlain = true) :
    ∀ n ∈ ns, n.Delimited tokens :=
  fun n hn => h.spells.delimited hn (hplain _ (h.kinds n hn))

/-- A phrase of a plain kind is delimited. -/
theorem Phrase.delimited (h : Phrase wanted used n)
    (hplain : ∀ kind, wanted kind = true → kind.isPlain = true) : n.Delimited tokens :=
  h.spells.delimited (List.mem_singleton.2 rfl) (hplain _ h.kind)

end Plain

/-! ### What is certain and what is pending -/

/-- Reading from `s₀` one comes to `s`, and if more follows there, `pending` holds. -/
structure Stream.Arrives (s₀ s : Stream) (pending : Prop) : Prop where
  start : s₀.Sound
  reads : ∃ used, s₀.Reads used s
  follows : s.rest ≠ [] → pending

namespace Stream.Arrives

variable {s₀ s s' : Stream} {pending pending' : Prop} {used : List Token}

/-- A place that one arrives at is as sound as the place the reading started from. -/
theorem sound (h : s₀.Arrives s pending) : s.Sound := by
  obtain ⟨used, hread⟩ := h.reads
  exact hread.sound h.start

/-- What is pending can be exchanged for anything it implies, as long as tokens are left. -/
theorem imp (h : s₀.Arrives s pending) (himp : s.rest ≠ [] → pending → pending') :
    s₀.Arrives s pending' :=
  ⟨h.start, h.reads, fun hrest => himp hrest (h.follows hrest)⟩

/-- What is pending stays so as one reads on, because fewer tokens are left then. -/
theorem onward (h : s₀.Arrives s pending) (hread : s.Reads used s') : s₀.Arrives s' pending := by
  obtain ⟨before, hbefore⟩ := h.reads
  refine ⟨h.start, ⟨_, hbefore.trans hread⟩, fun hrest => h.follows ?_⟩
  rw [hread.rest]
  simp [hrest]

/-- What is pending is certain where a token is read. -/
theorem settled (h : s₀.Arrives s pending) (hread : s.Reads used s') (hne : used ≠ []) :
    pending := by
  apply h.follows
  rw [hread.rest]
  simp [hne]

end Stream.Arrives

namespace Parser

variable {α β : Type} {s₀ : Stream} {pending : Prop} {p : Parser α} {f : α → Parser β}
  {sure later : α → Prop} {sure' later' : β → Prop}

/-- Run where something is `pending`, `p` reads tokens; then `sure` is certain of its answer, and
`later` is pending too. -/
def Ensures (s₀ : Stream) (pending : Prop) (p : Parser α) (sure later : α → Prop) : Prop :=
  ∀ ⦃s a s'⦄, s₀.Arrives s pending → p s = .ok (a, s') →
    sure a ∧ s₀.Arrives s' (pending ∧ later a)

/-- Of two parsers in a row the second may use what is certain of the first answer, while what is
pending of it is still pending. -/
theorem Ensures.bind (hp : p.Ensures s₀ pending sure later)
    (hf : ∀ a, sure a → (f a).Ensures s₀ (pending ∧ later a) sure' later') :
    (p >>= f).Ensures s₀ pending sure' later' := by
  intro s b s' harrives h
  obtain ⟨a, s₁, ha, hb⟩ := bind_ok.1 h
  obtain ⟨hsure, harrives₁⟩ := hp harrives ha
  obtain ⟨hsure', harrives₂⟩ := hf a hsure harrives₁ hb
  exact ⟨hsure', harrives₂.imp fun _ h => ⟨h.1.1, h.2⟩⟩

/-- What is certain can be left pending, for parts whose answer is needed only if more follows. -/
theorem Ensures.defer {later₁ : α → Prop} (hp : p.Ensures s₀ pending sure later)
    (himp : ∀ a, sure a → later₁ a) : p.Ensures s₀ pending (fun _ => True) later₁ := by
  intro s a s' harrives h
  obtain ⟨hsure, harrives₁⟩ := hp harrives h
  exact ⟨trivial, harrives₁.imp fun _ h => ⟨h.1, himp a hsure⟩⟩

/-- An answer given without reading is certain only of what holds anyway, and pending of what
follows from what is pending. -/
theorem Ensures.pure {a : α} (hsure : sure a) (hlater : pending → later a) :
    (pure a : Parser α).Ensures s₀ pending sure later := by
  intro s b s' harrives h
  obtain ⟨rfl, rfl⟩ := pure_ok.1 h
  exact ⟨hsure, harrives.imp fun _ h => ⟨h, hlater h⟩⟩

/-- What is read without a thought of what is pending. -/
theorem Gives.then {post : List Token → α → Prop} (hp : p.Gives post)
    (hf : ∀ v a, post v a → (f a).Ensures s₀ pending sure' later') :
    (p >>= f).Ensures s₀ pending sure' later' := by
  intro s b s' harrives h
  obtain ⟨a, s₁, v, hread, hpost, h⟩ := hp.first harrives.sound h
  exact hf v a hpost (harrives.onward hread) h

/-- A word that has to stand here settles what is pending. -/
theorem Ensures.expectWord (word : String) {f : Token → Parser β}
    (hf : ∀ token, pending → (f token).Ensures s₀ pending sure' later') :
    (expectWord word >>= f).Ensures s₀ pending sure' later' := by
  intro s b s' harrives h
  obtain ⟨token, s₁, v, hread, ⟨rfl, -⟩, h⟩ := (expectWord_gives word).first harrives.sound h
  exact hf token (harrives.settled hread (by simp)) (harrives.onward hread) h

/-- A parser that always fails ensures anything, as it never answers. -/
theorem Ensures.unexpected (expected : String) :
    (unexpected expected : Parser α).Ensures s₀ pending sure later :=
  fun _ _ _ _ h => absurd h not_unexpected_ok

section Choice

variable {c : Prop} [Decidable c] {sure₁ : List Node → Prop} {sure₂ : Node → Prop}

/-- A choice ensures what both of its branches ensure, whatever the condition is. -/
theorem Ensures.ite {q : Parser α} (hp : p.Ensures s₀ pending sure later)
    (hq : q.Ensures s₀ pending sure later) :
    (if c then p else q).Ensures s₀ pending sure later := by
  split
  · exact hp
  · exact hq

/-- One of two answers, and what is done with it. -/
theorem Ensures.either {a b : α} (hf : ∀ k, k = a ∨ k = b → (f k).Ensures s₀ pending sure' later') :
    (if c then Pure.pure a >>= f else Pure.pure b >>= f).Ensures s₀ pending sure' later' := by
  rw [pure_bind, pure_bind]
  exact .ite (hf a (.inl rfl)) (hf b (.inr rfl))

/-- What is read only where a condition holds does not disturb what the rest ensures. -/
theorem Gives.when {post : List Token → α → Prop} {rest : Parser β} (hp : p.Gives post)
    (hrest : rest.Ensures s₀ pending sure' later') :
    (if c then p >>= fun _ => rest else rest).Ensures s₀ pending sure' later' :=
  .ite (hp.then fun _ _ _ => hrest) hrest

/-- Nodes that are read only where a condition holds are pending there; elsewhere there are none.
-/
theorem Ensures.when {p : Parser (List Node)} {f : List Node → Parser β}
    (hp : p.Ensures s₀ pending sure₁ fun ns => ∀ n ∈ ns, n.Delimited s₀.rest)
    (hf : ∀ ns, (f ns).Ensures s₀ (pending ∧ ∀ n ∈ ns, n.Delimited s₀.rest) sure' later') :
    (if c then p >>= f else Pure.pure [] >>= f).Ensures s₀ pending sure' later' := by
  refine .ite (hp.bind fun ns _ => hf ns) ?_
  have hnone := hf []
  simpa using hnone

/-- A node that is read only where a condition holds. -/
theorem Ensures.whenOne {p : Parser Node} {f : List Node → Parser β}
    (hp : p.Ensures s₀ pending sure₂ (·.Delimited s₀.rest))
    (hf : ∀ ns, (f ns).Ensures s₀ (pending ∧ ∀ n ∈ ns, n.Delimited s₀.rest) sure' later') :
    (if c then p >>= fun n => Pure.pure [n] >>= f else Pure.pure [] >>= f).Ensures s₀ pending
      sure' later' := by
  refine .ite (hp.bind fun n _ => ?_) ?_
  · have hone := hf [n]
    simpa using hone
  · have hnone := hf []
    simpa using hnone

/-- Phrases that are read only where a condition holds are known to be phrases by what follows
them. -/
theorem Gives.whenPhrases {p : Parser (List Node)} {f : List Node → Parser β}
    {wanted : Kind → Bool} (hp : p.Gives (Phrases wanted))
    (hf : ∀ v ns, Phrases wanted v ns → (f ns).Ensures s₀ pending sure' later') :
    (if c then p >>= f else Pure.pure [] >>= f).Ensures s₀ pending sure' later' := by
  refine .ite (hp.then hf) ?_
  rw [pure_bind]
  exact hf [] [] (.none [])

/-- A phrase that is read only where a condition holds. -/
theorem Gives.whenPhrase {p : Parser Node} {f : List Node → Parser β} {wanted : Kind → Bool}
    (hp : p.Gives (Phrase wanted))
    (hf : ∀ v ns, Phrases wanted v ns → (f ns).Ensures s₀ pending sure' later') :
    (if c then p >>= fun n => Pure.pure [n] >>= f else Pure.pure [] >>= f).Ensures s₀ pending
      sure' later' := by
  refine .ite (hp.then fun v n hn => ?_) ?_ <;> rw [pure_bind]
  · exact hf v [n] (.one hn)
  · exact hf [] [] (.none [])

/-- A phrase that is read unless a condition holds is known to be one by what follows it. -/
theorem Gives.unlessPhrase {p : Parser Node} {f : List Node → Parser β} {wanted : Kind → Bool}
    (hp : p.Gives (Phrase wanted))
    (hf : ∀ v ns, Phrases wanted v ns → (f ns).Ensures s₀ pending sure' later') :
    (if c then Pure.pure [] >>= f else p >>= fun n => Pure.pure [n] >>= f).Ensures s₀ pending
      sure' later' := by
  rw [← ite_not]
  exact hp.whenPhrase hf

end Choice

/-! ### Reading on -/

/-- Looking at the place reads nothing. -/
theorem get_gives : (get : Parser Stream).Gives fun _ _ => True := by
  rintro s a s' hs - h
  obtain ⟨-, rfl⟩ := pure_ok.1 h
  exact ⟨[], .refl s, trivial⟩

/-- Asking a question about the place reads nothing. -/
theorem ask_gives (question : Stream → α) : (ask question).Gives fun _ _ => True := by
  rintro s a s' hs - h
  obtain ⟨-, rfl⟩ := pure_ok.1 h
  exact ⟨[], .refl s, trivial⟩

/-- Taking the next token reads it, if there is one. -/
theorem bump_reads : bump.Gives fun _ _ => True := by
  rintro s a s' hs - h
  obtain ⟨-, rfl⟩ := pure_ok.1 h
  obtain ⟨used, hread⟩ := s.exists_reads_advance
  exact ⟨used, hread, trivial⟩

/-- A change of the place that reads tokens is a parser that reads them. -/
theorem modify_gives {g : Stream → Stream}
    (hg : ∀ s : Stream, s.Sound → ∃ used, s.Reads used (g s)) :
    (modify g : Parser PUnit).Gives fun _ _ => True := by
  rintro s a s' hs - h
  obtain ⟨-, rfl⟩ := pure_ok.1 h
  obtain ⟨used, hread⟩ := hg s hs
  exact ⟨used, hread, trivial⟩

/-- A loop reads tokens if each of its turns does. -/
theorem loop_gives {step : β → Parser (Option β)} (hstep : ∀ b, (step b).Gives fun _ _ => True)
    (b : β) : (loop step b).Gives fun _ _ => True := by
  refine (loop_extends (fun _ _ => True) ?_ trivial).gives
  intro u b _ s₀ s next s' hs hread h
  obtain ⟨v, hread₁, -⟩ := hstep b (hread.sound hs) trivial h
  exact ⟨v, hread.trans hread₁, trivial⟩

/-! ### Repetition -/

section Repetition

variable {step : β → Parser (Option β)}

/-- What a round keeps is kept by all of them, be it certain or pending. -/
theorem iterate_arrives (sure later : β → Prop)
    (hstep : ∀ b, sure b → (step b).Ensures s₀ (pending ∧ later b)
      (fun next => sure (next.getD b)) fun next => later (next.getD b))
    (bound : List Token) (b : β) {c : β} {s s' : Stream} (hb : sure b)
    (harrives : s₀.Arrives s (pending ∧ later b)) (h : iterate step bound b s = .ok (c, s')) :
    sure c ∧ s₀.Arrives s' (pending ∧ later c) := by
  induction bound generalizing b s with
  | nil => exact absurd h not_throw_ok
  | cons _ bound ih =>
    rw [iterate] at h
    obtain ⟨next, s₁, hnext, h⟩ := bind_ok.1 h
    obtain ⟨hsure, harrives₁⟩ := hstep b hb harrives hnext
    replace harrives₁ := harrives₁.imp fun _ h => And.intro h.1.1 h.2
    cases next with
    | none =>
      obtain ⟨rfl, rfl⟩ := pure_ok.1 h
      exact ⟨hsure, harrives₁⟩
    | some next => exact ih next hsure harrives₁ h

/-- Items as long as there are more: what is certain of each is certain of all, and what is pending
of each is pending of all. -/
theorem Ensures.many {more : Stream → Bool} (hp : ∀ pending, p.Ensures s₀ pending sure later) :
    (many more p).Ensures s₀ pending (fun as => ∀ a ∈ as, sure a) fun as => ∀ a ∈ as, later a := by
  intro s as s' harrives h
  obtain ⟨reversed, s₁, hloop, h⟩ := bind_ok.1 h
  obtain ⟨rfl, rfl⟩ := pure_ok.1 h
  rw [loop, get_bind] at hloop
  simp only [List.mem_reverse]
  refine iterate_arrives (fun as => ∀ a ∈ as, sure a) (fun as => ∀ a ∈ as, later a) ?_ _ []
    (by simp) (harrives.imp fun _ h => ⟨h, by simp⟩) hloop
  intro items hitems
  refine get_gives.then fun _ s _ => .ite ?_ ?_
  · refine (hp _).bind fun a ha => .pure ?_ fun h => ?_
    · simpa using ⟨ha, hitems⟩
    · simpa using ⟨h.2, h.1.2⟩
  · exact .pure hitems fun h => h.2

end Repetition

end Parser

end PlsqlAudit
