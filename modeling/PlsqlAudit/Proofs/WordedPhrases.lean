import PlsqlAudit.Proofs.Spelling

/-!
# Expressions with their words

The parser may pass over tokens before a phrase.  In front of an expression these are
the word `NEW` and nothing else, so all the identifiers that were read for it are
accounted for (`Worded`).  The parts of a larger expression are put together with the
words between them (`Wordings`), and the identifiers of the whole are those of the
parts and these words.
-/

namespace PlsqlAudit

namespace Phrase

variable {wanted wanted' : Kind → Bool} {u v : List Token} {lhs : Node} {more : List Node}

/-- The span of the node of a phrase, stretched over the tokens that follow. -/
theorem stretch_spans {us skipped : List Token} {b : Span} {last : Token} (htakes : Takes us lhs)
    (ho : Ordered (skipped ++ us ++ v)) (hlast : (skipped ++ us ++ v).getLast? = some last)
    (hstop : b.stop = last.span.stop) : Spans (us ++ v) (lhs.span.cover b) := by
  rw [List.append_assoc] at ho hlast
  refine htakes.fits.spans.cover (List.pairwise_append.1 ho).2.1 ⟨v, rfl⟩ ?_ hstop
  rwa [List.getLast?_append_of_ne_nil _ (by simp [htakes.ne_nil])] at hlast

/-- The last token of a phrase is where its node ends. -/
theorem stop_eq (h : Phrase wanted v lhs) :
    ∃ last, (∀ u : List Token, (u ++ v).getLast? = some last) ∧ lhs.span.stop = last.span.stop := by
  obtain ⟨skipped, us, rfl, htakes, hkind⟩ := h
  obtain ⟨last, hlast, hstop⟩ := htakes.fits.spans.stops
  exact ⟨last, fun u => by simp [List.getLast?_append, hlast], hstop⟩

/-- A phrase ends where one that is read after it ends, or before. -/
theorem stop_le {rhs : Node} (hlhs : Phrase wanted u lhs) (hrhs : Phrase wanted' v rhs)
    (ho : Ordered (u ++ v)) : lhs.span.stop ≤ rhs.span.stop := by
  obtain ⟨inner, hinner, hstop⟩ := hlhs.stop_eq
  obtain ⟨last, hlast, hstop'⟩ := hrhs.stop_eq
  have hmem : inner ∈ u := List.mem_of_getLast? (hinner [])
  rw [hstop, hstop']
  exact ho.stop_le (List.mem_append_left v hmem) (hlast u)

end Phrase

/-! ### One expression -/

/-- An expression with the tokens that were read for it.  `NEW` may stand in front. -/
structure Worded (used : List Token) (n : Node) : Prop where
  ordered : Ordered used
  kind : n.kind.isExpression = true
  read : ∃ skipped us, used = skipped ++ us ∧
    (∀ token ∈ skipped, token.isWord "new" = true) ∧ Takes us n

namespace Worded

variable {u v used : List Token} {lhs n : Node} {kind : Kind} {words : List String}
  {more parts : List Node}

/-- An expression with its words is a phrase: its node spells the tokens that were read. -/
theorem phrase (h : Worded used n) : Phrase Kind.isExpression used n := by
  obtain ⟨skipped, us, rfl, -, htakes⟩ := h.read
  exact ⟨skipped, us, rfl, htakes, h.kind⟩

/-- A node that takes all of the tokens read for it accounts for them, without any word in
front. -/
theorem ofTakes (h : Takes used n) (ho : Ordered used) (hkind : n.kind.isExpression = true) :
    Worded used n := ⟨ho, hkind, [], used, rfl, by simp, h⟩

/-- An expression with its words spells its tokens. -/
theorem spells (h : Worded used n) : Spells used [n] := h.phrase.spells

/-- The identifiers that were read for an expression belong to it. -/
theorem accounted (h : Worded used n) (hnew : "new" ∈ words) :
    Accounted (Among words [n]) used := by
  obtain ⟨skipped, us, rfl, hskipped, htakes⟩ := h.read
  refine (Accounted.of_forall fun token htoken => ?_).append (.of_forall fun token htoken => ?_)
  · exact (Token.writes_of_isWord (hskipped token htoken) hnew).imp_right .inl
  · have hholds := htakes.fits.spans.bounds (List.pairwise_append.1 h.ordered).2.1 htoken
    exact .inr (.inr ⟨n, List.mem_singleton.2 rfl, hholds⟩)

/-- So they belong to every node that the expression is a part of. -/
theorem placed (h : Worded used n) (hn : n ∈ parts) (hnew : "new" ∈ kind.words) :
    Accounted (Placed kind parts) used :=
  (h.accounted hnew).mono fun _ hamong =>
    .among (hamong.mono (List.Subset.refl _) (by simpa using hn))

/-- An expression that starts with an operand and ends with the last token read. -/
theorem grow {b : Span} {last : Token} (hlhs : Worded u lhs) (hmore : Spells v more)
    (haccounted : Accounted (Placed kind (lhs :: more)) v) (ho : Ordered (u ++ v))
    (hlast : (u ++ v).getLast? = some last) (hstop : b.stop = last.span.stop)
    (hlayout : kind.Layout (lhs.kind :: more.map Node.kind)) (hname : kind ≠ .name)
    (hkind : kind.isExpression = true) :
    Worded (u ++ v) (.mk kind (lhs.span.cover b) (lhs :: more)) := by
  obtain ⟨skipped, us, rfl, hskipped, htakes⟩ := hlhs.read
  refine ⟨ho, hkind, skipped, us ++ v, List.append_assoc _ _ _, hskipped, ?_⟩
  have hfirst : Accounted (Placed kind (lhs :: more)) us := by
    refine .of_forall fun token htoken => .inr (.among (.inr ⟨lhs, List.mem_cons_self, ?_⟩))
    exact htakes.fits.spans.bounds (List.pairwise_append.1 hlhs.ordered).2.1 htoken
  exact .operand hlayout hname (Phrase.stretch_spans htakes ho hlast hstop)
    (htakes.spells.cons hmore) (hfirst.append haccounted)

/-- A member of an expression. -/
theorem withMember {dot name : Token} (hlhs : Worded u lhs) (hdot : dot.kind = .dot)
    (hname : name.kind.isIdentifier = true) (ho : Ordered (u ++ [dot, name])) :
    Worded (u ++ [dot, name])
      (.mk .memberAccess (lhs.span.cover name.span) [lhs, .leaf .name name.span]) := by
  have hmember : Among Kind.memberAccess.words [lhs, .leaf .name name.span] name :=
    .inr ⟨_, List.mem_cons_of_mem _ List.mem_cons_self, Nat.le_refl _, Nat.le_refl _⟩
  refine hlhs.grow (.skip _ (Takes.name hname).spells) ?_ ho (by simp) rfl ?_ (by simp) rfl
  · exact .other _ (by rw [hdot]; rfl) (.passes _ (.among hmember) .nil)
  · exact ⟨_, rfl, hlhs.kind⟩

/-- An attribute of an expression. -/
theorem withAttribute {sign name : Token} (hlhs : Worded u lhs) (hsign : sign.kind = .percent)
    (ho : Ordered (u ++ [sign, name])) :
    Worded (u ++ [sign, name]) (.mk .attribute (lhs.span.cover name.span) [lhs]) :=
  hlhs.grow (Spells.skips _) (.link _ _ (by rw [hsign]; rfl) .nil) ho (by simp) rfl
    ⟨_, rfl, hlhs.kind⟩ (by simp) rfl

/-- An expression that takes the database link after it too. -/
theorem withLink {sign link : Token} (hlhs : Worded u lhs) (hsign : sign.kind = .atSign)
    (ho : Ordered (u ++ [sign, link])) : Worded (u ++ [sign, link]) (lhs.stretch link.span) := by
  obtain ⟨skipped, us, rfl, hskipped, htakes⟩ := hlhs.read
  refine ⟨ho, hlhs.kind, skipped, us ++ [sign, link], List.append_assoc _ _ _, hskipped,
    ⟨htakes.fits.layout, ?_, ?_, ?_⟩, ?_⟩
  · exact Phrase.stretch_spans htakes ho (by simp) rfl
  · intro hname
    obtain ⟨token, hhead, htoken⟩ := htakes.fits.named hname
    exact ⟨token, by rw [List.head?_append, hhead, Option.some_or], htoken⟩
  · intro hoperand
    exact (htakes.fits.accounted hoperand).append (.link sign link (by rw [hsign]; rfl) .nil)
  · have hinner := htakes.inner.append (Spells.skips [sign, link])
    rwa [List.append_nil] at hinner

/-- An expression that starts with an operand and ends where the stream is. -/
theorem growLast {s s' : Stream} (hlhs : Worded u lhs) (hmore : Spells v more)
    (haccounted : Accounted (Placed kind (lhs :: more)) v) (hs : s.Sound)
    (hread : s.Reads (u ++ v) s')
    (hlayout : kind.Layout (lhs.kind :: more.map Node.kind)) (hname : kind ≠ .name)
    (hkind : kind.isExpression = true) :
    Worded (u ++ v) (.mk kind (lhs.span.cover s'.lastSpan) (lhs :: more)) := by
  have hne : u ++ v ≠ [] := by simp [hlhs.phrase.ne_nil]
  have hlast := List.getLast?_eq_some_getLast hne
  exact hlhs.grow hmore haccounted (hread.ordered hs) hlast (by rw [hread.lastSpan hlast]) hlayout
    hname hkind

/-- An operator around an expression that takes the same tokens. -/
theorem wrap (h : Worded u lhs) (op : UnaryOp) :
    Worded u (.mk (.unary op) lhs.span [lhs]) := by
  obtain ⟨skipped, us, rfl, hskipped, htakes⟩ := h.read
  refine ⟨h.ordered, rfl, skipped, us, rfl, hskipped, ?_⟩
  have hus : Ordered us := (List.pairwise_append.1 h.ordered).2.1
  exact .operand ⟨_, rfl, h.kind⟩ (by simp) htakes.fits.spans htakes.spells
    ((ofTakes htakes hus h.kind).placed List.mem_cons_self List.mem_cons_self)

end Worded

/-! ### Several parts -/

/-- Tokens that spell nodes of a wanted kind, with the given words between them. -/
structure Wordings (wanted : Kind → Bool) (words : List String) (used : List Token)
    (ns : List Node) : Prop where
  phrases : Phrases wanted used ns
  accounted : Accounted (Among words ns) used

namespace Wordings

variable {wanted : Kind → Bool} {words : List String} {u v : List Token} {n : Node}
  {ns ms : List Node} {kind : Kind}

/-- Tokens that only write the given words need no nodes. -/
theorem none (h : ∀ token ∈ u, token.Writes words) : Wordings wanted words u [] :=
  ⟨.none u, .of_forall fun token htoken => (h token htoken).imp_right .inl⟩

/-- One expression is a part, where `NEW` is among the words that may be written. -/
theorem one (h : Worded u n) (hnew : "new" ∈ words) : Wordings Kind.isExpression words u [n] :=
  ⟨.one h.phrase, h.accounted hnew⟩

/-- Parts with words between them, one list after the other, are parts with words between them. -/
theorem append (h : Wordings wanted words u ns) (h' : Wordings wanted words v ms) :
    Wordings wanted words (u ++ v) (ns ++ ms) where
  phrases := h.phrases.append h'.phrases
  accounted := (h.accounted.mono fun _ hns => hns.mono (List.Subset.refl _) (by simp)).append
    (h'.accounted.mono fun _ hms => hms.mono (List.Subset.refl _) (by simp))

/-- Words behind the last part can be added to it. -/
theorem skip (h : Wordings wanted words u ns) (hv : ∀ token ∈ v, token.Writes words) :
    Wordings wanted words (u ++ v) ns := by
  simpa using h.append (none hv)

/-- All identifiers read for parts with words between them are accounted for below a node of the
kind that these words belong to. -/
theorem placed (h : Wordings wanted kind.words u ns) : Accounted (Placed kind ns) u :=
  h.accounted.mono fun _ => .among

end Wordings

namespace Parser

variable {wanted : Kind → Bool} {words : List String} {item : Parser Node}

/-- Items with commas between them are parts, and there is at least one. -/
theorem separated_wordings (hitem : item.Gives fun u n => Wordings wanted words u [n]) :
    (separated item).Gives fun u ns => Wordings wanted words u ns ∧ ns ≠ [] := by
  refine separated_gives hitem ?_ ?_
  · intro v n hn
    exact ⟨hn, by simp⟩
  · rintro u ns comma v n hcomma ⟨hns, -⟩ hn
    have hskip := hns.skip (Token.writes_of_kind hcomma rfl).single
    exact ⟨by simpa using hskip.append hn, by simp⟩

/-- Parts that are read turn by turn in a loop are parts of the whole. -/
theorem many_flatten_wordings {more : Stream → Bool} {item : Parser (List Node)}
    (hitem : item.GivesAt (more · = true) (Wordings wanted words)) :
    (many more item).Gives fun u lists => Wordings wanted words u lists.flatten := by
  refine many_gives hitem (.none (by simp)) ?_
  intro u lists v ns hlists hns
  simpa using hlists.append hns

variable {β : Type} {c : Prop} [Decidable c] {f : List Node → Parser β} {b : β}
  {s₀ s s' : Stream} {u : List Token}

/-- A word that may have been read is one of the words of the node. -/
theorem writes_of_eaten {read : Bool} {word : String}
    (h : (read = true ∧ ∃ token, u = [token] ∧ token.isWord word = true) ∨ read = false ∧ u = [])
    (hword : word ∈ words) : ∀ token ∈ u, token.Writes words := by
  rcases h with ⟨-, token, rfl, htoken⟩ | ⟨-, rfl⟩
  · exact (Token.writes_of_isWord htoken hword).single
  · simp

/-- A part read where it is present, and left out where it is not, is a part either way. -/
theorem when_wordings (hitem : item.Gives fun u n => Wordings wanted words u [n]) (hs : s₀.Sound)
    (hread : s₀.Reads u s)
    (h : (if c then item >>= fun n => pure [n] >>= f else pure [] >>= f) s = .ok (b, s')) :
    ∃ ns s₁ v, s₀.Reads (u ++ v) s₁ ∧ Wordings wanted words v ns ∧ f ns s₁ = .ok (b, s') := by
  obtain ⟨ns, s₁, v, hread₁, ⟨n, rfl, hn⟩ | ⟨rfl, rfl⟩, h⟩ :=
    when_item hitem hs hread (fun _ => trivial) h
  · exact ⟨[n], s₁, v, hread₁, hn, h⟩
  · exact ⟨[], s₁, [], hread₁, .none (by simp), h⟩

/-- A part left out where it is missing, and read where it is not, is a part either way. -/
theorem unless_wordings (hitem : item.Gives fun u n => Wordings wanted words u [n]) (hs : s₀.Sound)
    (hread : s₀.Reads u s)
    (h : (if c then pure [] >>= f else item >>= fun n => pure [n] >>= f) s = .ok (b, s')) :
    ∃ ns s₁ v, s₀.Reads (u ++ v) s₁ ∧ Wordings wanted words v ns ∧ f ns s₁ = .ok (b, s') := by
  rw [← ite_not] at h
  exact when_wordings hitem hs hread h

end Parser

end PlsqlAudit
