import Mathlib.Data.List.Basic
import PlsqlAudit.Grammar.Parser

/-!
# What parsers read

A parser reads tokens off the front of a stream and nothing else: `Stream.Reads`
says which, and that the stream remembers the last of them.  What a parser
answers is stated together with the tokens it read (`Parser.Gives`), so that the
answers of parsers that run one after the other are put together with their
tokens.

Two things are assumed of a stream, and stay true as it is read: the token at its
end is of the kind for the end, so that no other test succeeds there, and tokens
stand one after the other.
-/

namespace PlsqlAudit

/-- What passes a test has an outcome to be tested. -/
theorem exists_ok_of_any {ε α : Type} {x : Except ε α} (test : α → Bool)
    (h : x.toOption.any test = true) : ∃ a, x = .ok a ∧ test a = true := by
  cases x with
  | error e => simp [Except.toOption] at h
  | ok a => exact ⟨a, rfl, h⟩

/-- Tokens that stand one after the other. -/
def Ordered (tokens : List Token) : Prop :=
  tokens.Pairwise fun a b => a.span.stop ≤ b.span.offset

namespace Stream

/-- A stream as `tokenize` makes it, or what is left of it. -/
structure Sound (s : Stream) : Prop where
  ends : s.eof.kind = .eof
  ordered : Ordered s.rest

/-- Reading the tokens `used` off `s` leaves `s'`. -/
structure Reads (s : Stream) (used : List Token) (s' : Stream) : Prop where
  rest : s.rest = used ++ s'.rest
  last : s'.last = used.getLast?.or s.last
  source : s'.source = s.source
  eof : s'.eof = s.eof

variable {s s' s'' : Stream} {used more : List Token} {token : Token}

namespace Reads

/-- A reader that takes no token leaves the stream as it was. -/
theorem refl (s : Stream) : s.Reads [] s := ⟨rfl, rfl, rfl, rfl⟩

/-- What is read in two goes is read one part behind the other, and the last token is remembered
from the later part that read one. -/
theorem trans (h : s.Reads used s') (h' : s'.Reads more s'') : s.Reads (used ++ more) s'' where
  rest := by rw [h.rest, h'.rest, List.append_assoc]
  last := by
    rw [h'.last, h.last, List.getLast?_append]
    cases more.getLast? <;> rfl
  source := h'.source.trans h.source
  eof := h'.eof.trans h.eof

/-- What is left of a sound stream is sound: the end stays the same token, and a tail of tokens in
order is in order. -/
theorem sound (h : s.Reads used s') (hs : s.Sound) : s'.Sound where
  ends := h.eof ▸ hs.ends
  ordered := by
    have hordered := hs.ordered
    rw [h.rest, Ordered, List.pairwise_append] at hordered
    exact hordered.2.1

/-- The tokens that are read off a sound stream stand one after the other in the text. -/
theorem ordered (h : s.Reads used s') (hs : s.Sound) : Ordered used := by
  have hordered := hs.ordered
  rw [h.rest, Ordered, List.pairwise_append] at hordered
  exact hordered.1

/-- The first token that is read is the next one. -/
theorem peek (h : s.Reads (token :: used) s') : s.peek = token := by
  simp [Stream.peek, h.rest]

/-- The first token that is read is the one that stood in front. -/
theorem head?_eq (h : s.Reads used s') (hne : used ≠ []) : used.head? = some s.peek := by
  obtain ⟨token, rest, rfl⟩ := List.exists_cons_of_ne_nil hne
  rw [h.peek, List.head?_cons]

/-- The last token that was read is remembered, and its span is where a construct without an end of
its own ends. -/
theorem lastSpan (h : s.Reads used s') (hlast : used.getLast? = some token) :
    s'.lastSpan = token.span := by
  simp [Stream.lastSpan, h.last, hlast]

end Reads

/-- Where a test for some kind of token succeeds, there is one to be read. -/
theorem reads_advance (hs : s.Sound) (hkind : s.kind ≠ .eof) : s.Reads [s.peek] s.advance := by
  cases hrest : s.rest with
  | nil =>
    have hpeek : s.kind = s.eof.kind := by simp [kind, peek, hrest]
    exact absurd (hpeek.trans hs.ends) hkind
  | cons token rest => exact ⟨by simp [advance, peek, hrest], by simp [advance, peek, hrest],
      by simp [advance, hrest], by simp [advance, hrest]⟩

/-- The next token is read after others, where there is one. -/
theorem Reads.bump (hread : s.Reads used s') (hs : s.Sound) (hkind : s'.kind ≠ .eof) :
    s.Reads (used ++ [s'.peek]) s'.advance :=
  hread.trans (reads_advance (hread.sound hs) hkind)

/-! ### Skipping -/

/-- A token in front of a stream is read first, whatever the stream remembered before it. -/
theorem reads_cons {source : String} {eof : Token} {last : Option Token} {rest : List Token}
    (h : (⟨source, some token, rest, eof⟩ : Stream).Reads used s') :
    (⟨source, last, token :: rest, eof⟩ : Stream).Reads (token :: used) s' where
  rest := by simpa using h.rest
  last := by
    rw [h.last, List.getLast?_cons]
    cases used.getLast? <;> rfl
  source := h.source
  eof := h.eof

/-- Skipping to a stop outside all parentheses reads tokens off the front and nothing else, at
every depth. -/
theorem reads_skipFrom (stop : Stream → Bool) (source : String) (eof : Token) (depth : Nat)
    (last : Option Token) (tokens : List Token) :
    ∃ used, (⟨source, last, tokens, eof⟩ : Stream).Reads used
      (skipFrom stop source eof depth last tokens) := by
  induction tokens generalizing depth last with
  | nil => exact ⟨[], Reads.refl _⟩
  | cons token rest ih =>
    rw [skipFrom]
    split
    · exact ⟨[], Reads.refl _⟩
    · obtain ⟨used, hused⟩ := ih (depthAfter depth token.kind) (some token)
      exact ⟨token :: used, reads_cons hused⟩

/-- Skipping to a stop reads the tokens in front of the stop and leaves the rest as it is. -/
theorem reads_skipUntil (stop : Stream → Bool) (s : Stream) :
    ∃ used, s.Reads used (s.skipUntil stop) := reads_skipFrom stop s.source s.eof 0 s.last s.rest

/-- Advancing to a stop reads tokens off the front and nothing else, whatever they are. -/
theorem reads_advanceFrom (stop : Stream → Bool) (source : String) (eof : Token)
    (last : Option Token) (tokens : List Token) :
    ∃ used, (⟨source, last, tokens, eof⟩ : Stream).Reads used
      (advanceFrom stop source eof last tokens) := by
  induction tokens generalizing last with
  | nil => exact ⟨[], Reads.refl _⟩
  | cons token rest ih =>
    rw [advanceFrom]
    split
    · exact ⟨[], Reads.refl _⟩
    · obtain ⟨used, hused⟩ := ih (some token)
      exact ⟨token :: used, reads_cons hused⟩

/-- Advancing to a stop reads the tokens in front of it and leaves the rest as it is. -/
theorem reads_advanceUntil (stop : Stream → Bool) (s : Stream) :
    ∃ used, s.Reads used (s.advanceUntil stop) :=
  reads_advanceFrom stop s.source s.eof s.last s.rest

/-- Of words in a row all are read, and nothing else. -/
theorem reads_anyWords (words : List String) (s : Stream) :
    ∃ used, s.Reads used (s.advanceUntil fun s => !s.atAnyWord words) ∧
      ∀ token ∈ used, token.isAnyWord words = true := by
  obtain ⟨source, last, tokens, eof⟩ := s
  induction tokens generalizing last with
  | nil => exact ⟨[], Reads.refl _, by simp⟩
  | cons token rest ih =>
    rw [advanceUntil, advanceFrom]
    split
    case isTrue => exact ⟨[], Reads.refl _, by simp⟩
    case isFalse hword =>
      obtain ⟨used, hused, hwords⟩ := ih (some token)
      refine ⟨token :: used, reads_cons hused, List.forall_mem_cons.2 ⟨?_, hwords⟩⟩
      simpa [atAnyWord, peek] using hword

/-- Skipping a statement reads tokens off the front and nothing else, at every depth of
parentheses. -/
theorem reads_skipStatementFrom (source : String) (eof : Token) (depth : Nat)
    (last : Option Token) (tokens : List Token) :
    ∃ used, (⟨source, last, tokens, eof⟩ : Stream).Reads used
      (skipStatementFrom source eof depth last tokens) := by
  induction tokens generalizing depth last with
  | nil => exact ⟨[], Reads.refl _⟩
  | cons token rest ih =>
    rw [skipStatementFrom]
    split
    · exact ⟨[], Reads.refl _⟩
    · split
      · exact ⟨[token], reads_cons (Reads.refl _)⟩
      · obtain ⟨used, hused⟩ := ih (depthAfter depth token.kind) (some token)
        exact ⟨token :: used, reads_cons hused⟩

/-- Skipping a statement reads the tokens it is made of and leaves the rest as it is. -/
theorem reads_skipStatement (s : Stream) : ∃ used, s.Reads used s.skipStatement :=
  reads_skipStatementFrom s.source s.eof 0 s.last s.rest

/-- A skip that does not stop at once reads something, unless nothing is left. -/
theorem reads_skipUntil_of_not (stop : Stream → Bool) (hs : s.Sound) (hkind : s.kind ≠ .eof)
    (hstop : stop s = false) : ∃ used, used ≠ [] ∧ s.Reads used (s.skipUntil stop) := by
  obtain ⟨source, last, tokens, eof⟩ := s
  cases tokens with
  | nil => exact absurd hs.ends hkind
  | cons token rest =>
    obtain ⟨used, hused⟩ :=
      reads_skipFrom stop source eof (depthAfter 0 token.kind) (some token) rest
    refine ⟨token :: used, by simp, ?_⟩
    rw [skipUntil, skipFrom]
    simpa [hstop] using reads_cons hused

/-- Skipping past a semicolon reads something, unless nothing is left. -/
theorem reads_skipPastSemicolon (hs : s.Sound) (hkind : s.kind ≠ .eof) :
    ∃ used, used ≠ [] ∧ s.Reads used s.skipPastSemicolon := by
  obtain ⟨used, hused⟩ := reads_skipUntil (·.atKind .semicolon) s
  rw [skipPastSemicolon]
  split
  case isTrue hsemicolon =>
    have hstop : (s.skipUntil (·.atKind .semicolon)).kind = .semicolon := by
      simpa [atKind] using hsemicolon
    refine ⟨_, ?_, hused.trans (reads_advance (hused.sound hs) (by simp [hstop]))⟩
    simp
  case isFalse hsemicolon =>
    cases hat : s.atKind .semicolon with
    | false => exact reads_skipUntil_of_not _ hs hkind hat
    | true =>
      refine absurd ?_ hsemicolon
      obtain ⟨source, last, tokens, eof⟩ := s
      cases tokens with
      | nil => exact absurd hs.ends hkind
      | cons token rest =>
        rw [skipUntil, skipFrom]
        simp [hat]

/-! ### Looking ahead -/

/-- A stream that is at a kind has a token of that kind in front. -/
theorem kind_of_atKind {kind : TokenKind} (h : s.atKind kind = true) : s.kind = kind := by
  simpa [atKind] using h

/-- A stream that is at a word has a word in front, since only words are compared with words. -/
theorem kind_of_atWord {word : String} (h : s.atWord word = true) : s.kind = .word := by
  simp only [atWord, Token.isWord, Bool.and_eq_true, beq_iff_eq] at h
  exact h.1

/-- At a word the stream has not ended, since the end of the input is no word. -/
theorem ne_eof_of_atWord {word : String} (h : s.atWord word = true) : s.kind ≠ .eof := by
  simp [kind_of_atWord h]

/-- A stream that is at one of several words has a word in front. -/
theorem kind_of_atAnyWord {words : List String} (h : s.atAnyWord words = true) :
    s.kind = .word := by
  simp only [atAnyWord, Token.isAnyWord, Bool.and_eq_true, beq_iff_eq] at h
  exact h.1

/-- At one of several words the stream has not ended. -/
theorem ne_eof_of_atAnyWord {words : List String} (h : s.atAnyWord words = true) :
    s.kind ≠ .eof := by
  simp [kind_of_atAnyWord h]

/-- No identifier is the end of a text, so at an identifier there is something to read. -/
theorem ne_eof_of_isIdentifier {kind : TokenKind} (h : kind.isIdentifier = true) : kind ≠ .eof := by
  rintro rfl
  simp [TokenKind.isIdentifier] at h

/-- A stream is at one word only: two words that both stand in front are the same. -/
theorem atWord_unique {word other : String} (h : s.atWord word = true)
    (h' : s.atWord other = true) : word = other := by
  simp only [atWord, Token.isWord, Bool.and_eq_true, beq_iff_eq] at h h'
  exact h.2.symm.trans h'.2

/-- An advance never makes the tokens that are left more, and at the end it leaves them as they
are. -/
theorem length_advance_le (s : Stream) : s.advance.rest.length ≤ s.rest.length := by
  cases hrest : s.rest <;> simp [advance, hrest]

/-- Looking ahead behind the first token is looking one token further ahead. -/
theorem peekAt_advance (s : Stream) (n : Nat) : s.advance.peekAt n = s.peekAt (n + 1) := by
  cases hrest : s.rest <;> simp [advance, peekAt, hrest]

/-- Behind the first token stands the second one. -/
theorem peek_advance (s : Stream) : s.advance.peek = s.peekAt 1 := by
  cases hrest : s.rest with
  | nil => simp [advance, peek, peekAt, hrest]
  | cons token rest => cases rest <;> simp [advance, peek, peekAt, hrest]

/-- A word in front of what is left behind the first token is the word at the second place. -/
theorem atWord_advance (s : Stream) (word : String) :
    s.advance.atWord word = s.atWordAt 1 word := by
  rw [atWord, peek_advance, atWordAt]

end Stream

namespace Parser

variable {α β : Type} {s s₀ s₁ s' : Stream} {u v : List Token}

/-! ### Running a parser that is put together from others -/

/-- Two parsers in a row succeed exactly if the first does, and the second on what the first
leaves. -/
theorem bind_ok {p : Parser α} {f : α → Parser β} {b : β} :
    (p >>= f) s = .ok (b, s') ↔ ∃ a s₁, p s = .ok (a, s₁) ∧ f a s₁ = .ok (b, s') := by
  show (StateT.bind p f s : Except ParseError (β × Stream)) = .ok (b, s') ↔ _
  rw [StateT.bind]
  cases p s with
  | error e => simp [bind, Except.bind]
  | ok r =>
    obtain ⟨a, s₁⟩ := r
    simp [bind, Except.bind]

/-- Where the first of two parsers succeeds, the second goes on behind it. -/
theorem bind_of_ok {p : Parser α} {f : α → Parser β} {a : α} {s₁ : Stream}
    (h : p s = .ok (a, s₁)) : (p >>= f) s = f a s₁ := by
  show (StateT.bind p f s : Except ParseError (β × Stream)) = _
  rw [StateT.bind, h]
  rfl

/-- Where the first of two parsers fails, both do. -/
theorem bind_of_error {p : Parser α} {f : α → Parser β} {e : ParseError} (h : p s = .error e) :
    (p >>= f) s = .error e := by
  show (StateT.bind p f s : Except ParseError (β × Stream)) = _
  rw [StateT.bind, h]
  rfl

/-- A parser that only answers succeeds with its answer and reads nothing. -/
theorem pure_ok {a b : α} : (pure a : Parser α) s = .ok (b, s') ↔ a = b ∧ s = s' := by
  show (Except.ok (a, s) : Except ParseError (α × Stream)) = .ok (b, s') ↔ _
  simp

/-- A parser that fails does not succeed, whatever it would have answered. -/
theorem not_throw_ok {e : ParseError} {r : α × Stream} : (throw e : Parser α) s ≠ .ok r :=
  fun h => nomatch h

/-- A parser that reports an unexpected token does not succeed. -/
theorem not_unexpected_ok {expected : String} {r : α × Stream} :
    (unexpected expected : Parser α) s ≠ .ok r := fun h => nomatch h

/-- Looking at the stream hands it on and reads nothing. -/
theorem get_bind (f : Stream → Parser β) (s : Stream) : (get >>= f) s = f s s := rfl

/-- A question about the stream is answered without reading. -/
theorem ask_bind (question : Stream → α) (f : α → Parser β) (s : Stream) :
    (ask question >>= f) s = f (question s) s := rfl

/-- Asking for the span of the last token hands on what the stream remembers and reads nothing. -/
theorem lastSpan_bind (f : Span → Parser β) (s : Stream) :
    (lastSpan >>= f) s = f s.lastSpan s := rfl

/-- A change of the stream is made before what follows is run. -/
theorem modify_bind (g : Stream → Stream) (f : PUnit → Parser β) (s : Stream) :
    (modify g >>= f) s = f ⟨⟩ (g s) := rfl

/-- A skip as a first part: what follows runs where the skip stops. -/
theorem skipUntil_bind (stop : Stream → Bool) (f : PUnit → Parser β) (s : Stream) :
    (skipUntil stop >>= f) s = f ⟨⟩ (s.skipUntil stop) := rfl

/-- Reading one token hands it on, and what follows runs behind it. -/
theorem bump_bind (f : Token → Parser β) (s : Stream) :
    (bump >>= f) s = f s.peek s.advance := rfl

theorem pure_run (a : α) (s : Stream) : (pure a : Parser α) s = .ok (a, s) := rfl

theorem pure_bind_run (a : α) (f : α → Parser β) (s : Stream) : (pure a >>= f) s = f a s := rfl

/-- A choice between two parsers runs one of them, and its condition tells which. -/
theorem ite_run {c : Prop} [Decidable c] {p q : Parser α} {r : Except ParseError (α × Stream)}
    (h : (if c then p else q) s = r) : (c ∧ p s = r) ∨ (¬ c ∧ q s = r) := by
  by_cases hc : c
  · exact .inl ⟨hc, by rwa [if_pos hc] at h⟩
  · exact .inr ⟨hc, by rwa [if_neg hc] at h⟩

/-- A choice between two answers is one answer, which is chosen first. -/
theorem ite_pure_bind {c : Prop} [Decidable c] (a b : α) (f : α → Parser β) (s : Stream) :
    (if c then pure a >>= f else pure b >>= f) s = f (if c then a else b) s := by
  split <;> rfl

/-! ### What a parser reads and gives -/

/-- Run where `guard` holds, `p` reads tokens and gives an answer for which
`post` holds. -/
def GivesAt (guard : Stream → Prop) (p : Parser α) (post : List Token → α → Prop) : Prop :=
  ∀ ⦃s a s'⦄, s.Sound → guard s → p s = .ok (a, s') → ∃ used, s.Reads used s' ∧ post used a

/-- Wherever it is run, `p` reads tokens and gives an answer for which `post`
holds. -/
def Gives (p : Parser α) (post : List Token → α → Prop) : Prop := p.GivesAt (fun _ => True) post

/-- The first of two parsers, run after the tokens `u` were read. -/
theorem GivesAt.bind {guard : Stream → Prop} {p : Parser α} {post : List Token → α → Prop}
    {f : α → Parser β} {b : β} (hp : p.GivesAt guard post) (hs : s₀.Sound) (hread : s₀.Reads u s)
    (hguard : guard s) (h : (p >>= f) s = .ok (b, s')) :
    ∃ a s₁ v, s₀.Reads (u ++ v) s₁ ∧ post v a ∧ f a s₁ = .ok (b, s') := by
  obtain ⟨a, s₁, ha, hb⟩ := bind_ok.1 h
  obtain ⟨v, hv, hpost⟩ := hp (hread.sound hs) hguard ha
  exact ⟨a, s₁, v, hread.trans hv, hpost, hb⟩

/-- The first of two parsers wherever it is run, after the tokens `u` were read: its tokens come
behind them. -/
theorem Gives.bind {p : Parser α} {post : List Token → α → Prop} {f : α → Parser β} {b : β}
    (hp : p.Gives post) (hs : s₀.Sound) (hread : s₀.Reads u s)
    (h : (p >>= f) s = .ok (b, s')) :
    ∃ a s₁ v, s₀.Reads (u ++ v) s₁ ∧ post v a ∧ f a s₁ = .ok (b, s') :=
  GivesAt.bind hp hs hread trivial h

/-- What the first of two parsers gives is known where the second one starts. -/
theorem Gives.first {p : Parser α} {post : List Token → α → Prop} {f : α → Parser β} {b : β}
    (hp : p.Gives post) (hs : s.Sound) (h : (p >>= f) s = .ok (b, s')) :
    ∃ a s₁ v, s.Reads v s₁ ∧ post v a ∧ f a s₁ = .ok (b, s') :=
  hp.bind hs (Stream.Reads.refl s) h

/-- What is read only where a condition holds, and whose answer is dropped. -/
theorem GivesAt.when {guard : Stream → Prop} {p : Parser α} {post : List Token → α → Prop}
    {c : Prop} [Decidable c] {rest : Parser β} {b : β} (hp : p.GivesAt guard post)
    (hs : s₀.Sound) (hread : s₀.Reads u s) (hguard : c → guard s)
    (h : (if c then p >>= fun _ => rest else rest) s = .ok (b, s')) :
    ∃ s₁ v, s₀.Reads (u ++ v) s₁ ∧ rest s₁ = .ok (b, s') := by
  split at h
  case isTrue hc =>
    obtain ⟨a, s₁, v, hread₁, -, h⟩ := hp.bind hs hread (hguard hc) h
    exact ⟨s₁, v, hread₁, h⟩
  case isFalse => exact ⟨s, [], by simpa using hread, h⟩

/-- What is known of the tokens and the answer of a parser may be weakened. -/
theorem GivesAt.mono {guard : Stream → Prop} {p : Parser α} {post post' : List Token → α → Prop}
    (hp : p.GivesAt guard post) (himp : ∀ u a, post u a → post' u a) : p.GivesAt guard post' := by
  intro s a s' hs hguard h
  obtain ⟨used, hread, hpost⟩ := hp hs hguard h
  exact ⟨used, hread, himp used a hpost⟩

/-- A parser that gives what it should everywhere does so in particular where a guard holds. -/
theorem Gives.at {p : Parser α} {post : List Token → α → Prop} (hp : p.Gives post)
    (guard : Stream → Prop) : p.GivesAt guard post :=
  fun _ _ _ hs _ h => hp hs trivial h

/-- Run after the tokens `before`, `p` reads more and gives an answer for which
`post` holds of all of them. -/
def Extends (before : List Token) (p : Parser α) (post : List Token → α → Prop) : Prop :=
  ∀ ⦃s₀ s : Stream⦄ ⦃a s'⦄, s₀.Sound → s₀.Reads before s → p s = .ok (a, s') →
    ∃ v, s₀.Reads (before ++ v) s' ∧ post (before ++ v) a

/-- A parser that is run at the start, after no tokens, gives what is said of all its tokens. -/
theorem Extends.gives {p : Parser α} {post : List Token → α → Prop} (hp : Extends [] p post) :
    p.Gives post := by
  intro s a s' hs _ h
  exact hp hs (Stream.Reads.refl s) h

/-! ### Single tokens -/

/-- Reading one token in front of the end reads that token and answers with it. -/
theorem bump_gives : bump.GivesAt (·.kind ≠ .eof) fun v token => v = [token] := by
  rintro s token s' hs hkind h
  have hbump : (Except.ok (s.peek, s.advance) : Except ParseError _) = .ok (token, s') := h
  simp only [Except.ok.injEq, Prod.mk.injEq] at hbump
  obtain ⟨rfl, rfl⟩ := hbump
  exact ⟨_, Stream.reads_advance hs hkind, rfl⟩

/-- A reader of the next token if it passes a test, and of nothing otherwise. -/
theorem optional_gives {test : Stream → Bool} {holds : Token → Prop}
    (htest : ∀ s, test s = true → s.kind ≠ .eof ∧ holds s.peek) :
    (do if test (← get) then
          let _ ← bump
          return true
        else return false : Parser Bool).Gives
      fun v read => (read = true ∧ ∃ token, v = [token] ∧ holds token) ∨ (read = false ∧ v = []) := by
  rintro s read s' hs _ h
  rw [get_bind] at h
  split at h
  case isTrue hat =>
    rw [bump_bind] at h
    obtain ⟨rfl, rfl⟩ := pure_ok.1 h
    exact ⟨_, Stream.reads_advance hs (htest s hat).1, .inl ⟨rfl, _, rfl, (htest s hat).2⟩⟩
  case isFalse =>
    obtain ⟨rfl, rfl⟩ := pure_ok.1 h
    exact ⟨[], Stream.Reads.refl s, .inr ⟨rfl, rfl⟩⟩

/-- A token of a kind is read if it is there; else nothing is read, and the answer says which was
the case. -/
theorem eat_gives {kind : TokenKind} (hkind : kind ≠ .eof) : (eat kind).Gives fun v read =>
    (read = true ∧ ∃ token, v = [token] ∧ token.kind = kind) ∨ (read = false ∧ v = []) := by
  apply optional_gives
  intro s hat
  have hs := Stream.kind_of_atKind hat
  exact ⟨hs ▸ hkind, hs⟩

/-- A word is read if it is there; else nothing is read, and the answer says which was the case. -/
theorem eatWord_gives (word : String) : (eatWord word).Gives fun v read =>
    (read = true ∧ ∃ token, v = [token] ∧ token.isWord word = true) ∨
      (read = false ∧ v = []) := by
  apply optional_gives
  intro s hat
  exact ⟨Stream.ne_eof_of_atWord hat, hat⟩

/-- A reader of a token that passes a test, which fails on any other. -/
theorem expected_gives {test : Stream → Bool} {holds : Token → Prop} (expected : String)
    (htest : ∀ s, test s = true → s.kind ≠ .eof ∧ holds s.peek) :
    (do if test (← get) then bump else unexpected expected : Parser Token).Gives
      fun v token => v = [token] ∧ holds token := by
  rintro s token s' hs _ h
  rw [get_bind] at h
  split at h
  case isTrue hat =>
    obtain ⟨hkind, hpeek⟩ := htest s hat
    obtain ⟨v, hv, rfl⟩ := bump_gives hs hkind h
    exact ⟨_, hv, rfl, hv.peek ▸ hpeek⟩
  case isFalse => exact absurd h not_unexpected_ok

/-- A token that is asked for is the one that is read, and it is of the kind that was asked for. -/
theorem expect_gives {kind : TokenKind} (hkind : kind ≠ .eof) (expected : String) :
    (expect kind expected).Gives fun v token => v = [token] ∧ token.kind = kind := by
  apply expected_gives
  intro s hat
  have hs := Stream.kind_of_atKind hat
  exact ⟨hs ▸ hkind, hs⟩

/-- A word that is asked for is the one token that is read. -/
theorem expectWord_gives (word : String) :
    (expectWord word).Gives fun v token => v = [token] ∧ token.isWord word = true := by
  apply expected_gives
  intro s hat
  exact ⟨Stream.ne_eof_of_atWord hat, hat⟩

/-- An identifier that is asked for is the one token that is read. -/
theorem expectIdentifier_gives (expected : String) :
    (expectIdentifier expected).Gives
      fun v token => v = [token] ∧ token.kind.isIdentifier = true := by
  apply expected_gives
  intro s hat
  exact ⟨Stream.ne_eof_of_isIdentifier hat, hat⟩

/-- A skip reads tokens; what they are is left open. -/
theorem skipUntil_gives (stop : Stream → Bool) : (skipUntil stop).Gives fun _ _ => True := by
  rintro s a s' hs - h
  have hskip : (Except.ok (⟨⟩, s.skipUntil stop) : Except ParseError _) = .ok (a, s') := h
  simp only [Except.ok.injEq, Prod.mk.injEq] at hskip
  obtain ⟨used, hused⟩ := Stream.reads_skipUntil stop s
  exact ⟨used, hskip.2 ▸ hused, trivial⟩

/-- The label behind an `END` is read if it is there, and nothing is said about it. -/
theorem eatEndLabel_gives : eatEndLabel.Gives fun _ _ => True := by
  rintro s a s' hs _ h
  rw [eatEndLabel, get_bind] at h
  split at h
  case isTrue hat =>
    rw [Bool.and_eq_true] at hat
    rw [bump_bind] at h
    obtain ⟨-, rfl⟩ := pure_ok.1 h
    exact ⟨_, Stream.reads_advance hs (Stream.ne_eof_of_isIdentifier hat.1), trivial⟩
  case isFalse =>
    obtain ⟨-, rfl⟩ := pure_ok.1 h
    exact ⟨[], Stream.Reads.refl s, trivial⟩

/-! ### Repetition -/

section Repetition

variable {step : β → Parser (Option β)} (invariant : List Token → β → Prop)

/-- What holds before every round of an iteration, of all tokens read so far, holds at its end, for
every bound on the rounds. -/
theorem iterate_extends
    (hstep : ∀ u b, invariant u b → (step b).Extends u fun v next => invariant v (next.getD b))
    (bound : List Token) (b : β) (hb : invariant u b) :
    (iterate step bound b).Extends u invariant := by
  induction bound generalizing u b with
  | nil => exact fun _ _ _ _ _ _ h => absurd h not_throw_ok
  | cons _ bound ih =>
    intro s₀ s c s' hs hread h
    rw [iterate] at h
    obtain ⟨next, s₁, hnext, h⟩ := bind_ok.1 h
    obtain ⟨v, hread₁, hv⟩ := hstep u b hb hs hread hnext
    cases next with
    | none =>
      obtain ⟨rfl, rfl⟩ := pure_ok.1 h
      exact ⟨v, hread₁, hv⟩
    | some next =>
      obtain ⟨w, hread₂, hw⟩ := ih next hv hs hread₁ h
      rw [List.append_assoc] at hread₂ hw
      exact ⟨v ++ w, hread₂, hw⟩

/-- What each step of a loop preserves holds at its end. -/
theorem loop_extends
    (hstep : ∀ u b, invariant u b → (step b).Extends u fun v next => invariant v (next.getD b))
    {b : β} (hb : invariant u b) : (loop step b).Extends u invariant := by
  intro s₀ s c s' hs hread h
  rw [loop, get_bind] at h
  exact iterate_extends invariant hstep _ b hb hs hread h

end Repetition

/-- One round of `many`. -/
def manyStep (more : Stream → Bool) (item : Parser α) (items : List α) :
    Parser (Option (List α)) := do
  if more (← get) then return some ((← item) :: items) else return none

/-- A list that is read as long as a test holds is a loop over the items found so far, last one
first. -/
theorem many_eq_loop (more : Stream → Bool) (item : Parser α) :
    many more item = (do return (← loop (manyStep more item) []).reverse) := rfl

/-- One round of `separated`. -/
def separatedStep (item : Parser α) (items : List α) : Parser (Option (List α)) := do
  if ← eat .comma then return some ((← item) :: items) else return none

/-- A list with commas is its first item and then a loop over the items found so far, last one
first. -/
theorem separated_eq_loop (item : Parser α) :
    separated item = (do
      let first ← item
      return (← loop (separatedStep item) [first]).reverse) := rfl

section Lists

variable {item : Parser α} {one : List Token → α → Prop} {all : List Token → List α → Prop}

/-- Items are read as long as `more` holds. What is true of no items, and stays true with one item
more, is true of all that are read. -/
theorem many_gives {more : Stream → Bool} (hitem : item.GivesAt (more · = true) one)
    (hnil : all [] []) (hsnoc : ∀ u as v a, all u as → one v a → all (u ++ v) (as ++ [a])) :
    (many more item).Gives all := by
  rintro s as s' hs - h
  obtain ⟨reversed, s₁, hloop, h⟩ := bind_ok.1 h
  obtain ⟨rfl, rfl⟩ := pure_ok.1 h
  refine (loop_extends (fun u as => all u as.reverse) ?_ (by simpa using hnil)).gives
    hs trivial hloop
  intro u items hitems s₀ s next s' hs hread h
  rw [get_bind] at h
  split at h
  case isTrue hmore =>
    obtain ⟨a, s₁, v, hread₁, ha, h⟩ := hitem.bind hs hread hmore h
    obtain ⟨rfl, rfl⟩ := pure_ok.1 h
    exact ⟨v, hread₁, by simpa using hsnoc u _ v a hitems ha⟩
  case isFalse =>
    obtain ⟨rfl, rfl⟩ := pure_ok.1 h
    exact ⟨[], by simpa using hread, by simpa using hitems⟩

/-- Items with commas between them are read. What is true of one item, and stays true with a comma
and one item more, is true of all that are read. -/
theorem separated_gives (hitem : item.Gives one) (hone : ∀ v a, one v a → all v [a])
    (hsnoc : ∀ u as comma v a, comma.kind = .comma → all u as → one v a →
      all (u ++ comma :: v) (as ++ [a])) :
    (separated item).Gives all := by
  rintro s as s' hs - h
  rw [separated] at h
  obtain ⟨first, s₁, u, hread, hfirst, h⟩ := hitem.bind hs (Stream.Reads.refl s) h
  obtain ⟨reversed, s₂, hloop, h⟩ := bind_ok.1 h
  obtain ⟨rfl, rfl⟩ := pure_ok.1 h
  have hstart : all ([] ++ u) [first].reverse := by simpa using hone u first hfirst
  have hextends := loop_extends (fun u as => all u as.reverse) ?_ hstart hs hread hloop
  · obtain ⟨v, hread₂, hv⟩ := hextends
    exact ⟨_, hread₂, hv⟩
  · intro u items hitems s₀ s next s' hs hread h
    obtain ⟨read, s₁, v, hread₁, hcomma, h⟩ := (eat_gives (by simp)).bind hs hread h
    rcases hcomma with ⟨rfl, comma, rfl, hcomma⟩ | ⟨rfl, rfl⟩
    · obtain ⟨a, s₂, w, hread₂, ha, h⟩ := hitem.bind hs hread₁ h
      obtain ⟨rfl, rfl⟩ := pure_ok.1 h
      refine ⟨comma :: w, by simpa using hread₂, ?_⟩
      simpa using hsnoc u _ comma w a hcomma hitems ha
    · obtain ⟨rfl, rfl⟩ := pure_ok.1 h
      exact ⟨[], hread₁, by simpa using hitems⟩

end Lists

end Parser

end PlsqlAudit
