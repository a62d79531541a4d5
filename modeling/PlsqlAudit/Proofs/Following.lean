import PlsqlAudit.Proofs.Embedding
import PlsqlAudit.Proofs.Reading

/-!
# Parsers in a longer text

A parser that is run at the same place of two texts does the same in both:
`Embedding.Follows` says so of what it did in the inner text and in the longer
one, and there is one lemma for each way to put parsers together.

A run that stopped before the end of the inner text goes the same way in the
longer one.  A run that used up the inner text may differ, since the longer one
goes on; where it cannot, it is `closed`.  A parser of two parts is closed if both
are, or if the second is and reads a token: then the first did not use up the
text.  To keep account of this, `Follows` counts the tokens that were read.

An error is met again only where nothing follows the text.
-/

namespace PlsqlAudit

/-- What can be moved into a longer text. -/
class Movable (α : Type) where
  move : Embedding → α → α

namespace Embedding

variable {α β : Type}

/-- What an answer of a parser becomes in the longer text. -/
def move [Movable α] (E : Embedding) (a : α) : α := Movable.move E a

instance : Movable Token := ⟨token⟩

instance : Movable Span := ⟨fun E => Span.shift E.shift⟩

instance : Movable Node := ⟨fun E => Node.shift E.shift⟩

instance : Movable Bool := ⟨fun _ => id⟩

instance : Movable Unit := ⟨fun _ => id⟩

instance : Movable ParameterMode := ⟨fun _ => id⟩

instance : Movable Kind := ⟨fun _ => id⟩

instance [Movable α] : Movable (List α) := ⟨fun E => List.map E.move⟩

instance [Movable α] : Movable (Option α) := ⟨fun E => Option.map E.move⟩

instance [Movable α] [Movable β] : Movable (α × β) := ⟨fun E => Prod.map E.move E.move⟩

variable {E : Embedding}

@[simp] theorem span_move_token (t : Token) : (E.move t).span = E.move t.span := rfl

@[simp] theorem span_move (n : Node) : (E.move n).span = E.move n.span := Node.span_shift _ n

@[simp] theorem kind_move (n : Node) : (E.move n).kind = n.kind := Node.kind_shift _ n

@[simp] theorem children_move (n : Node) : (E.move n).children = E.move n.children :=
  Node.children_shift _ n

/-- A node is moved by moving its span and all that stands below it; its kind stays. -/
@[simp] theorem move_mk (kind : Kind) (span : Span) (children : List Node) :
    E.move (Node.mk kind span children) = .mk kind (E.move span) (E.move children) :=
  Node.shift_mk _ kind span children

@[simp] theorem move_leaf (kind : Kind) (span : Span) :
    E.move (Node.leaf kind span) = .leaf kind (E.move span) := rfl

/-- The stretch over two spans moves with them, since both move by the same distance. -/
@[simp] theorem move_cover (s t : Span) : E.move (s.cover t) = (E.move s).cover (E.move t) :=
  Span.cover_shift.symm

@[simp] theorem move_collapse (s : Span) : E.move s.collapse = (E.move s).collapse := rfl

@[simp] theorem move_bool (b : Bool) : E.move b = b := rfl

@[simp] theorem move_unit (u : Unit) : E.move u = u := rfl

@[simp] theorem move_mode (mode : ParameterMode) : E.move mode = mode := rfl

@[simp] theorem move_kind (kind : Kind) : E.move kind = kind := rfl

section Containers

variable [Movable α] [Movable β]

@[simp] theorem move_nil : E.move ([] : List α) = [] := rfl

@[simp] theorem move_cons (a : α) (as : List α) : E.move (a :: as) = E.move a :: E.move as := rfl

/-- Lists that stand one behind the other are moved one by one. -/
@[simp] theorem move_append (as bs : List α) : E.move (as ++ bs) = E.move as ++ E.move bs :=
  List.map_append

@[simp] theorem move_reverse (as : List α) : E.move as.reverse = (E.move as).reverse :=
  List.map_reverse

/-- A list of lists is moved item by item, so it may be flattened before or after. -/
@[simp] theorem move_flatten (lists : List (List α)) :
    E.move lists.flatten = (E.move lists).flatten := List.map_flatten

@[simp] theorem isEmpty_move (as : List α) : (E.move as).isEmpty = as.isEmpty := List.isEmpty_map

@[simp] theorem move_none : E.move (none : Option α) = none := rfl

@[simp] theorem move_some (a : α) : E.move (some a) = some (E.move a) := rfl

@[simp] theorem move_toList (a : Option α) : E.move a.toList = (E.move a).toList := by
  cases a <;> rfl

/-- Dropping what is missing does not depend on where the rest is moved. -/
theorem move_filterMap_id (as : List (Option α)) :
    E.move (as.filterMap id) = (E.move as).filterMap id := by
  induction as with
  | nil => rfl
  | cons a as ih =>
    cases a with
    | none => exact ih
    | some a => exact congrArg (E.move a :: ·) ih

@[simp] theorem move_pair (a : α) (b : β) : E.move (a, b) = (E.move a, E.move b) := rfl

end Containers

variable (E)

/-- An error that is met again in the longer text. -/
inductive SameError : ParseError → ParseError → Prop
  | unexpected {t : Token} (known : E.Known t) (expected : String) :
    SameError (.unexpected t.span.line t.span.column t.text expected)
      (.unexpected (E.token t).span.line (E.token t).span.column (E.token t).text expected)
  | unexpectedEnd (expected : String) : SameError (.unexpectedEnd expected) (.unexpectedEnd expected)

/-- What became of a parser at `s` and at the same place of the longer text.  At
least `n` tokens were read by a run that ended well. -/
structure Follows [Movable α] (closed : Bool) (n : Nat) (s : Stream)
    (x x' : Except ParseError (α × Stream)) : Prop where
  ok : ∀ a s₁, x = .ok (a, s₁) → E.Inner s₁ ∧ s₁.rest.length + n ≤ s.rest.length ∧
    (closed = true ∨ E.Open s₁ → x' = .ok (E.move a, E.lift s₁))
  error : ∀ e, x = .error e → E.tail = [] → ∃ e', x' = .error e' ∧ E.SameError e e'

/-- What is asked of the end of a whole holds where a part of it ends: nothing is
asked, or the part is closed, or tokens of the whole are still to be read. -/
class Carries (c c₁ : Bool) (n : Nat) : Prop where
  known : c = true → c₁ = true ∨ 0 < n

instance Carries.ofAny (c₁ : Bool) (n : Nat) : Carries false c₁ n := ⟨fun h => nomatch h⟩

instance Carries.ofSame (c : Bool) (n : Nat) : Carries c c n := ⟨.inl⟩

instance Carries.ofClosed (c : Bool) (n : Nat) : Carries c true n := ⟨fun _ => .inl rfl⟩

instance Carries.ofMore (c c₁ : Bool) (n : Nat) : Carries c c₁ (n + 1) :=
  ⟨fun _ => .inr n.succ_pos⟩

variable {E} {c c₁ : Bool} {n k : Nat} {s : Stream}

namespace Follows

section

variable [Movable α] [Movable β] {x x' x'' : Except ParseError (α × Stream)}

/-- Less may be said of a run: that it read fewer tokens, or that it need not be closed. -/
theorem mono (h : E.Follows c₁ k s x x') (hk : n ≤ k) (hc : c = true → c₁ = true) :
    E.Follows c n s x x' where
  ok := by
    intro a s₁ ha
    obtain ⟨hs₁, hlen, heq⟩ := h.ok a s₁ ha
    exact ⟨hs₁, by omega, fun hend => heq (hend.imp_left hc)⟩
  error := h.error

/-- What a run did after tokens were read is also what it did from further back, with these tokens
counted too. -/
theorem after {s₁ : Stream} (h : E.Follows c n s₁ x x') (hle : s₁.rest.length + k ≤ s.rest.length) :
    E.Follows c (n + k) s x x' where
  ok := by
    intro a s₂ ha
    obtain ⟨hs₂, hlen, heq⟩ := h.ok a s₂ ha
    exact ⟨hs₂, by omega, heq⟩
  error := h.error

/-- How many tokens a run read may be forgotten. -/
theorem uncounted (h : E.Follows c k s x x') : E.Follows c 0 s x x' := h.mono (Nat.zero_le k) id

/-- That a run is closed may be forgotten, and with it the count of its tokens. -/
theorem unclosed (h : E.Follows c k s x x') : E.Follows false 0 s x x' :=
  h.mono (Nat.zero_le k) nofun

/-- Where the text has ended, nothing is said about the longer one. -/
theorem of_not_open [Carries c false n] (hopen : ¬ E.Open s) (h : E.Follows c n s x x'') :
    E.Follows c n s x x' where
  ok := by
    intro a s₁ ha
    obtain ⟨hs₁, hlen, -⟩ := h.ok a s₁ ha
    refine ⟨hs₁, hlen, fun hend => ?_⟩
    cases hend with
    | inl hc =>
      have hcarried : false = true ∨ 0 < n := Carries.known hc
      have hpos := hcarried.resolve_left Bool.false_ne_true
      have hrest : s.rest.length = 0 := by simp [(not_open hopen).2]
      omega
    | inr hopen₁ => exact absurd (hopen₁.of_le (by omega)) hopen
  error := fun _ _ htail => absurd htail (not_open hopen).1

/-- An error in a text that others follow need not be met again, since the text around it may go on
where the inner one ends. -/
theorem of_error {e : ParseError} (htail : E.tail ≠ []) (hx : x = .error e) :
    E.Follows c n s x x' where
  ok := by
    intro a s₁ ha
    simp [hx] at ha
  error := fun _ _ h => absurd h htail

/-- An answer without reading follows if it is the moved one wherever the end of the inner text is
not in the way. -/
theorem answer {a a' : α} (hs : E.Inner s) (h : c = true ∨ E.Open s → a' = E.move a) :
    E.Follows c 0 s ((pure a : Parser α) s) ((pure a' : Parser α) (E.lift s)) where
  ok := by
    intro b s₁ hb
    obtain ⟨rfl, rfl⟩ := Parser.pure_ok.1 hb
    exact ⟨hs, Nat.le_refl _, fun hend => by rw [h hend]; rfl⟩
  error := fun _ h => nomatch h

/-- The same answer, moved, follows without reading, and it is closed. -/
theorem pure {a a' : α} (hs : E.Inner s) (h : a' = E.move a) :
    E.Follows c 0 s ((Pure.pure a : Parser α) s) ((Pure.pure a' : Parser α) (E.lift s)) :=
  answer hs fun _ => h

/-- Two parts, where the run of the first is known to the second. -/
theorem bindRun [Carries c c₁ (n - k)] {p p' : Parser α} {f f' : α → Parser β}
    (hp : E.Follows c₁ k s (p s) (p' (E.lift s)))
    (hf : ∀ a s₁, E.Inner s₁ → s₁.rest.length + k ≤ s.rest.length → p s = .ok (a, s₁) →
      E.Follows c (n - k) s₁ (f a s₁) (f' (E.move a) (E.lift s₁))) :
    E.Follows c n s ((p >>= f) s) ((p' >>= f') (E.lift s)) where
  ok := by
    intro b s₂ hb
    obtain ⟨a, s₁, ha, hb⟩ := Parser.bind_ok.1 hb
    obtain ⟨hs₁, hlen₁, heq₁⟩ := hp.ok a s₁ ha
    obtain ⟨hs₂, hlen₂, heq₂⟩ := (hf a s₁ hs₁ hlen₁ ha).ok b s₂ hb
    refine ⟨hs₂, by omega, fun hend => ?_⟩
    have hfirst : c₁ = true ∨ E.Open s₁ := by
      cases hend with
      | inr hopen => exact .inr (hopen.of_le (by omega))
      | inl hclosed =>
        have hcarried : c₁ = true ∨ 0 < n - k := Carries.known hclosed
        exact hcarried.imp_right fun hpos => open_of_length (n := 0) (by omega)
    exact Parser.bind_ok.2 ⟨E.move a, E.lift s₁, heq₁ hfirst, heq₂ hend⟩
  error := by
    intro e he htail
    cases ha : p s with
    | error e₁ =>
      obtain ⟨e', he', hsame⟩ := hp.error e₁ ha htail
      rw [Parser.bind_of_error ha] at he
      obtain rfl : e₁ = e := Except.error.inj he
      exact ⟨e', Parser.bind_of_error he', hsame⟩
    | ok r =>
      obtain ⟨a, s₁⟩ := r
      obtain ⟨hs₁, hlen₁, heq₁⟩ := hp.ok a s₁ ha
      rw [Parser.bind_of_ok ha] at he
      rw [Parser.bind_of_ok (heq₁ (.inr (.inl htail)))]
      exact (hf a s₁ hs₁ hlen₁ ha).error e he htail

/-- Two parts that follow, each in its place, follow as a whole; tokens read by the second one
close the first. -/
theorem bind [Carries c c₁ (n - k)] {p p' : Parser α} {f f' : α → Parser β}
    (hp : E.Follows c₁ k s (p s) (p' (E.lift s)))
    (hf : ∀ a s₁, E.Inner s₁ → s₁.rest.length + k ≤ s.rest.length →
      E.Follows c (n - k) s₁ (f a s₁) (f' (E.move a) (E.lift s₁))) :
    E.Follows c n s ((p >>= f) s) ((p' >>= f') (E.lift s)) :=
  hp.bindRun fun a s₁ hs₁ hlen _ => hf a s₁ hs₁ hlen

/-- A choice that is made the same way in both texts. -/
theorem branch {b b' : Bool} {p p' q q' : Parser α} (hb : b' = b)
    (hp : b = true → E.Follows c n s (p s) (p' (E.lift s)))
    (hq : b = false → E.Follows c n s (q s) (q' (E.lift s))) :
    E.Follows c n s ((if b = true then p else q) s) ((if b' = true then p' else q') (E.lift s)) := by
  subst hb
  cases b' with
  | true => exact hp rfl
  | false => exact hq rfl

/-- A choice that is made the same way until the text ends. -/
theorem branch_of_open [Carries c false n] {b b' : Bool} {p p' q q' : Parser α} (hb : E.Open s → b' = b)
    (hp : b = true → E.Follows c n s (p s) (p' (E.lift s)))
    (hq : b = false → E.Follows c n s (q s) (q' (E.lift s))) :
    E.Follows c n s ((if b = true then p else q) s) ((if b' = true then p' else q') (E.lift s)) := by
  by_cases hopen : E.Open s
  · exact branch (hb hopen) hp hq
  · cases b with
    | true => exact of_not_open hopen (hp rfl)
    | false => exact of_not_open hopen (hq rfl)

/-- One of two parts, chosen alike in both texts, and then what follows either of them. -/
theorem either [Carries c false n] {b b' : Bool} {p p' q q' : Parser α} {f f' : α → Parser β} (hb : b' = b)
    (hp : b = true → E.Follows c₁ k s (p s) (p' (E.lift s)))
    (hq : b = false → E.Follows false 0 s (q s) (q' (E.lift s)))
    (hf : ∀ a s₁, E.Inner s₁ → s₁.rest.length ≤ s.rest.length →
      E.Follows c n s₁ (f a s₁) (f' (E.move a) (E.lift s₁))) :
    E.Follows c n s ((if b = true then p >>= f else q >>= f) s)
      ((if b' = true then p' >>= f' else q' >>= f') (E.lift s)) := by
  refine branch hb (fun hb => ?_) fun hb => ?_
  · exact (hp hb).unclosed.bind hf
  · exact (hq hb).bind hf

/-- A part that is read where a condition holds and listed, and what follows. -/
theorem listIf [Carries c false n] {b b' : Bool} {p p' : Parser α} {f f' : List α → Parser β} (hs : E.Inner s)
    (hb : b' = b) (hp : b = true → E.Follows c₁ k s (p s) (p' (E.lift s)))
    (hf : ∀ as s₁, E.Inner s₁ → s₁.rest.length ≤ s.rest.length →
      E.Follows c n s₁ (f as s₁) (f' (E.move as) (E.lift s₁))) :
    E.Follows c n s
      ((if b = true then p >>= fun a => Pure.pure [a] >>= f else Pure.pure [] >>= f) s)
      ((if b' = true then p' >>= fun a => Pure.pure [a] >>= f' else Pure.pure [] >>= f')
        (E.lift s)) := by
  refine branch hb (fun hb => ?_) fun _ => hf [] s hs (Nat.le_refl _)
  exact (hp hb).unclosed.bind fun a => hf [a]

/-- A part that is read and listed unless a condition holds, and what follows. -/
theorem listUnless [Carries c false n] {b b' : Bool} {p p' : Parser α} {f f' : List α → Parser β} (hs : E.Inner s)
    (hb : b' = b) (hp : b = false → E.Follows c₁ k s (p s) (p' (E.lift s)))
    (hf : ∀ as s₁, E.Inner s₁ → s₁.rest.length ≤ s.rest.length →
      E.Follows c n s₁ (f as s₁) (f' (E.move as) (E.lift s₁))) :
    E.Follows c n s
      ((if b = true then Pure.pure [] >>= f else p >>= fun a => Pure.pure [a] >>= f) s)
      ((if b' = true then Pure.pure [] >>= f' else p' >>= fun a => Pure.pure [a] >>= f')
        (E.lift s)) := by
  refine branch hb (fun _ => hf [] s hs (Nat.le_refl _)) fun hb => ?_
  exact (hp hb).unclosed.bind fun a => hf [a]

/-- A part that is read where a condition holds and whose answer is dropped, and
what follows. -/
theorem when [Carries c c₁ n] {b b' : Bool} {p p' : Parser α} {rest rest' : Parser β} (hs : E.Inner s)
    (hb : b' = b) (hp : b = true → E.Follows c₁ k s (p s) (p' (E.lift s)))
    (hrest : ∀ s₁, E.Inner s₁ → s₁.rest.length ≤ s.rest.length →
      E.Follows c n s₁ (rest s₁) (rest' (E.lift s₁))) :
    E.Follows c n s ((if b = true then p >>= fun _ => rest else rest) s)
      ((if b' = true then p' >>= fun _ => rest' else rest') (E.lift s)) := by
  refine branch hb (fun hb => ?_) fun _ => hrest s hs (Nat.le_refl _)
  exact (hp hb).uncounted.bind fun _ => hrest

end

end Follows

/-! ### Single tokens -/

section Tokens

/-- Reading a token in front of the end reads the moved token of the longer text. -/
theorem bump_follows (hs : E.Inner s) (hkind : s.kind ≠ .eof) :
    E.Follows true 1 s (Parser.bump s) (Parser.bump (E.lift s)) where
  ok := by
    intro t s₁ h
    obtain ⟨rfl, rfl⟩ : s.peek = t ∧ s.advance = s₁ := by
      simpa using (Except.ok.inj h : (s.peek, s.advance) = (t, s₁))
    refine ⟨hs.advance, (hs.length_advance hkind).le, fun _ => ?_⟩
    have hopen := hs.open_of_kind hkind
    show Except.ok ((E.lift s).peek, (E.lift s).advance) = _
    rw [peek_lift hs hopen, advance_lift hopen]
    rfl
  error := fun _ h => nomatch h

/-- At the end of a text, a token is asked for and none is read. -/
theorem bump_follows_of_any (hs : E.Inner s) :
    E.Follows false 0 s (Parser.bump s) (Parser.bump (E.lift s)) where
  ok := by
    intro t s₁ h
    obtain ⟨rfl, rfl⟩ : s.peek = t ∧ s.advance = s₁ := by
      simpa using (Except.ok.inj h : (s.peek, s.advance) = (t, s₁))
    refine ⟨hs.advance, s.length_advance_le, fun hend => ?_⟩
    have hopen : E.Open s := (hend.resolve_left (by simp)).of_le s.length_advance_le
    show Except.ok ((E.lift s).peek, (E.lift s).advance) = _
    rw [peek_lift hs hopen, advance_lift hopen]
    rfl
  error := fun _ h => nomatch h

/-- An error about an unexpected token is met again where nothing follows the inner text. -/
theorem unexpected_follows [Movable α] (hs : E.Inner s) (expected : String) :
    E.Follows c n s ((Parser.unexpected expected : Parser α) s)
      (Parser.unexpected expected (E.lift s)) where
  ok := fun _ _ h => absurd h Parser.not_unexpected_ok
  error := by
    intro e he htail
    have hopen : E.Open s := .inl htail
    obtain rfl : s.unexpected expected = e := Except.error.inj he
    refine ⟨(E.lift s).unexpected expected, rfl, ?_⟩
    rw [Stream.unexpected, Stream.unexpected, atEnd_lift hopen, peek_lift hs hopen]
    by_cases hend : s.atEnd = true
    · rw [if_pos hend, if_pos hend]
      exact .unexpectedEnd expected
    · rw [if_neg hend, if_neg hend]
      refine .unexpected (hs.known _ ?_) expected
      cases hrest : s.rest with
      | nil => simp [Stream.atEnd, hrest] at hend
      | cons t rest => simp [Stream.peek, hrest]

/-- A reader of the next token if it passes a test, and of nothing otherwise. -/
theorem optional_follows {test : Stream → Bool} (hs : E.Inner s)
    (hlift : test (E.lift s) = test s) (hkind : test s = true → s.kind ≠ .eof) :
    E.Follows true 0 s
      ((do if test (← get) then
             let _ ← Parser.bump
             return true
           else return false : Parser Bool) s)
      ((do if test (← get) then
             let _ ← Parser.bump
             return true
           else return false : Parser Bool) (E.lift s)) := by
  refine Follows.branch hlift (fun htest => ?_) fun _ => Follows.pure hs (by simp)
  exact Follows.bind (bump_follows hs (hkind htest))
    fun _ _ hs₁ _ => Follows.pure hs₁ (by simp)

/-- A token of a kind that can stand inside a text is read in both texts or in neither. -/
theorem eat_follows (hs : E.Inner s) (kind : TokenKind) (hkind : kind.standsWithin = true) :
    E.Follows true 0 s (Parser.eat kind s) (Parser.eat kind (E.lift s)) := by
  refine optional_follows hs (atKind_lift hs kind hkind) fun hat => ?_
  rw [Stream.kind_of_atKind hat]
  exact TokenKind.ne_eof_of_standsWithin hkind

/-- A word is read in both texts or in neither, and both answers say which. -/
theorem eatWord_follows (hs : E.Inner s) (word : String) :
    E.Follows true 0 s (Parser.eatWord word s) (Parser.eatWord word (E.lift s)) :=
  optional_follows hs (atWord_lift hs word) Stream.ne_eof_of_atWord

/-- A token that passes a test is read, or what follows goes without it. -/
theorem Follows.optional [Movable α] {test : Stream → Bool} {f f' : Bool → Parser α}
    (hs : E.Inner s) (hlift : test (E.lift s) = test s) (hkind : test s = true → s.kind ≠ .eof)
    (hyes : test s = true →
      E.Follows c n s.advance (f true s.advance) (f' true (E.lift s.advance)))
    (hno : test s = false → E.Follows c (n + 1) s (f false s) (f' false (E.lift s))) :
    E.Follows c (n + 1) s
      (((do if test (← get) then
              let _ ← Parser.bump
              return true
            else return false : Parser Bool) >>= f) s)
      (((do if test (← get) then
              let _ ← Parser.bump
              return true
            else return false : Parser Bool) >>= f') (E.lift s)) := by
  have hrun (u : Stream) (g : Bool → Parser α) :
      ((do if test (← get) then
              let _ ← Parser.bump
              return true
            else return false : Parser Bool) >>= g) u =
        if test u = true then g true u.advance else g false u := by
    by_cases htest : test u = true
    · rw [if_pos htest]
      show ((if test u = true then _ else _ : Parser Bool) >>= g) u = _
      rw [if_pos htest]
      rfl
    · rw [if_neg htest]
      show ((if test u = true then _ else _ : Parser Bool) >>= g) u = _
      rw [if_neg htest]
      rfl
  rw [hrun, hrun, hlift]
  cases htest : test s with
  | true =>
    have hne := hkind htest
    rw [if_pos rfl, if_pos rfl, advance_lift (hs.open_of_kind hne)]
    exact (hyes htest).after (hs.length_advance hne).le
  | false => exact hno htest

/-- Reading a token if it is there, with what follows in either case; only where it was read does
it count. -/
theorem Follows.eat [Movable α] {f f' : Bool → Parser α} (hs : E.Inner s) (kind : TokenKind)
    (hkind : kind.standsWithin = true)
    (hyes : s.atKind kind = true →
      E.Follows c n s.advance (f true s.advance) (f' true (E.lift s.advance)))
    (hno : s.atKind kind = false → E.Follows c (n + 1) s (f false s) (f' false (E.lift s))) :
    E.Follows c (n + 1) s ((Parser.eat kind >>= f) s) ((Parser.eat kind >>= f') (E.lift s)) := by
  refine Follows.optional hs (atKind_lift hs kind hkind) (fun hat => ?_) hyes hno
  rw [Stream.kind_of_atKind hat]
  exact TokenKind.ne_eof_of_standsWithin hkind

/-- Reading a word if it is there, with what follows in either case; only where it was read does it
count. -/
theorem Follows.eatWord [Movable α] {f f' : Bool → Parser α} (hs : E.Inner s) (word : String)
    (hyes : s.atWord word = true →
      E.Follows c n s.advance (f true s.advance) (f' true (E.lift s.advance)))
    (hno : s.atWord word = false → E.Follows c (n + 1) s (f false s) (f' false (E.lift s))) :
    E.Follows c (n + 1) s ((Parser.eatWord word >>= f) s) ((Parser.eatWord word >>= f') (E.lift s)) :=
  Follows.optional hs (atWord_lift hs word) Stream.ne_eof_of_atWord hyes hno

/-- A word that was found was read, so one token less is left. -/
theorem length_of_eatWord {word : String} {s₁ : Stream} (hs : E.Inner s)
    (h : Parser.eatWord word s = .ok (true, s₁)) : s₁.rest.length + 1 = s.rest.length := by
  obtain ⟨used, hread, hfound⟩ := Parser.eatWord_gives word hs.sound trivial h
  cases hfound with
  | inl hfound =>
    obtain ⟨-, t, rfl, -⟩ := hfound
    simp [hread.rest]
  | inr hmissing => simp at hmissing

/-- A token that was found was read, so one token less is left. -/
theorem length_of_eat {kind : TokenKind} {s₁ : Stream} (hs : E.Inner s) (hkind : kind ≠ .eof)
    (h : Parser.eat kind s = .ok (true, s₁)) : s₁.rest.length + 1 = s.rest.length := by
  obtain ⟨used, hread, hfound⟩ := Parser.eat_gives hkind hs.sound trivial h
  cases hfound with
  | inl hfound =>
    obtain ⟨-, t, rfl, -⟩ := hfound
    simp [hread.rest]
  | inr hmissing => simp at hmissing

/-- A reader of a token that passes a test, which fails on any other. -/
theorem expected_follows {test : Stream → Bool} (hs : E.Inner s) (expected : String)
    (hlift : test (E.lift s) = test s) (hkind : test s = true → s.kind ≠ .eof) :
    E.Follows true 1 s
      ((do if test (← get) then Parser.bump else Parser.unexpected expected : Parser Token) s)
      ((do if test (← get) then Parser.bump else Parser.unexpected expected : Parser Token)
        (E.lift s)) :=
  Follows.branch hlift (fun htest => bump_follows hs (hkind htest))
    fun _ => unexpected_follows hs expected

/-- A token that is asked for is read in both texts, or its absence is reported in both. -/
theorem expect_follows (hs : E.Inner s) (kind : TokenKind) (expected : String)
    (hkind : kind.standsWithin = true) :
    E.Follows true 1 s (Parser.expect kind expected s) (Parser.expect kind expected (E.lift s)) := by
  refine expected_follows hs expected (atKind_lift hs kind hkind) fun hat => ?_
  rw [Stream.kind_of_atKind hat]
  exact TokenKind.ne_eof_of_standsWithin hkind

/-- A word that is asked for is read in both texts, or its absence is reported in both. -/
theorem expectWord_follows (hs : E.Inner s) (word : String) :
    E.Follows true 1 s (Parser.expectWord word s) (Parser.expectWord word (E.lift s)) :=
  expected_follows hs _ (atWord_lift hs word) Stream.ne_eof_of_atWord

/-- An identifier that is asked for is read in both texts, or its absence is reported in both. -/
theorem expectIdentifier_follows (hs : E.Inner s) (expected : String) :
    E.Follows true 1 s (Parser.expectIdentifier expected s)
      (Parser.expectIdentifier expected (E.lift s)) :=
  expected_follows hs expected (atIdentifier_lift hs) Stream.ne_eof_of_isIdentifier

/-- The last token that was read inside the inner text is remembered in the longer one, moved. -/
theorem lastSpan_move (hs : E.Inner s) : (E.lift s).lastSpan = E.move s.lastSpan := lastSpan_lift hs

/-- The token in front has the moved span in the longer text, unless the inner text has ended
there. -/
theorem peekSpan_move (hs : E.Inner s) (hopen : E.Open s) :
    (E.lift s).peek.span = E.move s.peek.span := by
  rw [peek_lift hs hopen]
  rfl

/-- Asking for the span of the last token answers in both texts alike, moved, and reads nothing. -/
theorem lastSpan_follows (hs : E.Inner s) :
    E.Follows true 0 s (Parser.lastSpan s) (Parser.lastSpan (E.lift s)) :=
  Follows.pure hs (lastSpan_move hs)

/-- Asking for the span of the next token answers alike unless the inner text has ended, so it is
not closed. -/
theorem peekSpan_follows (hs : E.Inner s) :
    E.Follows false 0 s (Parser.ask (·.peek.span) s) (Parser.ask (·.peek.span) (E.lift s)) :=
  Follows.answer hs fun hend => peekSpan_move hs (hend.resolve_left (by simp))

/-- A change of the place that is made the same way in both texts. -/
theorem modify_follows (c : Bool) {g g' : Stream → Stream} (hs : E.Inner s) (hread : ∃ used, s.Reads used (g s))
    (hlift : c = true ∨ E.Open (g s) → g' (E.lift s) = E.lift (g s)) :
    E.Follows c 0 s ((modify g : Parser Unit) s) ((modify g' : Parser Unit) (E.lift s)) where
  ok := by
    intro u s₁ h
    obtain rfl : g s = s₁ := congrArg Prod.snd (Except.ok.inj h)
    obtain ⟨used, hread⟩ := hread
    refine ⟨hs.of_reads hread, by simp [hread.rest], fun hend => ?_⟩
    show Except.ok (PUnit.unit, g' (E.lift s)) = _
    rw [hlift hend]
  error := fun _ h => nomatch h

/-- A change of the place that reads a token is followed if it moves alike in both texts. -/
theorem modify_follows_of_ne_nil (c : Bool) {g g' : Stream → Stream} (hs : E.Inner s)
    (hread : ∃ used, used ≠ [] ∧ s.Reads used (g s))
    (hlift : c = true ∨ E.Open (g s) → g' (E.lift s) = E.lift (g s)) :
    E.Follows c 1 s ((modify g : Parser Unit) s) ((modify g' : Parser Unit) (E.lift s)) := by
  obtain ⟨used, hused, hread⟩ := hread
  have h := modify_follows c hs ⟨used, hread⟩ hlift
  refine ⟨fun u s₁ hu => ?_, h.error⟩
  obtain ⟨hs₁, -, heq⟩ := h.ok u s₁ hu
  obtain rfl : g s = s₁ := congrArg Prod.snd (Except.ok.inj hu)
  have hlen := List.length_pos_of_ne_nil hused
  exact ⟨hs₁, by simp [hread.rest]; omega, heq⟩

/-- A skip to a stop that looks at the same tokens in both texts stops at the same place in
both. -/
theorem skipUntil_follows {stop : Stream → Bool} (hs : E.Inner s)
    (hstop : ∀ s, E.Inner s → E.Open s → stop (E.lift s) = stop s) :
    E.Follows false 0 s (Parser.skipUntil stop s) (Parser.skipUntil stop (E.lift s)) :=
  modify_follows false hs (Stream.reads_skipUntil stop s)
    fun hend => skipUntil_lift hstop hs (hend.resolve_left (by simp))

/-- Words that may or may not be there are read on to the last of them. -/
theorem advanceWords_follows (hs : E.Inner s) (words : List String) :
    E.Follows true 0 s
      ((modify (·.advanceUntil fun s => !s.atAnyWord words) : Parser Unit) s)
      ((modify (·.advanceUntil fun s => !s.atAnyWord words) : Parser Unit) (E.lift s)) := by
  refine modify_follows true hs (Stream.reads_advanceUntil _ s) fun _ => ?_
  refine advanceUntil_lift (fun u hu _ => by rw [atAnyWord_lift hu]) (fun u hu hopen => ?_) hs
  have hkind : u.peek.kind = .eof := kind_of_not_open hu hopen
  rw [atAnyWord_lift hu, Stream.atAnyWord, Token.isAnyWord, hkind]
  rfl

/-- The label behind an `END` is read in both texts or in neither. -/
theorem eatEndLabel_follows (hs : E.Inner s) :
    E.Follows true 0 s (Parser.eatEndLabel s) (Parser.eatEndLabel (E.lift s)) := by
  refine Follows.branch (atNamed_lift hs .semicolon) (fun hat => ?_) fun _ => Follows.pure hs (by simp)
  have hkind := Stream.ne_eof_of_isIdentifier (Bool.and_eq_true_iff.1 hat).1
  exact Follows.bind (bump_follows hs hkind)
    fun _ _ hs₁ _ => Follows.pure hs₁ (by simp)

end Tokens

/-! ### Repetition -/

section Repetition

variable [Movable α] [Movable β] {step step' : β → Parser (Option β)} {limit : Nat}

/-- Wherever at most `limit` tokens are left, a round of a loop that goes on uses up
a token. -/
def Goes (E : Embedding) (limit : Nat) (step : β → Parser (Option β)) : Prop :=
  ∀ b s next s₁, E.Inner s → s.rest.length ≤ limit → step b s = .ok (some next, s₁) →
    s₁.rest.length < s.rest.length

/-- Rounds that follow, each in its place, follow as a whole, since the tokens that are left become
fewer with each round and the bound on the rounds is met in neither text. -/
theorem iterate_follows
    (hstep : ∀ b s, E.Inner s → s.rest.length ≤ limit →
      E.Follows c 0 s (step b s) (step' (E.move b) (E.lift s)))
    (hgoes : E.Goes limit step) (bound bound' : List Token) (hle : bound.length ≤ bound'.length)
    (b : β) (hs : E.Inner s) (hlen : s.rest.length ≤ limit) (hbound : s.rest.length < bound.length) :
    E.Follows c 0 s (Parser.iterate step bound b s)
      (Parser.iterate step' bound' (E.move b) (E.lift s)) := by
  induction bound generalizing bound' b s with
  | nil => exact absurd hbound (Nat.not_lt_zero _)
  | cons t bound ih =>
    obtain ⟨t', bound', rfl⟩ : ∃ t' more, bound' = t' :: more := by
      cases bound' with
      | nil => simp at hle
      | cons t' more => exact ⟨t', more, rfl⟩
    rw [Parser.iterate, Parser.iterate]
    refine Follows.bindRun (hstep b s hs hlen) fun next s₁ hs₁ hlen₁ hrun => ?_
    cases next with
    | none => exact Follows.pure hs₁ rfl
    | some next =>
      have hless := hgoes b s next s₁ hs hlen hrun
      rw [List.length_cons] at hbound
      exact ih bound' (by simpa using hle) next hs₁ (by omega) (by omega)

/-- A loop whose rounds follow, and go on only by reading, follows as a whole. -/
theorem loop_follows (c : Bool)
    (hstep : ∀ b s, E.Inner s → s.rest.length ≤ limit →
      E.Follows c 0 s (step b s) (step' (E.move b) (E.lift s)))
    (hgoes : E.Goes limit step) (b : β) (hs : E.Inner s) (hlen : s.rest.length ≤ limit) :
    E.Follows c 0 s (Parser.loop step b s) (Parser.loop step' (E.move b) (E.lift s)) := by
  refine iterate_follows hstep hgoes _ _ ?_ b hs hlen (Nat.lt_succ_self _)
  simp [lift]

/-- A round of a list goes on only if it has read an item, which has tokens. -/
theorem manyStep_goes {more : Stream → Bool} {item item' : Parser α}
    (hitem : ∀ s, E.Inner s → s.rest.length ≤ limit → more s = true →
      E.Follows c (k + 1) s (item s) (item' (E.lift s))) :
    E.Goes limit (Parser.manyStep more item) := by
  intro items s next s₁ hs hlen h
  rw [Parser.manyStep, Parser.get_bind] at h
  split at h
  case isTrue hmore =>
    obtain ⟨a, s₂, ha, h⟩ := Parser.bind_ok.1 h
    obtain ⟨-, rfl⟩ := Parser.pure_ok.1 h
    have hless := ((hitem s hs hlen hmore).ok a s₂ ha).2.1
    omega
  case isFalse => cases (Parser.pure_ok.1 h).1

/-- A round of a list with commas goes on only if it has read a comma. -/
theorem separatedStep_goes {item item' : Parser α}
    (hitem : ∀ s, E.Inner s → s.rest.length ≤ limit →
      E.Follows c k s (item s) (item' (E.lift s))) :
    E.Goes limit (Parser.separatedStep item) := by
  intro items s next s₁ hs hlen h
  obtain ⟨read, s₂, hread, h⟩ := Parser.bind_ok.1 h
  cases read with
  | false => cases (Parser.pure_ok.1 h).1
  | true =>
    obtain ⟨a, s₃, ha, h⟩ := Parser.bind_ok.1 h
    obtain ⟨-, rfl⟩ := Parser.pure_ok.1 h
    have hs₂ := ((eat_follows hs .comma rfl).ok true s₂ hread).1
    have hcomma := length_of_eat hs (by simp) hread
    have hless := ((hitem s₂ hs₂ (by omega)).ok a s₃ ha).2.1
    omega

/-- A list of items that follow, read as long as a test holds, follows; it may use up the inner
text. -/
theorem many_follows {more : Stream → Bool} {item item' : Parser α}
    (hmore : ∀ s, E.Inner s → E.Open s → more (E.lift s) = more s)
    (hitem : ∀ s, E.Inner s → s.rest.length ≤ limit → more s = true →
      E.Follows c₁ (k + 1) s (item s) (item' (E.lift s)))
    (hs : E.Inner s) (hlen : s.rest.length ≤ limit) :
    E.Follows false 0 s (Parser.many more item s) (Parser.many more item' (E.lift s)) := by
  rw [Parser.many_eq_loop, Parser.many_eq_loop]
  refine Follows.bind (loop_follows false (fun items s hs hlen => ?_) (manyStep_goes hitem) [] hs
    hlen) fun items s₁ hs₁ _ => Follows.pure hs₁ (by simp)
  refine Follows.branch_of_open (hmore s hs) (fun hs' => ?_) fun _ => Follows.pure hs (by simp)
  exact (hitem s hs hlen hs').uncounted.bind fun a s₁ hs₁ _ => Follows.pure hs₁ (by simp)

/-- A list with commas of items that follow, follows; it may use up the inner text. -/
theorem separated_follows {item item' : Parser α}
    (hitem : ∀ s, E.Inner s → s.rest.length ≤ limit →
      E.Follows c₁ k s (item s) (item' (E.lift s)))
    (hs : E.Inner s) (hlen : s.rest.length ≤ limit) :
    E.Follows false 0 s (Parser.separated item s) (Parser.separated item' (E.lift s)) := by
  rw [Parser.separated_eq_loop, Parser.separated_eq_loop]
  refine (hitem s hs hlen).uncounted.bind fun first s₁ hs₁ hlen₁ => ?_
  refine Follows.bind (loop_follows false (fun items s hs hlen => ?_) (separatedStep_goes hitem)
    [first] hs₁ (by omega)) fun items s₂ hs₂ _ => Follows.pure hs₂ (by simp)
  refine Follows.bind (eat_follows hs .comma rfl) fun read s₁ hs₁ hlen₁ => ?_
  refine Follows.branch rfl (fun _ => ?_) fun _ => Follows.pure hs₁ (by simp)
  exact (hitem s₁ hs₁ (by omega)).uncounted.bind fun a s₂ hs₂ _ => Follows.pure hs₂ (by simp)

end Repetition

end Embedding

end PlsqlAudit
