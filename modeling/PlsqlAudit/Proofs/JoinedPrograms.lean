import PlsqlAudit.Proofs.EmbeddedUnits
import PlsqlAudit.Proofs.LineBreaks

/-!
# Programs put one after the other

A slash on a line of its own separates units, so two programs with such a line
between them are one program: its units are those of the first and those of the
second, moved.  The first must end with a semicolon and close the parentheses it
opens, since a statement that is skipped goes on to one of these.

The units are read one by one (`Parser.repeated`).  Reading those of the first
program stops where its tokens end, in front of the slash; the slash is read as a
unit that leaves no node; and what is behind it is read as on its own.
-/

namespace PlsqlAudit

open PlsqlAudit.Grammar PlsqlAudit.Parser

/-! ### Units one by one -/

namespace Parser

variable {α β : Type}

/-- Runs `item` as long as `more` holds, less than `n` times. -/
def repeated (more : Stream → Bool) (item : Parser α) : Nat → Parser (List α)
  | 0 => throw .exhausted
  | n + 1 => do
    if more (← get) then
      let a ← item
      let as ← repeated more item n
      return a :: as
    else return []

/-- An iteration that collects items is a repetition that answers with them, put behind those found
before. -/
theorem iterate_eq_repeated (more : Stream → Bool) (item : Parser α) (bound : List Token)
    (items : List α) :
    iterate (fun items => do
        if more (← get) then return some ((← item) :: items) else return none) bound items =
      (do return (← repeated more item bound.length).reverse ++ items) := by
  induction bound generalizing items with
  | nil => rfl
  | cons t bound ih =>
    funext s
    rw [iterate, List.length_cons, repeated]
    simp only [bind_assoc, get_bind]
    by_cases hmore : more s = true
    · simp only [hmore, if_true, bind_assoc, pure_bind, ih]
      simp
    · simp only [Bool.not_eq_true] at hmore
      simp [hmore]

/-- A list that is read as long as a test holds is a repetition with one round for each token that
is left, and one more. -/
theorem many_eq_repeated (more : Stream → Bool) (item : Parser α) (s : Stream) :
    many more item s = repeated more item (s.rest.length + 1) s := by
  rw [many, loop]
  simp only [iterate_eq_repeated, bind_assoc, pure_bind, get_bind]
  simp

variable {p q : Parser α} {f : α → Parser β} {s u : Stream}

/-- A choice runs alike at two places if its condition is answered alike and its branches run
alike. -/
theorem ite_congr_run {b b' : Bool} {p p' q q' : Parser α} (hb : b' = b)
    (hp : b = true → p s = p' u) (hq : b = false → q s = q' u) :
    (if b = true then p else q) s = (if b' = true then p' else q') u := by
  subst hb
  cases b' with
  | true => exact hp rfl
  | false => exact hq rfl

/-- What follows depends on the run of what stands before only. -/
theorem bind_congr_run (h : p s = q u) : (p >>= f) s = (q >>= f) u := by
  show (StateT.bind p f s : Except ParseError (β × Stream)) = StateT.bind q f u
  rw [StateT.bind, StateT.bind, h]

/-- The answer of a run that succeeds. -/
theorem run'_of_ok {a : α} (h : p s = .ok (a, u)) : p.run' s = .ok a := by
  rw [StateT.run', h]
  rfl

/-- The error of a run that fails. -/
theorem run'_of_error {e : ParseError} (h : p s = .error e) : p.run' s = .error e := by
  rw [StateT.run', h]
  rfl

end Parser

namespace Embedding

variable {E : Embedding} {item item' : Parser (Option Node)} {limit n : Nat} {s e : Stream}
  {units : List (Option Node)}

/-- A unit of a program is read alike in the longer text, even where it uses up its own: its rules
may be unrolled further there. -/
theorem unit_follows {depth depth' : Nat} (hle : depth ≤ depth') (u : Stream) (hu : E.Inner u)
    (hlen : u.rest.length ≤ depth + 1) (hkind : u.kind ≠ .eof) :
    E.Follows true 1 u (programUnit (rules (depth + 1)) u)
      (programUnit (rules (depth' + 1)) (E.lift u)) :=
  programUnit_follows (rules_follow (Nat.add_le_add_right hle 1)) hu hlen hkind

/-- Units that use up their text are read in the same way in a longer text, where
what follows is read then. -/
theorem repeated_lift
    (hitem : ∀ u, E.Inner u → u.rest.length ≤ limit → u.kind ≠ .eof →
      E.Follows true 1 u (item u) (item' (E.lift u)))
    (hs : E.Inner s) (hlen : s.rest.length ≤ limit)
    (h : repeated (fun s => !s.atEnd) item n s = .ok (units, e)) :
    e.rest = [] ∧ units.length ≤ s.rest.length ∧ E.Inner e ∧
      ∀ m, repeated (fun s => !s.atEnd) item' (m + units.length) (E.lift s) =
        (do return E.move units ++ (← repeated (fun s => !s.atEnd) item' m) :
          Parser (List (Option Node))) (E.lift e) := by
  induction n generalizing s units with
  | zero => exact absurd h not_throw_ok
  | succ n ih =>
    rw [repeated, get_bind] at h
    cases hend : s.atEnd with
    | true =>
      rw [hend] at h
      obtain ⟨rfl, rfl⟩ := pure_ok.1 h
      refine ⟨List.isEmpty_iff.1 hend, by simp, hs, fun m => ?_⟩
      simp
    | false =>
      rw [hend] at h
      obtain ⟨unit, s₁, hunit, h⟩ := bind_ok.1 h
      obtain ⟨others, s₂, hothers, h⟩ := bind_ok.1 h
      obtain ⟨rfl, rfl⟩ := pure_ok.1 h
      have hrest : s.rest ≠ [] := by simpa [Stream.atEnd] using hend
      obtain ⟨hs₁, hlen₁, hlift⟩ := (hitem s hs hlen (hs.kind_ne_eof hrest)).ok unit s₁ hunit
      obtain ⟨hend₂, hcount, hs₂, hmore⟩ := ih hs₁ (by omega) hothers
      refine ⟨hend₂, by simp; omega, hs₂, fun m => ?_⟩
      have hend' : (E.lift s).atEnd = false := by rw [atEnd_lift (.inr hrest), hend]
      rw [List.length_cons, ← Nat.add_assoc, repeated, get_bind, hend']
      show ((item' >>= _) : Parser (List (Option Node))) (E.lift s) = _
      rw [bind_of_ok (hlift (.inl rfl)), bind_congr_run (hmore m)]
      simp

/-- An error among the units of a text that nothing follows is met again. -/
theorem repeated_error (htail : E.tail = [])
    (hitem : ∀ u, E.Inner u → u.rest.length ≤ limit → u.kind ≠ .eof →
      E.Follows true 1 u (item u) (item' (E.lift u)))
    (hs : E.Inner s) (hlen : s.rest.length ≤ limit) (hn : s.rest.length < n) {m : Nat} (hm : n ≤ m)
    {err : ParseError} (h : repeated (fun s => !s.atEnd) item n s = .error err) :
    ∃ err', repeated (fun s => !s.atEnd) item' m (E.lift s) = .error err' ∧
      E.SameError err err' := by
  induction n generalizing s m with
  | zero => exact absurd hn (Nat.not_lt_zero _)
  | succ n ih =>
    obtain ⟨m, rfl⟩ : ∃ k, m = k + 1 := ⟨m - 1, by omega⟩
    rw [repeated, get_bind] at h ⊢
    rw [atEnd_lift (.inl htail)]
    cases hend : s.atEnd with
    | true => simp [hend, pure_run] at h
    | false =>
      rw [hend] at h
      have hrest : s.rest ≠ [] := by simpa [Stream.atEnd] using hend
      have hfollows := hitem s hs hlen (hs.kind_ne_eof hrest)
      show ∃ err', (item' >>= _ : Parser (List (Option Node))) (E.lift s) = .error err' ∧ _
      cases hunit : item s with
      | error e =>
        obtain ⟨e', he', hsame⟩ := hfollows.error e hunit htail
        obtain rfl : e = err := Except.error.inj ((bind_of_error hunit).symm.trans h)
        exact ⟨e', bind_of_error he', hsame⟩
      | ok result =>
        obtain ⟨unit, s₁⟩ := result
        obtain ⟨hs₁, hlen₁, hlift⟩ := hfollows.ok unit s₁ hunit
        rw [bind_of_ok (hlift (.inl rfl))]
        replace h := (bind_of_ok hunit).symm.trans h
        cases hothers : repeated (fun s => !s.atEnd) item n s₁ with
        | error e =>
          obtain rfl : e = err := Except.error.inj ((bind_of_error hothers).symm.trans h)
          obtain ⟨e', he', hsame⟩ := ih hs₁ (by omega) (by omega) (Nat.le_of_succ_le_succ hm) hothers
          exact ⟨e', bind_of_error he', hsame⟩
        | ok others =>
          obtain ⟨others, s₂⟩ := others
          have hok := (bind_of_ok hothers).symm.trans h
          simp [pure_run] at hok

end Embedding

/-! ### A unit does not depend on what stands before it -/

section Before

variable (r : Rules) (source : String) (last last' : Option Token) (t : Token) (rest : List Token)
  (eof : Token)

/-- A body does not depend on the token in front of it, since it begins with a word of its own. -/
theorem body_last :
    body r ⟨source, last, t :: rest, eof⟩ = body r ⟨source, last', t :: rest, eof⟩ := by
  unfold body
  apply bind_congr_run
  unfold expectWord
  rw [get_bind, get_bind]
  exact ite_congr_run rfl (fun _ => rfl) fun _ => rfl

/-- A block does not depend on the token in front of it. -/
theorem block_last :
    block r ⟨source, last, t :: rest, eof⟩ = block r ⟨source, last', t :: rest, eof⟩ := by
  unfold block
  by_cases hlabel : t.kind = .labelOpen
  · apply bind_congr_run
    rw [many_eq_repeated, many_eq_repeated]
    unfold repeated
    rw [get_bind, get_bind]
    refine ite_congr_run rfl (fun _ => rfl) fun h => ?_
    simp [Stream.atKind, Stream.kind, Stream.peek, hlabel] at h
  · have hlabels (x : Option Token) : many (·.atKind .labelOpen) label
        ⟨source, x, t :: rest, eof⟩ = .ok ([], ⟨source, x, t :: rest, eof⟩) := by
      rw [many_eq_repeated, repeated, get_bind]
      simp [Stream.atKind, Stream.kind, Stream.peek, hlabel, pure_run]
    rw [bind_of_ok (hlabels last), bind_of_ok (hlabels last'), ask_bind, ask_bind]
    by_cases hdeclare : t.isWord "declare" = true
    · apply bind_congr_run
      unfold eatWord
      rw [get_bind, get_bind]
      refine ite_congr_run rfl (fun _ => rfl) fun h => ?_
      exact absurd hdeclare (Bool.not_eq_true _ ▸ h)
    · have hword (x : Option Token) : eatWord "declare" ⟨source, x, t :: rest, eof⟩ =
          .ok (false, ⟨source, x, t :: rest, eof⟩) := by
        rw [eatWord, get_bind]
        simp [Stream.atWord, Stream.peek, hdeclare, pure_run]
      rw [bind_of_ok (hword last), bind_of_ok (hword last')]
      simp only [Bool.false_eq_true, if_false, pure_bind]
      exact bind_congr_run (body_last r source last last' t rest eof)

/-- Skipping the rest of a line does not depend on the token in front of it. -/
theorem skipLine_last :
    Stream.skipLine ⟨source, last, t :: rest, eof⟩ =
      Stream.skipLine ⟨source, last', t :: rest, eof⟩ := by
  simp [Stream.skipLine, Stream.advanceUntil, Stream.advanceFrom, Stream.peek]

/-- Skipping a statement does not depend on the token in front of it, unless it begins with a
slash, which may stand on a line of its own. -/
theorem skipStatement_last (hkind : t.kind ≠ .slash) :
    Stream.skipStatement ⟨source, last, t :: rest, eof⟩ =
      Stream.skipStatement ⟨source, last', t :: rest, eof⟩ := by
  simp [Stream.skipStatement, Stream.skipStatementFrom, Stream.atTerminator, Stream.atKind,
    Stream.kind, Stream.peek, hkind]

/-- A unit does not depend on the token in front of it, whatever unit it is. -/
theorem programUnit_last :
    programUnit r ⟨source, last, t :: rest, eof⟩ = programUnit r ⟨source, last', t :: rest, eof⟩ := by
  unfold programUnit
  rw [get_bind, get_bind]
  refine ite_congr_run rfl (fun _ => rfl) fun hmark => ?_
  refine ite_congr_run rfl (fun _ => rfl) fun _ => ?_
  refine ite_congr_run rfl
    (fun _ => bind_congr_run (block_last r source last last' t rest eof)) fun _ => ?_
  refine ite_congr_run rfl (fun _ => ?_) fun _ => ?_
  · rw [modify_bind, modify_bind, skipLine_last]
  · rw [modify_bind, modify_bind, skipStatement_last]
    intro hslash
    simp [Stream.atKind, Stream.kind, Stream.peek, hslash] at hmark

/-- The units behind a place do not depend on what stands before it. -/
theorem units_last (n : Nat) (rest : List Token) :
    (repeated (fun s => !s.atEnd) (programUnit r) n).run' ⟨source, last, rest, eof⟩ =
      (repeated (fun s => !s.atEnd) (programUnit r) n).run' ⟨source, last', rest, eof⟩ := by
  cases n with
  | zero => rfl
  | succ n =>
    cases rest with
    | nil => rfl
    | cons t rest =>
      have hrun : repeated (fun s => !s.atEnd) (programUnit r) (n + 1) ⟨source, last, t :: rest, eof⟩ =
          repeated (fun s => !s.atEnd) (programUnit r) (n + 1) ⟨source, last', t :: rest, eof⟩ := by
        rw [repeated, get_bind, get_bind]
        exact ite_congr_run rfl
          (fun _ => bind_congr_run (programUnit_last r source last last' t rest eof))
          fun h => by simp [Stream.atEnd] at h
      exact congrArg (Prod.fst <$> ·) hrun

end Before

/-! ### The tokens around a slash -/

/-- The slash between two programs. -/
def slashBehind (a : String) : Token :=
  Token.shift (Shift.past (a ++ "\n")) ⟨.slash, "/", ⟨0, 1, 1, 1⟩⟩

/-- A text moves what follows it by as many bytes as it has. -/
theorem Shift.bytes_past (a : String) : (past a).bytes = String.utf8Len a.toList := by
  rw [← String.utf8ByteSize_ofList, String.ofList_toList, past]

/-- The end of a text is behind its last byte. -/
theorem tokenize_eof {source : String} {tokens : TokenSequence} (h : tokenize source = .ok tokens) :
    tokens.eof.span.stop = String.utf8Len source.toList := by
  rw [(eof_covers h).2.stop_eq_upto, List.append_nil]

namespace Embedding

variable {E : Embedding} {tokens : TokenSequence}

/-- A text that stands between two others fulfils what is assumed of embeddings, if it is moved by
the length of the first of them. -/
theorem lawful_of_text (front back : List Char) (htokens : tokenize E.source = .ok tokens)
    (heof : E.eof = tokens.eof)
    (houter : E.outer.toList = front ++ E.source.toList ++ back)
    (hbytes : E.shift.bytes = String.utf8Len front)
    (hend : E.tail = [] → E.outerEof = E.token E.eof)
    (hslash : ∀ t ∈ E.tail.head?, t.kind = .slash) : E.Lawful where
  ends := by
    obtain ⟨-, -, -, hkind⟩ := tokenize_spec htokens
    rw [heof, hkind]
  eofStop := ⟨E.source.toList, List.prefix_refl _, by rw [heof, tokenize_eof htokens]⟩
  outerEof := hend
  slash := hslash
  text := by
    intro span hstart hstop
    obtain ⟨before, hbefore, hoffset⟩ := hstart
    obtain ⟨upto, hupto, hstop⟩ := hstop
    rw [Span.text_shift houter hbytes hbefore hupto hoffset hstop]

/-- A token of the inner text is known: it stands between characters of the text, and its line is
counted on without overflow. -/
theorem known_of_mem (htokens : tokenize E.source = .ok tokens)
    (hcounted : E.shift.lines = 0 ∨ E.source.toList.count '\n' + E.shift.lines + 1 < 2 ^ 32)
    (hline : ∀ slash ∈ E.tail.head?,
      E.source.toList.count '\n' + E.shift.lines + 1 < slash.span.line.toNat)
    {t : Token} (ht : t ∈ tokens.tokens) (hword : (E.token t).lowerText = t.lowerText) :
    E.Known t := by
  obtain ⟨list, hlist, hall, -⟩ := tokenize_spec htokens
  rw [hall] at ht
  obtain ⟨before, lexeme, after, -, -, -, hcovers⟩ := token_covers hlist ht
  constructor
  · exact Lexeme.kind_ne_eof_of_mem_tokensFrom hlist ht
  · exact hword
  · exact ⟨_, hcovers.isPrefix_before, hcovers.offset_eq⟩
  · exact ⟨_, hcovers.isPrefix_upto, hcovers.stop_eq_upto⟩
  · have hbound := hcovers.toNat_line_le
    have hword := t.span.line.toNat_lt
    omega
  · intro slash hslash
    have hbound := hcovers.toNat_line_le
    have hlater := hline slash hslash
    omega

/-- The start of the inner text is a place inside it, if it ends with a semicolon and closes its
parentheses wherever something follows. -/
theorem inner_start (hlawful : E.Lawful) (htokens : tokenize E.source = .ok tokens)
    (heof : E.eof = tokens.eof) (hknown : ∀ t ∈ tokens.tokens, E.Known t)
    (hends : E.tail ≠ [] → ∃ t ∈ tokens.tokens.getLast?, t.kind = .semicolon)
    (hbalanced : E.tail ≠ [] → Balanced 0 tokens.tokens) :
    E.Inner (Stream.start E.source tokens) where
  lawful := hlawful
  sound := Stream.sound_start htokens
  source := rfl
  eof := heof.symm
  known := hknown
  knownLast := by simp [Stream.start]
  ends := by
    intro htail t ht
    obtain ⟨last, hlast, hkind⟩ := hends htail
    rw [Stream.start, Option.mem_def.1 hlast] at ht
    obtain rfl := Option.some.inj ht
    exact hkind
  ended := by
    intro htail hrest
    obtain ⟨last, hlast, -⟩ := hends htail
    simp [show tokens.tokens = [] from hrest] at hlast
  balanced := fun htail => ⟨0, hbalanced htail⟩

end Embedding

/-- How far the second program is moved. -/
def Shift.pastSlash (a : String) : Shift := .past (a ++ "\n/\n")

/-- The first program in the longer text. -/
def Embedding.first (a b : String) (tokens more : TokenSequence) : Embedding where
  shift := ⟨0, 0⟩
  source := a
  eof := tokens.eof
  outer := a ++ "\n/\n" ++ b
  outerEof := more.eof.shift (.pastSlash a)
  spelling := Token.text
  tail := slashBehind a :: more.tokens.map (Token.shift (.pastSlash a))

/-- A program behind another text. -/
def Embedding.appended (front b : String) (more : TokenSequence) : Embedding where
  shift := .past front
  source := b
  eof := more.eof
  outer := front ++ b
  outerEof := more.eof.shift (.past front)
  spelling := Token.text
  tail := []

/-- The units of a program of at most `depth` tokens, with what stands between. -/
def Grammar.units (depth fuel : Nat) : Parser (List (Option Node)) :=
  repeated (fun s => !s.atEnd) (programUnit (rules (depth + 1))) fuel

/-- The units of a text that nothing follows are read again. -/
theorem Embedding.units_lift {E : Embedding} {s : Stream} {n depth fuel : Nat} (htail : E.tail = [])
    (hs : E.Inner s) (hlen : s.rest.length ≤ n) (hdepth : n ≤ depth) (hfuel : n < fuel) :
    (∀ list e, units n (n + 1) s = .ok (list, e) →
      units depth fuel (E.lift s) = .ok (E.move list, E.lift e)) ∧
    ∀ err, units n (n + 1) s = .error err →
      ∃ err', units depth fuel (E.lift s) = .error err' ∧ E.SameError err err' := by
  have hitem := unit_follows (E := E) hdepth
  have hlength : s.rest.length ≤ n + 1 := Nat.le_succ_of_le hlen
  constructor
  · intro list e h
    obtain ⟨hrest, hcount, he, hmore⟩ := repeated_lift hitem hs hlength h
    obtain ⟨k, rfl⟩ : ∃ k, fuel = k + 1 + list.length := ⟨fuel - 1 - list.length, by omega⟩
    have hend : (E.lift e).atEnd = true := by
      rw [atEnd_lift (.inl htail), Stream.atEnd, hrest]
      rfl
    have hnone : repeated (fun s => !s.atEnd) (programUnit (rules (depth + 1))) (k + 1) (E.lift e) =
        .ok ([], E.lift e) := by
      rw [repeated, get_bind, hend]
      rfl
    rw [Grammar.units, hmore (k + 1), bind_of_ok hnone, List.append_nil]
    rfl
  · intro err h
    exact repeated_error htail hitem hs hlength (Nat.lt_succ_of_le hlen) hfuel h

/-- The tree of a program with the given units. -/
def Tree.ofUnits (source : String) (units : List Node) : Tree :=
  ⟨source, .mk .compilationUnit ⟨0, source.utf8ByteSize, 1, 1⟩ units⟩

/-- A text that cannot be cut into tokens cannot be read, for the same reason. -/
theorem parse_of_tokenize_error {source : String} {e : ParseError} (h : tokenize source = .error e) :
    parse source = .error e := by
  rw [parse, h]
  rfl

/-- A text that was cut into tokens is read unit by unit, and the tree is made of the units. -/
theorem parse_of_tokenize {source : String} {tokens : TokenSequence}
    (h : tokenize source = .ok tokens) :
    parse source = (fun list => Tree.ofUnits source (list.filterMap id)) <$>
      (units tokens.tokens.length (tokens.tokens.length + 1)).run' (Stream.start source tokens) := by
  have hparse : parse source = (do
      let run ← (many (fun s => !s.atEnd) (programUnit (rules (tokens.tokens.length + 1))) >>=
        fun units => pure (units.filterMap id) : Parser (List Node)) (Stream.start source tokens)
      return Tree.ofUnits source run.1) := by
    rw [parse, h]
    rfl
  have hmany : many (fun s => !s.atEnd) (programUnit (rules (tokens.tokens.length + 1)))
      (Stream.start source tokens) = units tokens.tokens.length (tokens.tokens.length + 1)
        (Stream.start source tokens) := many_eq_repeated _ _ _
  rw [hparse, bind_congr_run hmany]
  cases hunits : units tokens.tokens.length (tokens.tokens.length + 1)
    (Stream.start source tokens) with
  | error e =>
    rw [bind_of_error hunits, run'_of_error hunits]
    rfl
  | ok found =>
    rw [bind_of_ok hunits, run'_of_ok hunits]
    rfl

/-- A text that was read consists of units, and its tree is made of them. -/
theorem exists_units_of_parse {source : String} {tokens : TokenSequence} {t : Tree}
    (htokens : tokenize source = .ok tokens) (h : parse source = .ok t) :
    ∃ list e, units tokens.tokens.length (tokens.tokens.length + 1) (Stream.start source tokens) =
      .ok (list, e) ∧ t = Tree.ofUnits source (list.filterMap id) := by
  rw [parse_of_tokenize htokens] at h
  cases hunits : units tokens.tokens.length (tokens.tokens.length + 1)
    (Stream.start source tokens) with
  | error e =>
    rw [run'_of_error hunits] at h
    cases h
  | ok found =>
    rw [run'_of_ok hunits] at h
    exact ⟨found.1, found.2, rfl, (Except.ok.inj h).symm⟩

/-- Behind any text, a second one is an inner text which nothing follows. -/
theorem inner_appended (front : String) {b : String} {more : TokenSequence}
    (hfeeds : (front ++ b).toList.count '\n' < 2 ^ 32 - 1) (hb : tokenize b = .ok more) :
    (Embedding.appended front b more).Inner (Stream.start b more) := by
  have hlawful : (Embedding.appended front b more).Lawful := by
    refine Embedding.lawful_of_text front.toList [] hb rfl ?_ ?_ ?_ ?_
    · simp [Embedding.appended]
    · exact Shift.bytes_past _
    · intro _
      rfl
    · simp [Embedding.appended]
  have hcounted : b.toList.count '\n' + front.toList.count '\n' + 1 < 2 ^ 32 := by
    rw [String.toList_append, List.count_append] at hfeeds
    omega
  have hknown (t : Token) (ht : t ∈ more.tokens) : (Embedding.appended front b more).Known t :=
    Embedding.known_of_mem (E := Embedding.appended front b more) hb (.inr hcounted)
      (by simp [Embedding.appended]) ht rfl
  exact Embedding.inner_start hlawful hb rfl hknown (fun h => absurd rfl h) fun h => absurd rfl h

/-- An error that is met again behind another text is the old one, moved by that text. -/
theorem SameError.eq_shift {front b : String} {more : TokenSequence} {e e' : ParseError}
    (h : (Embedding.appended front b more).SameError e e') : e' = e.shift (.past front) := by
  cases h <;> rfl

/-- A program behind another text is read as on its own. -/
theorem units_appended (front : String) {b : String} {more : TokenSequence}
    (hfeeds : (front ++ b).toList.count '\n' < 2 ^ 32 - 1) (hb : tokenize b = .ok more) {depth fuel : Nat} (hdepth : more.tokens.length ≤ depth)
    (hfuel : more.tokens.length < fuel) (last : Option Token) :
    (units depth fuel).run' ⟨front ++ b, last, more.tokens.map (Token.shift (.past front)),
        more.eof.shift (.past front)⟩ =
      match (units more.tokens.length (more.tokens.length + 1)).run' (Stream.start b more) with
      | .ok list => .ok (list.map (Option.map (Node.shift (.past front))))
      | .error e => .error (e.shift (.past front)) := by
  have hs := inner_appended front hfeeds hb
  have hlift : (Embedding.appended front b more).lift (Stream.start b more) =
      ⟨front ++ b, none, more.tokens.map (Token.shift (.past front)),
        more.eof.shift (.past front)⟩ := by
    simp only [Embedding.lift, Stream.start, Embedding.appended, List.append_nil]
    rfl
  obtain ⟨hok, herror⟩ := Embedding.units_lift rfl hs (Nat.le_refl _) hdepth hfuel
  rw [Grammar.units, units_last _ _ last none, ← hlift]
  cases hunits : units more.tokens.length (more.tokens.length + 1) (Stream.start b more) with
  | error e =>
    obtain ⟨e', he', hsame⟩ := herror e hunits
    rw [SameError.eq_shift hsame] at he'
    rw [run'_of_error hunits]
    exact run'_of_error he'
  | ok found =>
    rw [run'_of_ok hunits]
    exact run'_of_ok (hok found.1 found.2 hunits)

end PlsqlAudit
