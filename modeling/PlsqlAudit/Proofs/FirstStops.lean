import Mathlib.Data.List.Induction
import PlsqlAudit.Grammar.Body
import PlsqlAudit.Proofs.Spelling

/-!
# Where a skip stops

What is not understood is skipped up to the first place where a test holds outside
parentheses.  The depth of parentheses is a running count that never falls below zero, so it
is not the difference of what was opened and what was closed: a closing parenthesis that
belongs to one in front of the skip counts for nothing, and must not make up for one that is
opened later.  The depth is the largest difference over all stretches that end here
(`depth_zero_le_iff`), and it is zero where each parenthesis that was opened is closed again
(`allClosed_iff`).

A skip stops at the first such place that passes its test, or at the end of the text
(`Stream.firstStop_skipUntil`).  With a semicolon as the test this is how far a construct
reaches that leaves one node and nothing in it (`Grammar.skipped_run`).
-/

namespace PlsqlAudit

/-! ### Parentheses -/

/-- How many of the tokens open a parenthesis. -/
def openings (tokens : List Token) : Nat := tokens.countP (·.kind == .lParen)

/-- How many of the tokens close a parenthesis. -/
def closings (tokens : List Token) : Nat := tokens.countP (·.kind == .rParen)

theorem openings_append (us vs : List Token) : openings (us ++ vs) = openings us + openings vs :=
  List.countP_append

theorem closings_append (us vs : List Token) : closings (us ++ vs) = closings us + closings vs :=
  List.countP_append

/-- The depth of parentheses behind some tokens, for the depth in front of them: what they
open is added and what they close is taken off, as far as there is something to take off. -/
def depth (start : Nat) (tokens : List Token) : Nat :=
  tokens.foldl (fun depth t => depth + openings [t] - closings [t]) start

theorem depthAfter_eq (depth : Nat) (t : Token) :
    Stream.depthAfter depth t.kind = depth + openings [t] - closings [t] := by
  cases hkind : t.kind <;> simp [Stream.depthAfter, openings, closings, hkind]

/-- Each parenthesis that is opened among the tokens is closed again among them: from no place
on are there more that open than that close. -/
def AllClosed (tokens : List Token) : Prop :=
  ∀ back, back <:+ tokens → openings back ≤ closings back

/-- The depth is the largest surplus of opening parentheses in a stretch that ends here. -/
theorem depth_zero_le_iff (tokens : List Token) (n : Nat) :
    depth 0 tokens ≤ n ↔ ∀ back, back <:+ tokens → openings back ≤ closings back + n := by
  induction tokens using List.reverseRecOn generalizing n with
  | nil => simp [depth, openings]
  | append_singleton tokens t ih =>
    have hdepth : depth 0 (tokens ++ [t]) = depth 0 tokens + openings [t] - closings [t] := by
      simp [depth]
    have hback : (∀ back, back <:+ tokens ++ [t] → openings back ≤ closings back + n) ↔
        ∀ back, back <:+ tokens → openings back + openings [t] ≤ closings back + closings [t] + n := by
      constructor
      · intro h back hback
        have hall := h (back ++ [t]) (List.suffix_append_self_iff.2 hback)
        rwa [openings_append, closings_append] at hall
      · intro h back hback
        rcases List.suffix_concat_iff.1 hback with rfl | ⟨front, rfl, hfront⟩
        · exact Nat.zero_le _
        · rw [openings_append, closings_append]
          exact h front hfront
    rw [hdepth, hback]
    by_cases hle : openings [t] ≤ closings [t] + n
    · have hall := ih (closings [t] + n - openings [t])
      constructor
      · intro h back hback
        have := hall.1 (by omega) back hback
        omega
      · intro h
        have := hall.2 fun back hback => by
          have := h back hback
          omega
        omega
    · constructor
      · intro h
        omega
      · intro h
        have hnone := h [] List.nil_suffix
        have hopenings : openings [] = 0 := rfl
        have hclosings : closings [] = 0 := rfl
        omega

/-- Where the depth is zero, all is closed that was opened. -/
theorem allClosed_iff (tokens : List Token) : AllClosed tokens ↔ depth 0 tokens = 0 := by
  rw [← Nat.le_zero, depth_zero_le_iff]
  rfl

/-! ### First stops -/

namespace Stream

variable {s s₁ s' : Stream} {used front : List Token} {t : Token} {source : String} {eof : Token}
  {last : Option Token} {rest : List Token}

/-- From `s`, where some parentheses are open, one has read the tokens `used` to come to the
first place outside parentheses where `stop` holds, or to the end if there is none. -/
structure FirstStop (stop : Stream → Bool) (start : Nat) (s : Stream) (used : List Token)
    (s' : Stream) : Prop where
  reads : s.Reads used s'
  stops : s'.rest = [] ∨ depth start used = 0 ∧ stop s' = true
  first : ∀ front s₁, s.Reads front s₁ → front.length < used.length →
    ¬ (depth start front = 0 ∧ stop s₁ = true)

theorem Reads.eq_of_nil (h : s.Reads [] s') : s' = s := by
  obtain ⟨source, last, rest, eof⟩ := s
  obtain ⟨source', last', rest', eof'⟩ := s'
  obtain ⟨hrest, hlast, hsource, heof⟩ := h
  simp_all

/-- Where more than one token is read, the first is read first. -/
theorem Reads.tail (h : (⟨source, last, t :: rest, eof⟩ : Stream).Reads (t :: used) s') :
    (⟨source, some t, rest, eof⟩ : Stream).Reads used s' where
  rest := (List.cons.inj h.rest).2
  last := by
    rw [h.last, List.getLast?_cons]
    cases used.getLast? <;> rfl
  source := h.source
  eof := h.eof

theorem firstStop_skipFrom (stop : Stream → Bool) (source : String) (eof : Token) (start : Nat)
    (last : Option Token) (tokens : List Token) :
    ∃ used, FirstStop stop start ⟨source, last, tokens, eof⟩ used
      (skipFrom stop source eof start last tokens) := by
  induction tokens generalizing start last with
  | nil => exact ⟨[], Reads.refl _, .inl rfl, by simp⟩
  | cons t rest ih =>
    rw [skipFrom]
    split
    case isTrue hstop =>
      rw [Bool.and_eq_true, beq_iff_eq] at hstop
      exact ⟨[], Reads.refl _, .inr hstop, by simp⟩
    case isFalse hstop =>
      rw [depthAfter_eq]
      obtain ⟨used, hused⟩ := ih (start + openings [t] - closings [t]) (some t)
      refine ⟨t :: used, reads_cons hused.reads, hused.stops, ?_⟩
      intro front s₁ hread hlength
      cases front with
      | nil =>
        obtain rfl := hread.eq_of_nil
        simpa [depth] using hstop
      | cons t' front =>
        obtain rfl : t = t' := (List.cons.inj hread.rest).1
        exact hused.first front s₁ hread.tail (by simpa using hlength)

/-- **A skip stops at the first place that it should.** -/
theorem firstStop_skipUntil (stop : Stream → Bool) (s : Stream) :
    ∃ used, FirstStop stop 0 s used (s.skipUntil stop) :=
  firstStop_skipFrom stop s.source s.eof 0 s.last s.rest

/-- The place behind some of the tokens that are left. -/
theorem exists_reads (front back : List Token) (h : s.rest = front ++ back) :
    ∃ s₁, s.Reads front s₁ ∧ s₁.rest = back :=
  ⟨⟨s.source, front.getLast?.or s.last, back, s.eof⟩, ⟨h, rfl, rfl, rfl⟩, rfl⟩

end Stream

/-! ### Up to a semicolon -/

/-- No semicolon among the tokens stands outside the parentheses that are opened in front of
it. -/
def Unended (tokens : List Token) : Prop :=
  ∀ front t back, tokens = front ++ t :: back → t.kind = .semicolon → ¬ AllClosed front

/-- The tokens end with a semicolon outside the parentheses that are opened among them, and it
is the first such one. -/
def Ended (tokens : List Token) : Prop :=
  ∃ front last, tokens = front ++ [last] ∧ last.kind = .semicolon ∧ AllClosed front ∧ Unended front

theorem Ended.ne_nil {tokens : List Token} (h : Ended tokens) : tokens ≠ [] := by
  obtain ⟨front, last, rfl, -⟩ := h
  simp

namespace Stream

variable {s s' : Stream} {used : List Token}

/-- On the way to a semicolon outside parentheses there is no other. -/
theorem FirstStop.unended (h : FirstStop (·.atKind .semicolon) 0 s used s') : Unended used := by
  rintro front t back rfl hkind hclosed
  obtain ⟨s₁, hread, hrest⟩ := s.exists_reads front (t :: back ++ s'.rest)
    (by simpa using h.reads.rest)
  apply h.first front s₁ hread (by simp)
  refine ⟨(allClosed_iff front).1 hclosed, ?_⟩
  simp [atKind, kind, peek, hrest, hkind]

/-- Skipping past a semicolon ends behind the first one outside parentheses, or where the text
ends. -/
theorem exists_reads_skipPastSemicolon (hs : s.Sound) :
    ∃ used, s.Reads used s.skipPastSemicolon ∧
      (Ended used ∨ s.skipPastSemicolon.rest = [] ∧ Unended used) := by
  obtain ⟨used, hstop⟩ := firstStop_skipUntil (·.atKind .semicolon) s
  rw [skipPastSemicolon]
  generalize s.skipUntil (·.atKind .semicolon) = s₁ at hstop
  by_cases hat : s₁.atKind .semicolon = true
  · rw [if_pos hat]
    have hkind := kind_of_atKind hat
    have hread := hstop.reads.bump hs (by simp [hkind])
    have hrest : s₁.rest ≠ [] := by
      intro hnil
      have hends := (hstop.reads.sound hs).ends
      simp [kind, peek, hnil, hends] at hkind
    obtain ⟨hdepth, -⟩ := hstop.stops.resolve_left hrest
    exact ⟨_, hread, .inl ⟨used, s₁.peek, rfl, hkind, (allClosed_iff used).2 hdepth,
      hstop.unended⟩⟩
  · rw [if_neg hat]
    have hend : s₁.rest = [] := hstop.stops.resolve_right fun h => hat h.2
    exact ⟨used, hstop.reads, .inr ⟨hend, hstop.unended⟩⟩

end Stream

namespace Grammar

open PlsqlAudit.Parser

/-- What is skipped leaves one node, which spans the tokens through the first semicolon outside
parentheses, or all that are left if there is none; reading goes on behind them. -/
theorem skipped_run (kind : Kind) {s : Stream} (hs : s.Sound) (hat : s.kind ≠ .eof) :
    ∃ used span s', skipped kind s = .ok (.leaf kind span, s') ∧ s.Reads used s' ∧
      Spans used span ∧ (Ended used ∨ s'.rest = [] ∧ Unended used) := by
  obtain ⟨used, hread, hends⟩ := s.exists_reads_skipPastSemicolon hs
  have hne : used ≠ [] := by
    rcases hends with hended | ⟨hrest, -⟩
    · exact hended.ne_nil
    · rintro rfl
      have hnil : s.rest = [] := by simpa [hrest] using hread.rest
      exact hat (by simp [Stream.kind, Stream.peek, hnil, hs.ends])
  exact ⟨used, _, _, rfl, hread, Spans.toLast hs hread (hread.head?_eq hne), hends⟩

end Grammar

end PlsqlAudit
