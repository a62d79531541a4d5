/-!
# Positions and spans

A position says how far into a text one has read: the bytes of its UTF-8 form
before it, and the line and column an editor would show, both counted from one.
Only a line feed ends a line, and a column counts characters, not bytes.  Lines and
columns are counted in 32 bits: behind the last number that fits the count goes on
from zero.

A span is a position together with a length in bytes.  `Span.cover` stretches a
span to the end of another one; it never shortens it, and never moves its start.
-/

namespace PlsqlAudit

/-- A place between two characters of a text. -/
structure Position where
  offset : Nat
  line : UInt32
  column : UInt32
  deriving DecidableEq, Repr, Inhabited

namespace Position

/-- The place before the first character. -/
def start : Position := ⟨0, 1, 1⟩

/-- The place after `c`, for the place before it. -/
def advance (p : Position) (c : Char) : Position :=
  if c = '\n' then ⟨p.offset + c.utf8Size, p.line + 1, 1⟩
  else ⟨p.offset + c.utf8Size, p.line, p.column + 1⟩

/-- The place after all of `text`. -/
def after (p : Position) (text : List Char) : Position :=
  text.foldl advance p

end Position

/-- A stretch of a text. -/
structure Span where
  offset : Nat
  length : Nat
  line : UInt32
  column : UInt32
  deriving DecidableEq, Repr, Inhabited

namespace Span

/-- The stretch between two places. -/
def between (first last : Position) : Span :=
  ⟨first.offset, last.offset - first.offset, first.line, first.column⟩

/-- The byte just after the span. -/
def stop (s : Span) : Nat := s.offset + s.length

/-- The span from the start of `s` to the end of `t`, or `s` where `t` ends no
later. -/
def cover (s t : Span) : Span :=
  if t.stop ≤ s.stop then s else { s with length := t.stop - s.offset }

/-- A span that was stretched ends where the later of the two spans ends. -/
theorem stop_cover (a b : Span) : (a.cover b).stop = max a.stop b.stop := by
  have hoffset : a.offset ≤ a.stop := Nat.le_add_right _ _
  by_cases hle : b.stop ≤ a.stop
  · rw [cover, if_pos hle]
    omega
  · have hstop : ({ a with length := b.stop - a.offset } : Span).stop =
        a.offset + (b.stop - a.offset) := rfl
    rw [cover, if_neg hle, hstop]
    omega

/-- Stretching twice is stretching to where the second span ends. -/
theorem cover_cover {a b c : Span} (h : b.stop ≤ c.stop) : (a.cover b).cover c = a.cover c := by
  rw [cover, stop_cover, cover, cover]
  by_cases hc : c.stop ≤ a.stop
  · rw [if_pos (by omega), if_pos (by omega), if_pos hc]
  · rw [if_neg hc]
    by_cases hbc : c.stop ≤ max a.stop b.stop
    · have hsame : b.stop = c.stop := by omega
      rw [if_pos hbc, if_neg (by omega), hsame]
    · rw [if_neg hbc]
      by_cases hb : b.stop ≤ a.stop
      · rw [if_pos hb]
      · rw [if_neg hb]

/-- A span is not stretched further by what it was stretched to. -/
theorem cover_self_cover (a b : Span) : a.cover (a.cover b) = a.cover b := by
  by_cases hle : b.stop ≤ a.stop
  · have hsame : a.cover b = a := if_pos hle
    rw [hsame, cover, if_pos (Nat.le_refl _)]
  · have hmax : max a.stop b.stop = b.stop := by omega
    rw [cover, stop_cover, hmax, cover, if_neg hle]

/-- The empty span where `s` starts. -/
def collapse (s : Span) : Span := { s with length := 0 }

/-- The characters of `source` that the span covers. -/
def text (s : Span) (source : String) : String :=
  String.Pos.Raw.extract source ⟨s.offset⟩ ⟨s.stop⟩

end Span

end PlsqlAudit
