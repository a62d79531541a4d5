import Mathlib.Data.List.Basic
import PlsqlAudit.Tree.NameKey

/-!
# The two keys of a name

A name has a key of its own, and a key as the target of an assignment.  The one
lowers the whole text and drops blanks and quotes at its ends, the other lowers
each character and drops blanks and quotes everywhere.  In ASCII a text is lowered
character by character, so the second key can be read off the first: names with
the same key are the same target (`targetKey_eq_of_nameKey_eq`).
-/

namespace PlsqlAudit

/-- A text of ASCII characters. -/
def IsAscii (text : String) : Prop := ∀ c ∈ text.toList, c.toNat < 128

/-- What the key of a target keeps. -/
def keepsInTarget (c : Char) : Bool := !Text.isBlank c && c != '"'

namespace Text

theorem keepsInTarget_toLower {c : Char} (h : c.toNat < 128) :
    keepsInTarget c.toLower = keepsInTarget c := by
  have hall : ∀ n < 128, keepsInTarget (Char.ofNat n).toLower = keepsInTarget (Char.ofNat n) := by
    decide
  simpa using hall c.toNat h

theorem lowerChar_of_lt {c : Char} (h : c.toNat < 128) : lowerChar c = [c.toLower] := by
  rw [lowerChar, if_pos h]

/-- In ASCII a text is lowered character by character. -/
theorem lowerFrom_of_lt {before cs : List Char} (h : ∀ c ∈ cs, c.toNat < 128) :
    lowerFrom before cs = cs.map Char.toLower := by
  induction cs generalizing before with
  | nil => rfl
  | cons c cs ih =>
    have hc : c.toNat < 128 := h c List.mem_cons_self
    have hsigma : (c == 'Σ') = false := by
      rw [beq_eq_false_iff_ne]
      rintro rfl
      exact absurd hc (by decide)
    rw [lowerFrom, hsigma, if_neg (by simp), lowerChar_of_lt hc,
      ih fun d hd => h d (List.mem_cons_of_mem c hd)]
    rfl

theorem mem_of_mem_dropEndsWhile {p : Char → Bool} {cs : List Char} {c : Char}
    (h : c ∈ dropEndsWhile p cs) : c ∈ cs := by
  rw [dropEndsWhile, dropEndWhile, List.mem_reverse] at h
  have hmem := (List.dropWhile_suffix _).subset h
  rw [List.mem_reverse] at hmem
  exact (List.dropWhile_suffix _).subset hmem

theorem filter_dropWhile {p keep : Char → Bool} (h : ∀ c, p c = true → keep c = false)
    (cs : List Char) : (cs.dropWhile p).filter keep = cs.filter keep := by
  induction cs with
  | nil => rfl
  | cons c cs ih =>
    rw [List.dropWhile_cons]
    split
    case isTrue hp =>
      rw [ih, List.filter_cons, h c hp, if_neg (by simp)]
    case isFalse => rfl

/-- What is dropped at the ends of a text is not kept anyway. -/
theorem filter_dropEndsWhile {p keep : Char → Bool} (h : ∀ c, p c = true → keep c = false)
    (cs : List Char) : (dropEndsWhile p cs).filter keep = cs.filter keep := by
  rw [dropEndsWhile, dropEndWhile, List.filter_reverse, filter_dropWhile h, List.filter_reverse,
    List.reverse_reverse, filter_dropWhile h]

end Text

/-- The key of a name in ASCII. -/
theorem toList_nameKey {text : String} (h : IsAscii text) :
    (nameKey text).toList =
      (Text.dropEndsWhile (· == '"') (Text.dropEndsWhile Text.isBlank text.toList)).map
        Char.toLower := by
  rw [nameKey, Text.lower, Text.trimEnds, Text.trim]
  simp only [String.toList_ofList]
  apply Text.lowerFrom_of_lt
  intro c hc
  exact h c (Text.mem_of_mem_dropEndsWhile (Text.mem_of_mem_dropEndsWhile hc))

/-- In ASCII the key of a target is what it keeps of the key of the name. -/
theorem targetKey_eq_filter {text : String} (h : IsAscii text) :
    targetKey text = String.ofList ((nameKey text).toList.filter keepsInTarget) := by
  have htrimmed : ∀ c ∈ Text.dropEndsWhile (· == '"') (Text.dropEndsWhile Text.isBlank text.toList),
      (keepsInTarget ∘ Char.toLower) c = keepsInTarget c := by
    intro c hc
    exact Text.keepsInTarget_toLower
      (h c (Text.mem_of_mem_dropEndsWhile (Text.mem_of_mem_dropEndsWhile hc)))
  have hkept : ∀ c ∈ text.toList.filter keepsInTarget, Text.lowerChar c = [c.toLower] := by
    intro c hc
    exact Text.lowerChar_of_lt (h c (List.mem_of_mem_filter hc))
  calc targetKey text
      = String.ofList ((text.toList.filter keepsInTarget).flatMap Text.lowerChar) := rfl
    _ = String.ofList ((text.toList.filter keepsInTarget).map Char.toLower) := by
        rw [List.flatMap_congr hkept, ← List.map_eq_flatMap]
    _ = String.ofList ((nameKey text).toList.filter keepsInTarget) := by
        rw [toList_nameKey h, List.filter_map, List.filter_congr htrimmed,
          Text.filter_dropEndsWhile, Text.filter_dropEndsWhile]
        · intro c hc
          simp [keepsInTarget, hc]
        · intro c hc
          simp [keepsInTarget, beq_iff_eq.1 hc]

/-- Names with the same key are the same target. -/
theorem targetKey_eq_of_nameKey_eq {first second : String} (hfirst : IsAscii first)
    (hsecond : IsAscii second) (h : nameKey first = nameKey second) :
    targetKey first = targetKey second := by
  rw [targetKey_eq_filter hfirst, targetKey_eq_filter hsecond, h]

end PlsqlAudit
