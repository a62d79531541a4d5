import Mathlib.Data.String.Basic
import PlsqlAudit.Proofs.Lowering
import PlsqlAudit.Proofs.SideBySide

/-!
# Texts in the same letters

Two texts are in the same letters when they differ in the case of ASCII letters
only.  Whatever is asked of a single character of a program does not see this
difference, which is a matter of looking at 128 characters
(`ignoresCase_of_ascii`); and so texts in the same letters are lowered to the same
text, and have the same keys.
-/

namespace PlsqlAudit.Text

open List (Forall₂)

/-- Two texts that differ in the case of ASCII letters only. -/
abbrev SameLetters : List Char → List Char → Prop := Forall₂ fun c d => c.toLower = d.toLower

/-- A function of characters that does not see the case of ASCII letters. -/
def IgnoresCase {α : Type} (f : Char → α) : Prop := ∀ c d : Char, c.toLower = d.toLower → f c = f d

/-- Only letters of the basic alphabet have a small form that is not their own. -/
theorem toLower_of_not_ascii {c : Char} (h : ¬ c.toNat < 128) : c.toLower = c := by
  unfold Char.toLower
  split
  case isTrue hupper =>
    have hle : c.toNat ≤ 90 := hupper.2
    omega
  case isFalse => rfl

/-- What does not depend on the case of the letters of the basic alphabet does not depend on case
at all. -/
theorem ignoresCase_of_ascii {α : Type} {f : Char → α}
    (h : ∀ n < 128, f (Char.ofNat n).toLower = f (Char.ofNat n)) : IgnoresCase f := by
  have hlower (c : Char) : f c.toLower = f c := by
    by_cases hc : c.toNat < 128
    · exact forall_ascii (P := fun c => f c.toLower = f c) h hc
    · rw [toLower_of_not_ascii hc]
  intro c d hcd
  rw [← hlower c, hcd, hlower d]

/-! ### What ignores the case of letters -/

theorem ignoresCase_toLower : IgnoresCase Char.toLower := fun _ _ h => h

theorem ignoresCase_isBlank : IgnoresCase isBlank := ignoresCase_of_ascii (by decide)

theorem ignoresCase_isCased : IgnoresCase isCased := ignoresCase_of_ascii (by decide)

theorem ignoresCase_isCaseIgnorable : IgnoresCase isCaseIgnorable :=
  ignoresCase_of_ascii (by decide)

/-- The small form of a character does not depend on its case, special letters included. -/
theorem ignoresCase_lowerChar : IgnoresCase lowerChar := ignoresCase_of_ascii (by decide)

theorem ignoresCase_utf8Size : IgnoresCase Char.utf8Size := ignoresCase_of_ascii (by decide)

/-- Whether a character is a certain one does not depend on case, if that one is no letter of the
basic alphabet. -/
theorem ignoresCase_beq {x : Char}
    (h : ∀ n < 128, ((Char.ofNat n).toLower == x) = (Char.ofNat n == x)) :
    IgnoresCase (· == x) := ignoresCase_of_ascii h

/-- A character that is no letter is no other character. -/
theorem eq_of_toLower_eq {x c : Char} (hx : IgnoresCase (· == x)) (h : x.toLower = c.toLower) :
    c = x := by
  have hbeq : (x == x) = (c == x) := hx x c h
  rw [beq_self_eq_true] at hbeq
  exact beq_iff_eq.1 hbeq.symm

namespace SameLetters

variable {cs ds cs' ds' : List Char} {p : Char → Bool}

theorem refl (cs : List Char) : SameLetters cs cs := List.forall₂_same.2 fun _ _ => rfl

/-- What is taken as long as a test holds that ignores case differs in case only. -/
theorem takeWhile (hp : IgnoresCase p) (h : SameLetters cs ds) :
    SameLetters (cs.takeWhile p) (ds.takeWhile p) := rel_takeWhile hp h

/-- What is left behind such a stretch differs in case only. -/
theorem dropWhile (hp : IgnoresCase p) (h : SameLetters cs ds) :
    SameLetters (cs.dropWhile p) (ds.dropWhile p) := rel_dropWhile hp h

/-- A test that ignores case answers alike for the first characters of both texts. -/
theorem head?_any (hp : IgnoresCase p) (h : SameLetters cs ds) :
    cs.head?.any p = ds.head?.any p := optionAny_eq_of_rel hp (rel_head? h)

/-- Whether a text begins with a certain character does not depend on case, if that one is no
letter. -/
theorem head?_beq {x : Char} (hx : IgnoresCase (· == x)) (h : SameLetters cs ds) :
    (cs.head? == some x) = (ds.head? == some x) := by
  cases h with
  | nil => rfl
  | @cons c d _ _ hcd _ =>
    have hbeq : (c == x) = (d == x) := hx c d hcd
    simpa using hbeq

/-- Texts in the same letters are equally long in UTF-8. -/
theorem utf8Len_eq (h : SameLetters cs ds) : String.utf8Len cs = String.utf8Len ds := by
  induction h with
  | nil => rfl
  | @cons c d _ _ hcd _ ih =>
    rw [String.utf8Len_cons, String.utf8Len_cons, ih, ignoresCase_utf8Size c d hcd]

/-- What is computed for each character alike, whatever its case, is the same for both texts. -/
theorem map_eq {α : Type} {f : Char → α} (hf : IgnoresCase f) (h : SameLetters cs ds) :
    cs.map f = ds.map f := map_eq_of_rel hf h

/-- What is in the same letters as a text of two parts has two parts. -/
theorem split (h : SameLetters (cs ++ cs') ds) :
    ∃ front back, ds = front ++ back ∧ SameLetters cs front ∧ SameLetters cs' back := by
  induction cs generalizing ds with
  | nil => exact ⟨[], ds, rfl, .nil, h⟩
  | cons c cs ih =>
    obtain ⟨d, rest, hcd, hrest, rfl⟩ := List.forall₂_cons_left_iff.1 h
    obtain ⟨front, back, rfl, hfront, hback⟩ := ih hrest
    exact ⟨d :: front, back, rfl, .cons hcd hfront, hback⟩

/-! ### Lowering and keys -/

/-- Whether a text starts with a cased letter behind what is ignored does not depend on case. -/
theorem startsCased_eq (h : SameLetters cs ds) : startsCased cs = startsCased ds := by
  have hdrop := h.dropWhile ignoresCase_isCaseIgnorable
  unfold startsCased
  revert hdrop
  generalize cs.dropWhile isCaseIgnorable = cs'
  generalize ds.dropWhile isCaseIgnorable = ds'
  intro hdrop
  cases hdrop with
  | nil => rfl
  | @cons c d _ _ hcd _ => exact ignoresCase_isCased c d hcd

/-- Lowering a text does not depend on its case, nor on that of what stands in front of it. -/
theorem lowerFrom_eq {before before' : List Char} (hbefore : SameLetters before before')
    (h : SameLetters cs ds) : lowerFrom before cs = lowerFrom before' ds := by
  induction h generalizing before before' with
  | nil => rfl
  | @cons c d cs ds hcd hrest ih =>
    have hsigma : (c == 'Σ') = (d == 'Σ') := ignoresCase_beq (x := 'Σ') (by decide) c d hcd
    rw [lowerFrom, lowerFrom, ih (.cons hcd hbefore), hsigma, ignoresCase_lowerChar c d hcd,
      hbefore.startsCased_eq, startsCased_eq hrest]

/-- What is dropped at both ends does not depend on case. -/
theorem dropEndsWhile (hp : IgnoresCase p) (h : SameLetters cs ds) :
    SameLetters (dropEndsWhile p cs) (dropEndsWhile p ds) := by
  unfold Text.dropEndsWhile dropEndWhile
  exact List.rel_reverse (dropWhile hp (List.rel_reverse (h.dropWhile hp)))

end SameLetters

/-- Two texts in the same letters. -/
def Recased (a b : String) : Prop := SameLetters a.toList b.toList

namespace Recased

variable {a b : String}

/-- Texts that are equal differ in case only, trivially. -/
theorem of_eq (h : a = b) : Recased a b := h ▸ SameLetters.refl a.toList

/-- Texts that differ in case only are the same when lowered. -/
theorem lower (h : Recased a b) : Text.lower a = Text.lower b := by
  rw [Text.lower, Text.lower, SameLetters.lowerFrom_eq .nil h]

/-- Texts that differ in case only do so too without the blanks at their ends. -/
theorem trim (h : Recased a b) : Recased (Text.trim a) (Text.trim b) := by
  unfold Recased Text.trim
  rw [String.toList_ofList, String.toList_ofList]
  exact SameLetters.dropEndsWhile ignoresCase_isBlank h

/-- Texts that differ in case only do so too without a certain character at their ends. -/
theorem trimEnds {x : Char} (hx : IgnoresCase (· == x)) (h : Recased a b) :
    Recased (Text.trimEnds x a) (Text.trimEnds x b) := by
  unfold Recased Text.trimEnds
  rw [String.toList_ofList, String.toList_ofList]
  exact SameLetters.dropEndsWhile hx h

/-- Names that differ in case only have the same key, so they are the same name to a search. -/
theorem nameKey (h : Recased a b) : PlsqlAudit.nameKey a = PlsqlAudit.nameKey b :=
  (h.trim.trimEnds (ignoresCase_beq (by decide))).lower

/-- Targets that differ in case only have the same key. -/
theorem targetKey (h : Recased a b) : PlsqlAudit.targetKey a = PlsqlAudit.targetKey b := by
  have hkept : IgnoresCase fun c => !isBlank c && c != '"' := ignoresCase_of_ascii (by decide)
  have hfilter : SameLetters (a.toList.filter fun c => !isBlank c && c != '"')
      (b.toList.filter fun c => !isBlank c && c != '"') := by
    refine List.rel_filter ?_ h
    intro c d hcd
    simp only [hkept c d hcd]
  rw [PlsqlAudit.targetKey, PlsqlAudit.targetKey, List.flatMap_def, List.flatMap_def,
    hfilter.map_eq ignoresCase_lowerChar]

/-- Texts that differ in case only are the same if the letters of the basic alphabet are made
small. -/
theorem map_toLower (h : Recased a b) : a.map Char.toLower = b.map Char.toLower := by
  rw [← String.toList_inj, String.toList_map, String.toList_map]
  exact SameLetters.map_eq ignoresCase_toLower h

end Recased

end PlsqlAudit.Text
