import Mathlib.Data.List.Basic
import PlsqlAudit.Text.Occurrence
import PlsqlAudit.Text.Split

/-!
# Texts with dots in them

A text is cut at a character into runs, and put together again from texts with
that character between them.  A text that ends with the character, and has it
nowhere else, occurs in another exactly when what stands before it ends one of
the runs that the character closes: every run but the last
(`Text.infix_concat_iff`).
-/

namespace PlsqlAudit.Text

variable {c : Char} {part cs : List Char}

theorem occursIn_iff : occursIn part cs = true ↔ part <:+: cs := by
  induction cs with
  | nil => simp [occursIn]
  | cons d cs ih => rw [occursIn, Bool.or_eq_true, ih, List.isPrefixOf_iff_prefix, List.infix_cons_iff]

theorem contains_iff {whole piece : String} :
    contains whole piece = true ↔ piece.toList <:+: whole.toList := occursIn_iff

/-! ### Runs -/

theorem splitChars_ne_nil (c : Char) (cs : List Char) : splitChars c cs ≠ [] := by
  cases cs with
  | nil => simp [splitChars]
  | cons d cs =>
    rw [splitChars]
    split
    · simp
    · split <;> simp

/-- A character that does not cut belongs to the first run. -/
theorem splitChars_cons_of_ne {d : Char} {run : List Char} {runs : List (List Char)} (hd : d ≠ c)
    (h : splitChars c cs = run :: runs) : splitChars c (d :: cs) = (d :: run) :: runs := by
  rw [splitChars, if_neg hd, h]

theorem splitChars_append (c : Char) (first second : List Char) :
    splitChars c (first ++ c :: second) = splitChars c first ++ splitChars c second := by
  induction first with
  | nil => simp [splitChars]
  | cons d first ih =>
    by_cases hd : d = c
    · simp [splitChars, hd, ih]
    · obtain ⟨run, runs, hruns⟩ := List.exists_cons_of_ne_nil (splitChars_ne_nil c first)
      have hjoined : splitChars c (first ++ c :: second) = run :: (runs ++ splitChars c second) := by
        rw [ih, hruns, List.cons_append]
      rw [List.cons_append, splitChars_cons_of_ne hd hjoined, splitChars_cons_of_ne hd hruns,
        List.cons_append]

theorem splitChars_of_not_mem (h : c ∉ cs) : splitChars c cs = [cs] := by
  induction cs with
  | nil => rfl
  | cons d cs ih =>
    rw [List.mem_cons, not_or] at h
    exact splitChars_cons_of_ne (Ne.symm h.1) (ih h.2)

/-- Texts with a character between them are cut into the runs of each. -/
theorem splitChars_intercalate (c : Char) {texts : List (List Char)} (h : texts ≠ []) :
    splitChars c ([c].intercalate texts) = texts.flatMap (splitChars c) := by
  induction texts with
  | nil => exact absurd rfl h
  | cons text texts ih =>
    cases texts with
    | nil => simp
    | cons next texts =>
      have hjoin : [c].intercalate (text :: next :: texts) =
          text ++ c :: [c].intercalate (next :: texts) := by
        simp [List.intercalate_cons_cons]
      rw [hjoin, splitChars_append, ih (by simp)]
      rfl

/-! ### Runs that are closed -/

/-- A run that is closed stands between two cuts, or in front of the first. -/
theorem between_of_mem_dropLast {run : List Char} (h : run ∈ (splitChars c cs).dropLast) :
    run ++ [c] <+: cs ∨ c :: run ++ [c] <:+: cs := by
  induction hruns : splitChars c cs generalizing cs with
  | nil => exact absurd hruns (splitChars_ne_nil c cs)
  | cons first runs ih =>
    by_cases hcut : c ∈ cs
    · obtain ⟨front, back, rfl, hfront⟩ := List.eq_append_cons_of_mem hcut
      rw [splitChars_append, splitChars_of_not_mem hfront, List.singleton_append] at h hruns
      obtain ⟨rfl, rfl⟩ := List.cons.inj hruns
      rw [List.dropLast_cons_of_ne_nil (splitChars_ne_nil c back), List.mem_cons] at h
      have hback : c :: back <:+ front ++ c :: back := List.suffix_append front (c :: back)
      rcases h with rfl | h
      · exact .inl ⟨back, by simp⟩
      · rcases ih h rfl with hrun | hrun
        · exact .inr (((List.prefix_cons_inj c).2 hrun).isInfix.trans hback.isInfix)
        · exact .inr (hrun.trans ((List.suffix_cons c back).trans hback).isInfix)
    · rw [splitChars_of_not_mem hcut] at h
      simp at h

/-- Every run but the last is followed by the character. -/
theorem concat_infix_of_mem_dropLast {run : List Char} (h : run ∈ (splitChars c cs).dropLast) :
    run ++ [c] <:+: cs := by
  rcases between_of_mem_dropLast h with hfront | hbetween
  · exact hfront.isInfix
  · exact (List.suffix_cons c (run ++ [c])).isInfix.trans hbetween

/-- A text without the character, at the end of another, ends the last run. -/
theorem exists_getLast?_splitChars (h : c ∉ part) (before : List Char) :
    ∃ run, (splitChars c (before ++ part)).getLast? = some run ∧ part <:+ run := by
  induction before with
  | nil => exact ⟨part, by simp [splitChars_of_not_mem h], List.suffix_rfl⟩
  | cons d before ih =>
    obtain ⟨last, hlast, hsuffix⟩ := ih
    obtain ⟨run, runs, hruns⟩ :=
      List.exists_cons_of_ne_nil (splitChars_ne_nil c (before ++ part))
    by_cases hd : d = c
    · refine ⟨last, ?_, hsuffix⟩
      rw [List.cons_append, splitChars, if_pos hd, hruns, List.getLast?_cons_cons, ← hruns]
      exact hlast
    · rw [List.cons_append, splitChars_cons_of_ne hd hruns]
      rw [hruns] at hlast
      cases runs with
      | nil =>
        obtain rfl : run = last := by simpa using hlast
        exact ⟨d :: run, by simp, hsuffix.trans (List.suffix_cons d run)⟩
      | cons next runs => exact ⟨last, by simpa using hlast, hsuffix⟩

/-- **Occurrences in front of a cut.**  A text without the character `c` stands in
front of a `c` exactly where it ends a run that is closed. -/
theorem infix_concat_iff (h : c ∉ part) :
    part ++ [c] <:+: cs ↔ ∃ run ∈ (splitChars c cs).dropLast, part <:+ run := by
  constructor
  · rintro ⟨before, after, rfl⟩
    obtain ⟨run, hrun, hsuffix⟩ := exists_getLast?_splitChars h before
    refine ⟨run, ?_, hsuffix⟩
    have hcut : before ++ (part ++ [c]) ++ after = before ++ part ++ c :: after := by simp
    rw [hcut, splitChars_append, List.dropLast_append_of_ne_nil (splitChars_ne_nil c after)]
    exact List.mem_append_left _ (List.mem_of_getLast? hrun)
  · rintro ⟨run, hrun, before, rfl⟩
    have hclosed := concat_infix_of_mem_dropLast hrun
    exact (List.suffix_append before (part ++ [c])).isInfix.trans (by simpa using hclosed)

end PlsqlAudit.Text
