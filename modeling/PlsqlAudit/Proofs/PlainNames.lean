import PlsqlAudit.Proofs.Lowering
import PlsqlAudit.Proofs.NameKeys

/-!
# Names whose two keys agree

A name is looked up under its own key, or under its key as the target of an
assignment.  The two are the same text for most names.  They differ for a quoted name
with blanks in it, since these stay in the one key and are dropped from the other, and
they differ for a name with a capital sigma at the end of a word, since a text as a
whole is lowered there to the final form of sigma and a single character is not.  In
all other cases they agree (`nameKey_eq_targetKey`).
-/

namespace PlsqlAudit

namespace Text

/-! ### Blanks and quotes are not letters -/

/-- The code points of blanks beyond ASCII. -/
def blankPoints : List Nat :=
  [0x85, 0xA0, 0x1680, 0x2000, 0x2001, 0x2002, 0x2003, 0x2004, 0x2005, 0x2006, 0x2007, 0x2008,
    0x2009, 0x200A, 0x2028, 0x2029, 0x202F, 0x205F, 0x3000]

theorem mem_blankPoints {c : Char} (hlarge : ¬ c.toNat < 128) (hblank : isBlank c = true) :
    c.toNat ∈ blankPoints := by
  simp only [isBlank, hlarge, if_false, Bool.or_eq_true, Bool.and_eq_true, beq_iff_eq,
    decide_eq_true_eq] at hblank
  simp only [blankPoints, List.mem_cons, List.not_mem_nil, or_false]
  omega

/-- True when no small letter of the run is a blank, and no capital. -/
def CapitalRun.leavesBlanks (run : CapitalRun) : Bool :=
  blankPoints.all fun n =>
    (n < run.first || run.last < n) && (n < run.small run.first || run.small run.last < n)

theorem leavesBlanks_capitalRuns : capitalRuns.all CapitalRun.leavesBlanks = true := by
  decide +kernel

/-- No blank is a member of a run, and none is the small letter of a member. -/
theorem not_mem_blankPoints {run : CapitalRun} {n : Nat} (hrun : run ∈ capitalRuns)
    (hhas : run.Has n) : n ∉ blankPoints ∧ run.small n ∉ blankPoints := by
  have hleaves := List.all_eq_true.1 leavesBlanks_capitalRuns run hrun
  have hletter := (small_spec hrun ⟨Nat.le_refl _, Nat.le_trans hhas.1 hhas.2.1,
    by rw [Nat.sub_self, Nat.zero_mod]⟩).1
  obtain ⟨hfirst, hlast, -⟩ := hhas
  have hmoved : run.small n = run.small run.first + (n - run.first) ∧
      run.small run.last = run.small run.first + (run.last - run.first) := by
    simp only [CapitalRun.small, Int.ofNat_eq_natCast] at hletter ⊢
    omega
  have houtside (m : Nat) (hm : m ∈ blankPoints) :
      (m < run.first ∨ run.last < m) ∧ (m < run.small run.first ∨ run.small run.last < m) := by
    simpa using List.all_eq_true.1 hleaves m hm
  constructor
  · intro hmem
    have hcapital := (houtside n hmem).1
    omega
  · intro hmem
    have hsmall := (houtside _ hmem).2
    omega

/-- What is kept in the key of a target is kept when it is lowered. -/
theorem keepsInTarget_of_mem_lowerChar {c d : Char} (hd : d ∈ lowerChar c)
    (hc : keepsInTarget c = true) : keepsInTarget d = true := by
  unfold lowerChar at hd
  split at hd
  case isTrue hlt =>
    obtain rfl := List.mem_singleton.1 hd
    rwa [keepsInTarget_toLower hlt]
  case isFalse hlarge =>
    split at hd
    · have hpair : d = 'i' ∨ d = '\u0307' := by simpa using hd
      rcases hpair with rfl | rfl <;> decide
    · obtain rfl := List.mem_singleton.1 hd
      rcases lowerCodePoint_cases c.toNat capitalRuns with hsame | ⟨run, hrun, hhas, hsmall⟩
      · rwa [hsame, Char.ofNat_toNat]
      · obtain ⟨hletter, hvalid, -, -⟩ := small_spec hrun hhas
        have hnat := toNat_ofNat hvalid
        rw [hsmall]
        have hquote : Char.ofNat (run.small c.toNat) ≠ '"' := by
          intro heq
          rw [heq] at hnat
          have hquoteNat : '"'.toNat = 34 := rfl
          omega
        have hblank : isBlank (Char.ofNat (run.small c.toNat)) = false := by
          rw [Bool.eq_false_iff]
          intro hblank
          by_cases hlt : (Char.ofNat (run.small c.toNat)).toNat < 128
          · simp only [isBlank, hlt, if_true, Bool.or_eq_true, Bool.and_eq_true, beq_iff_eq,
              decide_eq_true_eq] at hblank
            omega
          · have hmem := mem_blankPoints hlt hblank
            rw [hnat] at hmem
            exact (not_mem_blankPoints hrun hhas).2 hmem
        simp [keepsInTarget, hquote, hblank]

/-- What is not kept is not changed by lowering. -/
theorem lowerChar_of_not_keepsInTarget {c : Char} (h : keepsInTarget c = false) :
    c ≠ 'Σ' ∧ lowerChar c = [c] := by
  constructor
  · rintro rfl
    exact absurd h (by decide)
  · by_cases hlt : c.toNat < 128
    · rw [lowerChar_of_lt hlt]
      exact congrArg (fun d => [d]) (forall_ascii
        (P := fun c => keepsInTarget c = false → c.toLower = c) (by decide) hlt h)
    · have hblank : isBlank c = true := by
        have hquote : c ≠ '"' := by
          rintro rfl
          exact hlt (by decide)
        simpa [keepsInTarget, hquote] using h
      have hmem := mem_blankPoints hlt hblank
      have hdotted : (c == '\u0130') = false := by
        rw [beq_eq_false_iff_ne]
        rintro rfl
        exact absurd hblank (by decide)
      rw [lowerChar, if_neg hlt, hdotted, if_neg (by simp)]
      rcases lowerCodePoint_cases c.toNat capitalRuns with hsame | ⟨run, hrun, hhas, -⟩
      · rw [hsame, Char.ofNat_toNat]
      · exact absurd hmem (not_mem_blankPoints hrun hhas).1

/-! ### Lowering a text and its characters -/

/-- A capital sigma in the text, with `front` in front of the text, ends a word. -/
def EndsInSigma (front cs : List Char) : Prop :=
  ∃ before after, cs = before ++ 'Σ' :: after ∧ startsCased (before.reverse ++ front) = true ∧
    startsCased after = false

theorem endsInSigma_cons {front cs : List Char} {c : Char} :
    EndsInSigma front (c :: cs) ↔
      c = 'Σ' ∧ startsCased front = true ∧ startsCased cs = false ∨ EndsInSigma (c :: front) cs := by
  constructor
  · rintro ⟨before, after, hcs, hfront, hafter⟩
    cases before with
    | nil =>
      obtain ⟨rfl, rfl⟩ := List.cons.inj hcs
      exact .inl ⟨rfl, hfront, hafter⟩
    | cons d before =>
      obtain ⟨rfl, rfl⟩ := List.cons.inj hcs
      exact .inr ⟨before, after, rfl, by simpa using hfront, hafter⟩
  · rintro (⟨rfl, hfront, hafter⟩ | ⟨before, after, rfl, hfront, hafter⟩)
    · exact ⟨[], cs, rfl, hfront, hafter⟩
    · exact ⟨c :: before, after, rfl, by simpa using hfront, hafter⟩

/-- A text is lowered character by character exactly when no capital sigma in it ends a
word. -/
theorem lowerFrom_eq_flatMap {front cs : List Char} :
    lowerFrom front cs = cs.flatMap lowerChar ↔ ¬ EndsInSigma front cs := by
  induction cs generalizing front with
  | nil => simp [lowerFrom, EndsInSigma]
  | cons c cs ih =>
    rw [endsInSigma_cons, not_or, ← ih, lowerFrom, List.flatMap_cons]
    by_cases hsigma : c = 'Σ'
    · subst hsigma
      have hlower : lowerChar 'Σ' = ['σ'] := by decide
      cases hfront : startsCased front <;> cases hafter : startsCased cs <;> simp [hlower]
    · have hnot : (c == 'Σ') = false := by simpa using hsigma
      simp [hnot, hsigma]

/-- What is not kept is found again in the lowered text. -/
theorem mem_lowerFrom {front cs : List Char} {c : Char} (hc : c ∈ cs)
    (h : keepsInTarget c = false) : c ∈ lowerFrom front cs := by
  obtain ⟨hsigma, hlower⟩ := lowerChar_of_not_keepsInTarget h
  induction cs generalizing front with
  | nil => simp at hc
  | cons d cs ih =>
    rw [lowerFrom, List.mem_append]
    rcases List.mem_cons.1 hc with rfl | hc
    · left
      simp [hsigma, hlower]
    · exact .inr (ih hc)

end Text

/-! ### The two keys -/

/-- The text of a name without blanks and quotes at its ends. -/
def bareText (text : String) : List Char :=
  Text.dropEndsWhile (· == '"') (Text.dropEndsWhile Text.isBlank text.toList)

theorem nameKey_eq (text : String) :
    nameKey text = String.ofList (Text.lowerFrom [] (bareText text)) := by
  rw [nameKey, Text.lower, Text.trimEnds, Text.trim, String.toList_ofList, String.toList_ofList]
  rfl

theorem targetKey_eq (text : String) :
    targetKey text =
      String.ofList (((bareText text).filter keepsInTarget).flatMap Text.lowerChar) := by
  have hbare : (bareText text).filter keepsInTarget = text.toList.filter keepsInTarget := by
    rw [bareText, Text.filter_dropEndsWhile, Text.filter_dropEndsWhile]
    · intro c hc
      simp [keepsInTarget, hc]
    · intro c hc
      simp [keepsInTarget, beq_iff_eq.1 hc]
  rw [hbare]
  rfl

/-- A text with neither a blank nor a quote inside it, and without a capital sigma that
ends a word. -/
structure IsPlain (text : String) : Prop where
  kept : ∀ c ∈ bareText text, Text.isBlank c = false ∧ c ≠ '"'
  sigma : ¬ Text.EndsInSigma [] (bareText text)

theorem keepsInTarget_iff {c : Char} :
    keepsInTarget c = true ↔ Text.isBlank c = false ∧ c ≠ '"' := by
  simp [keepsInTarget]

/-- **When the two keys of a name agree.** -/
theorem nameKey_eq_targetKey {text : String} : nameKey text = targetKey text ↔ IsPlain text := by
  rw [nameKey_eq, targetKey_eq, String.ofList_inj]
  constructor
  · intro h
    have hkept : ∀ c ∈ bareText text, keepsInTarget c = true := by
      intro c hc
      by_contra hnot
      rw [Bool.not_eq_true] at hnot
      have hmem : c ∈ Text.lowerFrom [] (bareText text) := Text.mem_lowerFrom hc hnot
      rw [h] at hmem
      obtain ⟨d, hd, hlower⟩ := List.mem_flatMap.1 hmem
      rw [Text.keepsInTarget_of_mem_lowerChar hlower (List.mem_filter.1 hd).2] at hnot
      simp at hnot
    rw [List.filter_eq_self.2 hkept] at h
    exact ⟨fun c hc => keepsInTarget_iff.1 (hkept c hc), Text.lowerFrom_eq_flatMap.1 h⟩
  · intro h
    rw [List.filter_eq_self.2 fun c hc => keepsInTarget_iff.2 (h.kept c hc)]
    exact Text.lowerFrom_eq_flatMap.2 h.sigma

end PlsqlAudit
